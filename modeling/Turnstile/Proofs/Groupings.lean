import Turnstile.Proofs.Clashes
import Turnstile.Proofs.Rereading

/-!
# Groupings of operators

A line of variables with infix operators between them can be grouped in many ways. A grouping is
admissible if every operator binds more loosely than the operators of its operands, or as loosely
as that of its left operand where its level groups to the left, and as that of its right operand
where its level groups to the right. A line has at most one admissible grouping. Precedence climbing
reads that one, and a line without any is refused.

What carries the argument is the bound that an operator puts on what may follow it: reading its last
operand stops at the first operator that reaches the bound, and such an operator may take all of
what was read so far for its left operand.
-/

namespace Turnstile

namespace Formula

/-! ## Lines and their groupings -/

/-- A variable of a line: the tokens that spell it and what they are read as. -/
structure Atom where
  /-- The tokens. -/
  tokens : List Token
  /-- The variable. -/
  name : NameExpr

/-- An operator of a line: its token and what this is looked up as. -/
structure Link where
  /-- The token. -/
  token : Token
  /-- The operator. -/
  op : Operator

/-- What may follow a variable of a line: an operator or the end. -/
def Follows (rest : List Token) : Prop :=
  (peek rest).kind = .identifier ∨ (peek rest).kind = .endOfInput

/-- The tokens are read as the variable, whatever part of a line follows. -/
def Atom.Spelled (v : Vocabulary) (a : Atom) : Prop :=
  ∀ rest, Follows rest → Formula.name v (a.tokens ++ rest) = .ok (a.name, rest)

/-- The token names the operator, which stands between two operands. -/
structure Link.Spelled (v : Vocabulary) (l : Link) : Prop where
  /-- The token is a word. -/
  word : l.token.kind = .identifier
  /-- The word is the operator's. -/
  named : v.operator? l.token.text = some l.op
  /-- The operator takes two operands. -/
  infixed : l.op.arity = 2

/-- The operators and operands after the first operand of a line. -/
abbrev Tail := List (Link × Atom)

/-- The tokens of such a tail. -/
def Tail.tokens (tail : Tail) : List Token := tail.flatMap fun (l, a) => l.token :: a.tokens

/-- The operators and operands are spelled. -/
def Tail.Spelled (v : Vocabulary) (tail : Tail) : Prop :=
  ∀ entry ∈ tail, entry.1.Spelled v ∧ entry.2.Spelled v

/-- A way to group a line. -/
inductive Grouping where
  /-- A variable. -/
  | atom (a : Atom)
  /-- An operator between two groups. -/
  | join (l : Link) (left right : Grouping)

namespace Grouping

/-- The first operand of the line that is grouped. -/
def first : Grouping → Atom
  | atom a => a
  | join _ left _ => left.first

/-- The rest of the line that is grouped. -/
def tail : Grouping → Tail
  | atom _ => []
  | join l left right => left.tail ++ (l, right.first) :: right.tail

/-- The tokens of the line. -/
def tokens (g : Grouping) : List Token := g.first.tokens ++ g.tail.tokens

/-- The formula that says how the line is grouped. -/
def expr : Grouping → Expr
  | atom a => .var a.name
  | join l left right => .binary l.token.position l.op.constant left.expr right.expr

/-- The group may be the left operand of an operator. -/
def MayPrecede (op : Operator) : Grouping → Prop
  | atom _ => True
  | join l _ _ => l.op.precedence < op.precedence ∨
    l.op.precedence = op.precedence ∧ op.assoc = .left

/-- The group may be the right operand of an operator. -/
def MayFollow (op : Operator) : Grouping → Prop
  | atom _ => True
  | join l _ _ => l.op.precedence < op.precedence ∨
    l.op.precedence = op.precedence ∧ op.assoc = .right

/-- Every operator may stand between its operands. -/
def Admissible : Grouping → Prop
  | atom _ => True
  | join l left right => left.Admissible ∧ right.Admissible ∧ left.MayPrecede l.op ∧
    right.MayFollow l.op

/-- A term grouped in this way: operators applied to what their operands stand for, down to the
variables. -/
def Shapes : Grouping → Term → Prop
  | atom a, .var s => s.name = a.name.name
  | join l left right, .app (.app (.const c) x) y =>
    c.name = l.op.constant.name ∧ left.Shapes x ∧ right.Shapes y
  | _, _ => False

end Grouping

variable {v : Vocabulary} {tokens rest : List Token} {a : Atom} {l : Link} {g : Grouping}
  {op op' : Operator} {e : Expr} {limit chained : Int} {n : Nat}

/-! ## Tokens of lines -/

/-- What follows an operand is no argument. -/
theorem Follows.unapplied (follows : Follows rest) : (peek rest).kind ≠ .leftParen := by
  rcases follows with is | is <;> rw [is] <;> decide

/-- An operator that is spelled is not the end of the input. -/
theorem Link.Spelled.present (spelled : l.Spelled v) : l.token.kind ≠ .endOfInput := by
  rw [spelled.word]
  decide

/-- An operator that is spelled is one of the vocabulary. -/
theorem Link.Spelled.known (spelled : l.Spelled v) : l.op ∈ v.operators := by
  obtain ⟨w, looked, is⟩ := Option.bind_eq_some_iff.mp spelled.named
  exact List.mem_filterMap.mpr ⟨w, Vocabulary.lookup_mem looked, is⟩

/-- The operator of a line is seen under the limits above its precedence. -/
theorem Link.Spelled.infixAt? (spelled : l.Spelled v) (limit : Int) :
    Formula.infixAt? v l.token limit = if l.op.precedence < limit then some l.op else none := by
  rw [Formula.infixAt?, if_pos spelled.word, spelled.named, Option.filter_some, spelled.infixed]
  simp

/-- No operator is seen under a limit if none is seen under a higher one. -/
theorem infixAt?_none {token : Token} {limit' : Int} (none : infixAt? v token limit = none)
    (lower : limit' ≤ limit) : infixAt? v token limit' = Option.none := by
  rw [infixAt?] at none ⊢
  split at none
  next word =>
    rw [if_pos word]
    rw [Option.filter_eq_none_iff] at none ⊢
    intro op named
    have unseen := none op named
    simp only [Bool.and_eq_true, beq_iff_eq, decide_eq_true_eq, not_and] at unseen ⊢
    intro infixed
    have := unseen infixed
    omega
  next word => rw [if_neg word]

/-- The tokens of a tail are those of its first link and then the rest. -/
theorem Tail.tokens_cons (l : Link) (a : Atom) (tail : Tail) :
    Tail.tokens ((l, a) :: tail) = l.token :: (a.tokens ++ tail.tokens) := rfl

/-- The tokens of two tails together. -/
theorem Tail.tokens_append (front back : Tail) :
    Tail.tokens (front ++ back) = front.tokens ++ back.tokens := List.flatMap_append

/-- The tokens of a variable are not none: nothing is no variable. -/
theorem Atom.Spelled.length_pos (spelled : a.Spelled v) : 0 < a.tokens.length := by
  refine List.length_pos_iff.mpr fun empty => ?_
  have read := spelled [] (.inr rfl)
  rw [empty] at read
  cases read

/-- A word that is not reserved spells a variable. -/
theorem spelled_name {token : Token} (word : token.kind = .identifier)
    (unreserved : v.lookup token.text = none) : Atom.Spelled v ⟨[token], ⟨token.text, none⟩⟩ := by
  intro rest follows
  have present : token.kind ≠ .endOfInput := by rw [word]; decide
  have untyped : (peek rest).kind ≠ .colon := by
    rcases follows with is | is <;> rw [is] <;> decide
  simp [Formula.name, word, unreserved, advance_cons present, untyped]

/-- A word with a declared type after it spells a variable of this type. -/
theorem spelled_typed {token colon named : Token} {type : Ty} (word : token.kind = .identifier)
    (unreserved : v.lookup token.text = none) (isColon : colon.kind = .colon)
    (typeWord : named.kind = .identifier) (declared : v.type? named.text = some type) :
    Atom.Spelled v ⟨[token, colon, named], ⟨token.text, some (.known type)⟩⟩ := by
  intro rest follows
  have present : token.kind ≠ .endOfInput := by rw [word]; decide
  have present' : colon.kind ≠ .endOfInput := by rw [isColon]; decide
  have present'' : named.kind ≠ .endOfInput := by rw [typeWord]; decide
  have ended : (peek rest).kind ≠ .arrow := by
    rcases follows with is | is <;> rw [is] <;> decide
  simp [Formula.name, word, unreserved, advance_cons present, isColon, advance_cons present',
    roundsFor, Formula.type, atomicType, typeWord, declared, advance_cons present'', ended]
  rfl

/-- A name that is read is read as an operand. -/
theorem operand_name {x : NameExpr} (read : Formula.name v tokens = .ok (x, rest)) :
    operand v (n + 1) tokens = .ok (.var x, rest) := by
  have read' := read
  rw [Formula.name] at read'
  dsimp only at read'
  split at read'
  · cases read'
  next word =>
    split at read'
    · cases read'
    next unreserved =>
      have is : (peek tokens).kind = .identifier := Decidable.not_not.mp word
      have free : v.lookup (peek tokens).text = none := by simpa using unreserved
      have named : bound v tokens = .ok (x, rest) := by rw [bound, read]; rfl
      simp [operand, is, free, named]

/-! ## One step of reading -/

/-- Reading stops where no operator under the limit follows. -/
theorem climb_stops (follows : Follows rest) (none : infixAt? v (peek rest) limit = none) :
    climb v (n + 1) limit chained e rest = .ok (e, rest) := by
  simp [climb, follows.unapplied, none]

/-- An operator under the limit that may follow is read with its right operand. -/
theorem climb_link (spelled : l.Spelled v) (below : l.op.precedence < limit)
    (unchained : l.op.precedence ≠ chained) :
    climb v (n + 1) limit chained e (l.token :: rest) =
      (after [e] (term v n l.op.operandLimit rest) >>= fun reading =>
        climb v n limit (if l.op.assoc = .nonassoc then l.op.precedence else -1)
          (.binary l.token.position l.op.constant e reading.1) reading.2) := by
  have unapplied : l.token.kind ≠ .leftParen := by rw [spelled.word]; decide
  rw [climb]
  simp only [peek_cons, unapplied, decide_false, Bool.false_and, Bool.false_eq_true, if_false,
    spelled.infixAt?, if_pos below, if_neg unchained, advance_cons spelled.present]

/-- An operator that may not follow is refused. -/
theorem climb_chained (spelled : l.Spelled v) (below : l.op.precedence < limit)
    (same : l.op.precedence = chained) :
    ∃ s, climb v (n + 1) limit chained e (l.token :: rest) = .error s := by
  have unapplied : l.token.kind ≠ .leftParen := by rw [spelled.word]; decide
  rw [climb]
  simp only [peek_cons, unapplied, decide_false, Bool.false_and, Bool.false_eq_true, if_false,
    spelled.infixAt?, if_pos below, if_pos same]
  exact ⟨_, rfl⟩

/-! ## Bounds on what follows a group -/

/-- Operators of one precedence group alike, and precedences lie between those of application and
of a whole text. -/
structure Ordered (v : Vocabulary) : Prop where
  /-- Levels are of one kind. -/
  alike : ∀ op ∈ v.operators, ∀ op' ∈ v.operators, op.precedence = op'.precedence →
    op.assoc = op'.assoc
  /-- Precedences are bounded. -/
  bounded : ∀ op ∈ v.operators, 1 ≤ op.precedence ∧ op.precedence < loosest

/-- The bound that an operator puts on what follows its last operand. -/
theorem operandLimit_eq (below : op.precedence < loosest) :
    op.operandLimit = if op.assoc = .right then op.precedence + 1 else op.precedence := by
  rw [Operator.operandLimit, nextPrecedence, if_neg (Int.ne_of_lt below)]

namespace Grouping

variable {left right : Grouping}

/-- The operands and operators of the line are spelled. -/
structure Spelled (v : Vocabulary) (g : Grouping) : Prop where
  /-- The first operand. -/
  first : g.first.Spelled v
  /-- The rest. -/
  tail : g.tail.Spelled v

/-- The operator of the group, if it has one, is seen under a limit. -/
def Below (limit : Int) : Grouping → Prop
  | atom _ => True
  | join l _ _ => l.op.precedence < limit

/-- What follows the group does not belong to its last operand. -/
def Closed (v : Vocabulary) (rest : List Token) : Grouping → Prop
  | atom _ => True
  | join l _ _ => infixAt? v (peek rest) l.op.operandLimit = none

/-- The precedence that may not follow the group. -/
def barred : Grouping → Int
  | atom _ => -1
  | join l _ _ => if l.op.assoc = .nonassoc then l.op.precedence else -1

/-- The tokens of a compound are those of its operands with the operator between them. -/
theorem tokens_join (l : Link) (left right : Grouping) :
    (join l left right).tokens = left.tokens ++ l.token :: right.tokens := by
  simp [tokens, first, tail, Tail.tokens_append, Tail.tokens_cons]

/-- A compound is spelled if its parts are. -/
theorem spelled_join :
    (join l left right).Spelled v ↔ left.Spelled v ∧ l.Spelled v ∧ right.Spelled v := by
  constructor
  · rintro ⟨head, rest⟩
    simp only [tail, Tail.Spelled, List.forall_mem_append, List.forall_mem_cons] at rest
    exact ⟨⟨head, rest.1⟩, rest.2.1.1, rest.2.1.2, rest.2.2⟩
  · rintro ⟨before, link, after⟩
    refine ⟨before.first, ?_⟩
    simp only [tail, Tail.Spelled, List.forall_mem_append, List.forall_mem_cons]
    exact ⟨before.tail, ⟨link, after.first⟩, after.tail⟩

/-- Every grouping has a token. -/
theorem Spelled.length_pos (spelled : g.Spelled v) : 0 < g.tokens.length := by
  have some := spelled.first.length_pos
  rw [tokens, List.length_append]
  omega

/-- A group may be the left operand of the operator that follows it if the operator does not belong
to the group's last operand and is not of a level that does not group. -/
theorem mayPrecede_iff (ordered : Ordered v) (spelled : g.Spelled v) (link : l.Spelled v)
    (rest : List Token) :
    g.MayPrecede l.op ↔ g.Closed v (l.token :: rest) ∧ l.op.precedence ≠ g.barred := by
  have positive := (ordered.bounded l.op link.known).1
  cases g with
  | atom a =>
    refine ⟨fun _ => ⟨trivial, ?_⟩, fun _ => trivial⟩
    rw [barred]
    omega
  | join l' left right =>
    obtain ⟨_, link', _⟩ := spelled_join.mp spelled
    have limit := operandLimit_eq (ordered.bounded l'.op link'.known).2
    have alike := ordered.alike l'.op link'.known l.op link.known
    simp only [MayPrecede, Closed, barred, peek_cons, link.infixAt?]
    cases kind : l'.op.assoc <;> simp [kind] at limit alike ⊢ <;> rw [limit] <;> grind

/-- A group may be the right operand of an operator if its own operator is seen under the limit of
that operand. -/
theorem mayFollow_iff (below : op.precedence < loosest) :
    g.MayFollow op ↔ g.Below op.operandLimit := by
  cases g with
  | atom a => exact Iff.rfl
  | join l left right =>
    rw [MayFollow, Below, operandLimit_eq below]
    split
    next groups => simp only [groups, and_true]; omega
    next other => simp only [other, and_false, or_false]

/-- The operator of a left operand is seen wherever the operator after it is. -/
theorem MayPrecede.below (precedes : g.MayPrecede op) (under : op.precedence < limit) :
    g.Below limit := by
  cases g with
  | atom a => trivial
  | join l left right =>
    rcases precedes with tighter | ⟨same, _⟩
    · exact Int.lt_trans tighter under
    · exact lt_of_eq_of_lt same under

/-- What does not belong to an operand does not belong to the last operand of that. -/
theorem MayFollow.closed (ordered : Ordered v) (spelled : g.Spelled v) (known : op ∈ v.operators)
    (follows : g.MayFollow op) (closed : infixAt? v (peek rest) op.operandLimit = none) :
    g.Closed v rest := by
  cases g with
  | atom a => trivial
  | join l left right =>
    obtain ⟨_, link, _⟩ := spelled_join.mp spelled
    have limit := operandLimit_eq (ordered.bounded op known).2
    have limit' := operandLimit_eq (ordered.bounded l.op link.known).2
    have alike := ordered.alike l.op link.known op known
    refine infixAt?_none closed ?_
    rcases follows with tighter | ⟨same, groups⟩
    · split at limit <;> split at limit' <;> omega
    · rw [limit', limit, if_pos groups, if_pos ((alike same).trans groups)]
      omega

/-! ## The admissible grouping is read -/

/-- Reading a line that has an admissible grouping goes on after the formula of this grouping. -/
theorem term_reads (ordered : Ordered v) : ∀ {g : Grouping} {limit : Int} {rest : List Token}
    {n : Nat}, g.Spelled v → g.Admissible → g.Below limit → g.Closed v rest → Follows rest →
    g.tokens.length < n → ∃ m, n ≤ m + g.tokens.length ∧
      term v n limit (g.tokens ++ rest) = climb v m limit g.barred g.expr rest := by
  intro g
  induction g with
  | atom a =>
    intro limit rest n spelled _ _ _ follows rounds
    have some := spelled.length_pos
    obtain ⟨n, rfl⟩ : ∃ k, n = k + 2 := ⟨n - 2, by omega⟩
    refine ⟨n + 1, by omega, ?_⟩
    have tokens : (atom a).tokens = a.tokens := List.append_nil _
    have read : Formula.name v (a.tokens ++ rest) = .ok (a.name, rest) := spelled.first rest follows
    rw [tokens, term, operand_name read]
    rfl
  | join l left right ihL ihR =>
    intro limit rest n spelled admissible below closed follows rounds
    obtain ⟨spelledL, link, spelledR⟩ := spelled_join.mp spelled
    obtain ⟨admissibleL, admissibleR, precedes, comes⟩ := admissible
    obtain ⟨closedL, unchained⟩ :=
      (mayPrecede_iff ordered spelledL link (right.tokens ++ rest)).mp precedes
    have closedR := comes.closed ordered spelledR link.known closed
    have belowR := (mayFollow_iff (ordered.bounded _ link.known).2).mp comes
    rw [tokens_join] at rounds ⊢
    simp only [List.length_append, List.length_cons] at rounds ⊢
    obtain ⟨m, enough, readL⟩ := ihL (n := n) spelledL admissibleL (precedes.below below) closedL
      (.inl link.word) (by omega)
    obtain ⟨k, rfl⟩ : ∃ k, m = k + 1 := ⟨m - 1, by omega⟩
    obtain ⟨m', enough', readR⟩ := ihR (n := k) spelledR admissibleR belowR closedR follows
      (by omega)
    obtain ⟨k', rfl⟩ : ∃ k', m' = k' + 1 := ⟨m' - 1, by omega⟩
    refine ⟨k, by omega, ?_⟩
    rw [List.append_assoc, List.cons_append, readL, climb_link link below unchained, readR,
      climb_stops follows closed]
    rfl

/-! ## What is read is an admissible grouping -/

/-- A beginning of a line was read under a limit, as a grouping: what is left of the line begins
with no operator under the limit. -/
structure ReadAs (v : Vocabulary) (limit : Int) (stop : List Token) (first : Atom) (tail : Tail)
    (e : Expr) (rest : List Token) (g : Grouping) (left : Tail) : Prop where
  /-- The grouping begins where the line does. -/
  first : g.first = first
  /-- It goes on as the line does, up to what is left. -/
  tail : g.tail ++ left = tail
  /-- Every operator may stand between its operands. -/
  admissible : g.Admissible
  /-- Its operator is under the limit. -/
  below : g.Below limit
  /-- Its formula was read. -/
  formula : g.expr = e
  /-- The tokens after it remain. -/
  remaining : left.tokens ++ stop = rest
  /-- Nothing under the limit follows. -/
  stopped : infixAt? v (peek rest) limit = none

/-- A tail is followed by what can follow an operand. -/
theorem Tail.follows {t : Tail} {stop : List Token} (spelled : t.Spelled v)
    (ends : (peek stop).kind = .endOfInput) : Follows (t.tokens ++ stop) := by
  match t with
  | [] => exact .inr ends
  | (l, a) :: t => exact .inl (spelled (l, a) (by simp)).1.word

/-- Whatever is read of a line is one of its admissible groupings. -/
theorem reads_admissible (ordered : Ordered v) {stop : List Token}
    (ends : (peek stop).kind = .endOfInput) (n : Nat) :
    (∀ {limit : Int} {a : Atom} {t : Tail} {e : Expr} {rest : List Token}, a.Spelled v →
      t.Spelled v → term v n limit (a.tokens ++ (t.tokens ++ stop)) = .ok (e, rest) →
      ∃ g left, ReadAs v limit stop a t e rest g left) ∧
    (∀ {limit : Int} {g : Grouping} {t : Tail} {e : Expr} {rest : List Token}, g.Spelled v →
      t.Spelled v → g.Admissible → g.Below limit → g.Closed v (t.tokens ++ stop) →
      climb v n limit g.barred g.expr (t.tokens ++ stop) = .ok (e, rest) →
      ∃ g' left, ReadAs v limit stop g.first (g.tail ++ t) e rest g' left) := by
  induction n with
  | zero =>
    constructor
    · intro limit a t e rest _ _ read
      rw [term] at read
      cases read
    · intro limit g t e rest _ _ _ _ _ read
      rw [climb] at read
      cases read
  | succ n ih =>
    obtain ⟨terms, climbs⟩ := ih
    constructor
    · intro limit a t e rest spelled spelledT read
      rw [term] at read
      obtain ⟨⟨first, tokens⟩, operands, read⟩ := bind_ok read
      cases n with
      | zero => rw [operand] at operands; cases operands
      | succ n =>
        rw [operand_name (spelled _ (Tail.follows spelledT ends))] at operands
        cases operands
        exact climbs (g := atom a) ⟨spelled, by simp [tail, Tail.Spelled]⟩ spelledT trivial trivial
          trivial read
    · intro limit g t e rest spelled spelledT admissible below closed read
      have done : infixAt? v (peek (t.tokens ++ stop)) limit = none →
          ∃ g' left, ReadAs v limit stop g.first (g.tail ++ t) e rest g' left := by
        intro none
        rw [climb_stops (Tail.follows spelledT ends) none] at read
        cases read
        exact ⟨g, t, rfl, rfl, admissible, below, rfl, rfl, none⟩
      cases t with
      | nil =>
        refine done (if_neg ?_)
        change (peek stop).kind ≠ .identifier
        rw [ends]
        decide
      | cons entry t =>
        obtain ⟨l, a⟩ := entry
        obtain ⟨link, spelledA⟩ := spelledT (l, a) (by simp)
        have spelledT' : Tail.Spelled v t := fun entry inside => spelledT entry (by simp [inside])
        have seen := link.infixAt? limit
        by_cases under : l.op.precedence < limit
        · rw [Tail.tokens_cons, List.cons_append, List.append_assoc] at read closed
          by_cases same : l.op.precedence = g.barred
          · have chained : ∃ s, climb v (n + 1) limit g.barred g.expr
                (l.token :: (a.tokens ++ (Tail.tokens t ++ stop))) = .error s :=
              climb_chained link under same
            obtain ⟨s, failed⟩ := chained
            rw [failed] at read
            cases read
          · rw [climb_link link under same] at read
            obtain ⟨⟨right, tokens⟩, operands, read⟩ := bind_ok read
            obtain ⟨g', left, as⟩ := terms spelledA spelledT' (after_ok operands)
            obtain ⟨rfl, rfl, admissible', below', rfl, rfl, stopped⟩ := as
            have parts : Tail.Spelled v g'.tail ∧ Tail.Spelled v left :=
              List.forall_mem_append.mp spelledT'
            have precedes := (mayPrecede_iff ordered spelled link _).mpr ⟨closed, same⟩
            have comes := (mayFollow_iff (ordered.bounded _ link.known).2).mpr below'
            obtain ⟨g'', left', as⟩ := climbs (g := join l g g')
              (spelled_join.mpr ⟨spelled, link, spelledA, parts.1⟩) parts.2
              ⟨admissible, admissible', precedes, comes⟩ under stopped read
            refine ⟨g'', left', as.first, ?_, as.admissible, as.below, as.formula, as.remaining,
              as.stopped⟩
            rw [as.tail]
            simp [tail]
        · rw [if_neg under] at seen
          exact done seen

/-! ## Whole lines -/

/-- Groupings of one tree have as many links. -/
theorem length_tail_of_expr : ∀ {g g' : Grouping}, g.expr = g'.expr →
    g.tail.length = g'.tail.length
  | atom _, atom _, _ => rfl
  | join _ left right, join _ left' right', same => by
    obtain ⟨_, _, sameL, sameR⟩ := Expr.binary.inj same
    simp [tail, length_tail_of_expr sameL, length_tail_of_expr sameR]

/-- Groupings of one line with one formula are the same. -/
theorem expr_inj : ∀ {g g' : Grouping}, g.first = g'.first → g.tail = g'.tail →
    g.expr = g'.expr → g = g'
  | atom _, atom _, first, _, _ => congrArg atom first
  | join _ left right, join _ left' right', first, tails, same => by
    obtain ⟨_, _, sameL, sameR⟩ := Expr.binary.inj same
    obtain ⟨tailsL, rest⟩ := List.append_inj tails (length_tail_of_expr sameL)
    obtain ⟨entry, tailsR⟩ := List.cons.inj rest
    obtain ⟨rfl, firstR⟩ := Prod.mk.inj entry
    have operands : left = left' := expr_inj first tailsL sameL
    rw [operands, expr_inj firstR tailsR sameR]

/-- A line that ends is read as any of its admissible groupings. -/
theorem wholeTerm_reads (ordered : Ordered v) {stop : Token} (ends : stop.kind = .endOfInput)
    (spelled : g.Spelled v) (admissible : g.Admissible) :
    wholeTerm v (g.tokens ++ [stop]) = .ok g.expr := by
  have unseen : ∀ limit, infixAt? v (peek [stop]) limit = none := by
    intro limit
    refine if_neg ?_
    rw [peek_cons, ends]
    decide
  have below : g.Below loosest := by
    cases g with
    | atom a => trivial
    | join l left right => exact (ordered.bounded _ (spelled_join.mp spelled).2.1.known).2
  have closed : g.Closed v [stop] := by
    cases g with
    | atom a => trivial
    | join l left right => exact unseen _
  have follows : Follows [stop] := .inr ends
  have enough : g.tokens.length < roundsFor (g.tokens ++ [stop]) := by
    rw [roundsFor, List.length_append]
    omega
  obtain ⟨m, rounds, read⟩ := term_reads ordered spelled admissible below closed follows enough
  obtain ⟨m, rfl⟩ : ∃ k, m = k + 1 := ⟨m - 1, by
    rw [roundsFor, List.length_append] at rounds
    omega⟩
  rw [climb_stops follows (unseen _)] at read
  simp [wholeTerm, read, require, expect, ends, after, Except.mapError]

/-- What is read of a line that ends is one of its admissible groupings. -/
theorem reads_wholeTerm (ordered : Ordered v) {stop : Token} (ends : stop.kind = .endOfInput)
    {t : Tail} (spelled : a.Spelled v) (spelledT : t.Spelled v)
    (read : wholeTerm v (a.tokens ++ (t.tokens ++ [stop])) = .ok e) :
    ∃ g : Grouping, g.first = a ∧ g.tail = t ∧ g.Admissible ∧ g.expr = e := by
  rw [wholeTerm] at read
  obtain ⟨⟨e', rest⟩, terms, read⟩ := bind_ok read
  obtain ⟨rest', required, read⟩ := bind_ok read
  cases read
  obtain ⟨g, left, as⟩ :=
    (reads_admissible ordered (show (peek [stop]).kind = .endOfInput from ends) _).1 spelled
      spelledT terms
  refine ⟨g, as.first, ?_, as.admissible, as.formula⟩
  have atEnd : (peek rest).kind = .endOfInput := by
    have passed := after_ok required
    rw [require, expect] at passed
    by_contra other
    rw [if_neg other] at passed
    cases passed
  cases left with
  | nil => rw [← as.tail, List.append_nil]
  | cons entry left =>
    obtain ⟨l, x⟩ := entry
    rw [← as.remaining] at atEnd
    have link := (spelledT (l, x) (by rw [← as.tail]; simp)).1
    exact absurd atEnd link.present

/-- A line has at most one admissible grouping. -/
theorem admissible_unique (ordered : Ordered v) {g g' : Grouping} (first : g.first = g'.first)
    (tails : g.tail = g'.tail) (spelled : g.Spelled v) (admissible : g.Admissible)
    (admissible' : g'.Admissible) : g = g' := by
  have spelled' : g'.Spelled v := ⟨first ▸ spelled.first, tails ▸ spelled.tail⟩
  have tokens' : g'.tokens = g.tokens := by rw [tokens, tokens, first, tails]
  let stop : Token := ⟨.endOfInput, "", .start⟩
  have ends : stop.kind = .endOfInput := rfl
  have read := wholeTerm_reads ordered ends spelled admissible
  have read' := wholeTerm_reads ordered ends spelled' admissible'
  rw [tokens', read] at read'
  exact expr_inj first tails (Except.ok.inj read')

/-! ## The term of a grouping -/

/-- A grouping shapes a term whatever types it has. -/
theorem Shapes.retyped {t t' : Term} (shapes : g.Shapes t) (retyped : t.Retyped t') :
    g.Shapes t' := by
  obtain ⟨change, rfl⟩ := retyped
  induction g generalizing t with
  | atom a =>
    match t with
    | .var s => exact shapes
  | join l left right ihL ihR =>
    match t with
    | .app (.app (.const c) x) y => exact ⟨shapes.1, ihL shapes.2.1, ihR shapes.2.2⟩

/-- The term that is inferred is grouped as its formula is. -/
theorem infer_clashes : ∀ g : Grouping, g.expr.infer.ClashesOr g.Shapes
  | atom a => by
    rw [expr, Expr.infer]
    refine a.name.resolve_clashes.mono fun t means => ?_
    obtain ⟨r, rfl, name⟩ := means
    exact name
  | join l left right => by
    rw [expr, Expr.infer]
    refine (infer_clashes left).bind fun x shapesL => ?_
    refine (infer_clashes right).bind fun y shapesR => ?_
    refine (Typing.clashesOr_lift (Symbol.occurrence_clashes _)).bind fun op occurs => ?_
    obtain ⟨c, rfl, name⟩ := occurs
    refine Typing.clashesOr_build ((Term.mkApp_clashes _ _).bind fun applied first => ?_)
    refine (Term.mkApp_clashes _ _).bind fun t second => Build.clashesOr_pure ?_
    obtain ⟨f, x', rfl, ⟨change, rfl⟩, left'⟩ := first
    obtain ⟨f', y', rfl, ⟨change', rfl⟩, right'⟩ := second
    exact ⟨name, (shapesL.retyped left').retyped ⟨change', rfl⟩, shapesR.retyped right'⟩

/-- The grouping is one of the line. -/
structure Of (a : Atom) (t : Tail) (g : Grouping) : Prop where
  /-- It begins with the first operand. -/
  first : g.first = a
  /-- It goes on with the rest. -/
  tail : g.tail = t

end Grouping

end Formula

open Formula

/-- A line of variables with infix operators between them has at most one admissible grouping. The
text of a line that has one is parsed as this grouping, or types clash; that of a line without any
is an error. -/
theorem Vocabulary.parse_line {declared : List Word} {v : Vocabulary}
    (made : Vocabulary.ofWords declared = .ok v)
    (bounded : ∀ op ∈ v.operators, 1 ≤ op.precedence ∧ op.precedence < loosest)
    {text : String} {a : Atom} {t : Tail} {stop : Token} (first : a.Spelled v)
    (rest : t.Spelled v) (ends : stop.kind = .endOfInput)
    (cut : Formula.tokens text = .ok (a.tokens ++ (t.tokens ++ [stop]))) :
    (∀ g g' : Grouping, g.Of a t → g'.Of a t → g.Admissible → g'.Admissible → g = g') ∧
    (∀ g : Grouping, g.Of a t → g.Admissible → (v.parse text).ClashesOr g.Shapes) ∧
    ((∀ g : Grouping, g.Of a t → ¬ g.Admissible) →
      ∀ s, ∃ failure s', (v.parse text).runFrom s = (.error failure, s')) := by
  have ordered : Ordered v :=
    ⟨fun op known op' known' => operators_alike made known known', bounded⟩
  refine ⟨?_, ?_, ?_⟩
  · rintro g g' ⟨rfl, rfl⟩ ⟨first', tail'⟩ admissible admissible'
    exact Grouping.admissible_unique ordered first'.symm tail'.symm ⟨first, rest⟩ admissible
      admissible'
  · rintro g ⟨rfl, rfl⟩ admissible
    have read := Grouping.wholeTerm_reads ordered ends ⟨first, rest⟩ admissible
    rw [Grouping.tokens, List.append_assoc] at read
    rw [parse_eq cut read]
    exact g.infer_clashes.within
  · intro none s
    rw [parse, cut]
    change ∃ failure s', (settle (wholeTerm v _) Expr.infer).runFrom s = (.error failure, s')
    cases read : wholeTerm v (a.tokens ++ (t.tokens ++ [stop])) with
    | ok e =>
      obtain ⟨g, first', tail', admissible, _⟩ :=
        Grouping.reads_wholeTerm ordered ends first rest read
      exact absurd admissible (none g ⟨first', tail'⟩)
    | error stopped =>
      rw [settle, Build.runFrom_bind]
      rcases (Expr.inferAll stopped.read).within.runFrom s with ⟨failure | terms, s'⟩
      · exact ⟨failure, s', rfl⟩
      · exact ⟨stopped.failure, s', rfl⟩

/-! ## Two levels -/

/-- A truth value type, a connective that groups to the left and a looser one that groups to the
right. -/
def connectiveWords : List Word :=
  [.type "bool" .bool,
    .operator ⟨⟨"or", .arrow .bool (.arrow .bool .bool)⟩, 2, .left, 20⟩,
    .operator ⟨⟨"implies", .arrow .bool (.arrow .bool .bool)⟩, 2, .right, 30⟩]

/-- A word of a text that is one line long. -/
def wordAt (offset : Nat) (text : String) : Token :=
  ⟨.identifier, text, ⟨offset, 1, offset + 1⟩⟩

/-- An operator of the line below. -/
def linkAt (offset : Nat) (text : String) (assoc : Assoc) (precedence : Int) : Link :=
  ⟨wordAt offset text, ⟨⟨text, .arrow .bool (.arrow .bool .bool)⟩, 2, assoc, precedence⟩⟩

/-- A variable of the line below without a type. -/
def atomAt (offset : Nat) (text : String) : Atom := ⟨[wordAt offset text], ⟨text, none⟩⟩

/-- The variable at the end of the line below. -/
def typedAtom : Atom :=
  ⟨[wordAt 20 "s", ⟨.colon, ":", ⟨21, 1, 22⟩⟩, wordAt 22 "bool"], ⟨"s", some (.known .bool)⟩⟩

/-- The grouping of `p or q or r implies s:bool`. -/
def connectiveGrouping : Grouping :=
  .join (linkAt 12 "implies" .right 30)
    (.join (linkAt 7 "or" .left 20) (.join (linkAt 2 "or" .left 20) (.atom (atomAt 0 "p"))
      (.atom (atomAt 5 "q"))) (.atom (atomAt 10 "r")))
    (.atom typedAtom)

/-- The line is parsed as its only admissible grouping. -/
theorem Vocabulary.parse_line_connectives : ∃ v, Vocabulary.ofWords connectiveWords = .ok v ∧
    connectiveGrouping.Admissible ∧
    (v.parse "p or q or r implies s:bool").ClashesOr connectiveGrouping.Shapes ∧
    ∀ g : Grouping, g.Of connectiveGrouping.first connectiveGrouping.tail → g.Admissible →
      g = connectiveGrouping := by
  have built : (Vocabulary.ofWords connectiveWords).toOption.map Vocabulary.words =
      some connectiveWords := by decide
  obtain ⟨v, found, words⟩ := Option.map_eq_some_iff.mp built
  have made := Except.ok_of_toOption found
  have lookup : ∀ name, v.lookup name = connectiveWords.find? fun w => w.name == name := by
    intro name
    rw [Vocabulary.lookup, words]
  have operator : ∀ name, v.operator? name =
      (connectiveWords.find? fun w => w.name == name).bind Word.operator? := by
    intro name
    rw [Vocabulary.operator?, lookup]
  have bounded : ∀ op ∈ v.operators, 1 ≤ op.precedence ∧ op.precedence < loosest := by
    rw [Vocabulary.operators, words]
    decide
  have unreserved : ∀ name ∈ ["p", "q", "r", "s"], v.lookup name = none := by
    intro name inside
    rw [lookup]
    revert name
    decide
  have infixes : v.operator? "or" = some (linkAt 2 "or" .left 20).op ∧
      v.operator? "implies" = some (linkAt 12 "implies" .right 30).op := by
    rw [operator, operator]
    decide
  have typed : v.type? "bool" = some .bool := by
    rw [Vocabulary.type?, lookup]
    decide
  have first : connectiveGrouping.first.Spelled v := spelled_name rfl (unreserved "p" (by simp))
  have rest : connectiveGrouping.tail.Spelled v := by
    intro entry inside
    simp only [connectiveGrouping, Grouping.tail, Grouping.first, List.nil_append, List.mem_cons,
      List.cons_append, List.not_mem_nil, or_false] at inside
    rcases inside with rfl | rfl | rfl
    · exact ⟨⟨rfl, infixes.1, rfl⟩, spelled_name rfl (unreserved "q" (by simp))⟩
    · exact ⟨⟨rfl, infixes.1, rfl⟩, spelled_name rfl (unreserved "r" (by simp))⟩
    · exact ⟨⟨rfl, infixes.2, rfl⟩, spelled_typed rfl (unreserved "s" (by simp)) rfl rfl typed⟩
  have admissible : connectiveGrouping.Admissible := by
    simp [connectiveGrouping, Grouping.Admissible, Grouping.MayPrecede, Grouping.MayFollow, linkAt]
  have cut : (Formula.tokens "p or q or r implies s:bool").toOption =
      some (connectiveGrouping.first.tokens ++
        (connectiveGrouping.tail.tokens ++ [⟨.endOfInput, "", ⟨26, 1, 27⟩⟩])) := by decide
  obtain ⟨unique, parsed, _⟩ :=
    Vocabulary.parse_line made bounded first rest rfl (Except.ok_of_toOption cut)
  refine ⟨v, made, admissible, parsed connectiveGrouping ⟨rfl, rfl⟩ admissible,
    fun g of other => ?_⟩
  exact unique g connectiveGrouping of ⟨rfl, rfl⟩ other admissible

end Turnstile
