import Turnstile.Proofs.RoundTrip

/-!
# Which words can be used

A declared word can be used if its constant, applied to as many arguments as the word takes, is read
back from its own text. Words of one name aside, nothing in a declaration is checked for this, and
there are words that cannot be used: an operator between two operands whose precedence is the mark
for there being no operator before, or is not below the limit inside parentheses; and a set builder
whose membership word stands for an earlier one. All other words can be used, whatever their
precedences are.
-/

namespace Turnstile

open Build Formula

variable {v : Vocabulary} {s s' u u' : Supply} {p : Printer} {w : Word} {t a : Term}
  {text name : String} {layout : Layout}

/-! ## Words in full -/

/-- A word's constant applied to variables, as many as the word takes. The argument of a binder and
the last one of a set builder is an abstraction over a variable. -/
inductive Word.InFull : Word → Term → Prop
  | unary {op : Operator} (τ : Int → Ty) (x : Symbol) (arity : op.arity = 1) :
    InFull (.operator op) (.app (.const (op.constant.under τ)) (.var x))
  | binary {op : Operator} (τ : Int → Ty) (x y : Symbol) (arity : op.arity = 2) :
    InFull (.operator op) (.app (.app (.const (op.constant.under τ)) (.var x)) (.var y))
  | binder {binder : Symbol} (τ : Int → Ty) (bound x : Symbol) :
    InFull (.binder binder) (.app (.const (binder.under τ)) (.lam bound (.var x)))
  | setOf {builder : SetBuilder} (τ : Int → Ty) (bound set x : Symbol) :
    InFull (.setBuilder builder)
      (.app (.app (.const (builder.constant.under τ)) (.var set)) (.lam bound (.var x)))

/-- A word whose form is read as the word: an operator between two operands is accepted inside
parentheses and is not taken for the second one of a chain, and a set builder is the first one with
its membership word. -/
def Vocabulary.Understands (v : Vocabulary) : Word → Prop
  | .operator op => op.arity = 2 → op.precedence ≠ -1 ∧ op.precedence < loosest
  | .setBuilder builder =>
    v.setBuilders.find? (fun other => other.member == builder.member) = some builder
  | _ => True

/-- A word that is used in full lays out the term. -/
theorem Word.InFull.lays (inFull : w.InFull t) : ∃ layout, w.LaysOut layout t := by
  cases inFull with
  | unary τ x arity => exact ⟨_, .unary arity rfl⟩
  | binary τ x y arity => exact ⟨_, .binary arity rfl⟩
  | binder τ bound x => exact ⟨_, .binder rfl⟩
  | setOf τ bound set x => exact ⟨_, .setOf rfl⟩

/-! ## What is understood -/

/-- A name that is free shows as itself. -/
theorem Formula.Shows.var (free : v.Free name) : Shows v name [(.identifier, name)] :=
  .word free.identifier (.inl free.unreserved)

/-- A name that is free reads as a variable. -/
theorem Formula.readsTerm_var (free : v.Free name) (τ : Ty) :
    ReadsTerm v [(.identifier, name)] (.var ⟨name, τ⟩) := (readsOperand_var free.unreserved).term

/-- A variable is read under any limit. -/
theorem Formula.readsWhole_var (free : v.Free name) (τ : Ty) {limit : Int} :
    ReadsWhole v limit [(.identifier, name)] (.var ⟨name, τ⟩) :=
  (readsOperand_var free.unreserved).whole (Shows.var free).opens

/-- The pieces of a set builder in full. -/
def Formula.setPieces (bound member set x : String) : List Piece :=
  [(.leftBrace, "\x7b"), (.identifier, bound), (.identifier, member), (.identifier, set),
    (.bar, "|"), (.identifier, x), (.rightBrace, "\x7d")]

/-- A set over variables is read as that of the first set builder with its membership word. -/
theorem Formula.readsOperand_set {builder : SetBuilder} {bound set x : String} (τ : Int → Ty)
    (ofBound ofSet ofX : Ty)
    (found : v.setBuilders.find? (fun other => other.member == name) = some builder)
    (free : v.Free bound) (freeSet : v.Free set) (freeX : v.Free x) :
    ReadsOperand v (setPieces bound name set x)
      (.app (.app (.const (builder.constant.under τ)) (.var ⟨set, ofSet⟩))
        (.lam ⟨bound, ofBound⟩ (.var ⟨x, ofX⟩))) :=
  have unreserved : v.lookup (Symbol.mk bound ofBound).name = none := free.unreserved
  readsOperand_setOf found unreserved (Shows.var freeSet).opens (readsTerm_var freeSet ofSet)
    (Shows.var freeX).opens (readsTerm_var freeX ofX)

namespace Printer

/-- The text of a word in full is read as the word if the word is understood. -/
theorem in_full_written (writable : v.Writable)
    (memberships : ∀ builder ∈ v.setBuilders, Identifier builder.member) (listed : w ∈ v.words)
    (understood : v.Understands w) (inFull : w.InFull t) (spoken : t.Spoken v)
    (lays : w.LaysOut layout t) (found : p.layout? t = some layout) :
    AsOperand v (p.term t) t := by
  have looked := writable.lookup listed
  have named := writable.identifiers w listed
  cases inFull with
  | unary τ x arity =>
    have free : v.Free x.name := spoken.2
    cases lays with | unary _ _ =>
    rw [Printer.term, found]
    exact ⟨_, (Shows.var free).unary named,
      readsOperand_unary looked arity (Shows.var free).opens (readsWhole_var free _)⟩
  | @binary op τ x y arity =>
    have free : v.Free x.name := spoken.1.2
    have free' : v.Free y.name := spoken.2
    obtain ⟨unchained, below⟩ := understood arity
    cases lays with | binary _ _ =>
    rw [Printer.term, found]
    exact ⟨_, (Shows.var free).binary named (Shows.var free'),
      readsOperand_binary looked arity unchained below (Shows.var free).opens
        (readsTerm_var free _) (readsWhole_var free' _)⟩
  | binder τ bound x =>
    have free : v.Free bound.name := spoken.2.1
    have free' : v.Free x.name := spoken.2.2
    cases lays with | binder _ =>
    rw [Printer.term, found]
    exact ⟨_, .binder named free.identifier (Shows.var free'),
      readsOperand_binder looked free.unreserved (Shows.var free').opens
        (readsTerm_var free' _)⟩
  | @setOf builder τ bound set x =>
    have free : v.Free bound.name := spoken.2.1
    have freeSet : v.Free set.name := spoken.1.2
    have freeX : v.Free x.name := spoken.2.2
    have member := memberships builder (Vocabulary.mem_setBuilders.mpr listed)
    cases lays with | setOf _ =>
    rw [Printer.term, found]
    exact ⟨_, .setOf free.identifier member (Shows.var freeSet) (Shows.var freeX),
      readsOperand_set τ _ _ _ understood free freeSet freeX⟩

end Printer

/-! ## What is not understood -/

/-- What cannot stand between two operands inside parentheses stops the reading. -/
theorem Formula.wholeTerm_refuses {op : Operator} {pieces more : List Piece} {ts : List Token}
    (looked : v.lookup name = some (.operator op)) (arity : op.arity = 2)
    (refused : op.precedence = -1 ∨ loosest ≤ op.precedence) (opens : Opens v pieces)
    (reads : ReadsTerm v pieces a)
    (same : ts.map Token.piece =
      (.leftParen, "(") :: (pieces ++ (.identifier, name) :: more)) (rest : List Token) :
    ∃ failure, wholeTerm v (ts ++ rest) = .error failure := by
  obtain ⟨bracket, ts, rfl, isOpen, -, same₁⟩ := map_piece_eq_cons.mp same
  obtain ⟨first, ts, rfl, sameA, same₂⟩ := List.map_eq_append_iff.mp same₁
  obtain ⟨word, ts, rfl, isWord, rfl, -⟩ := map_piece_eq_cons.mp same₂
  simp only [List.cons_append, List.append_assoc]
  obtain ⟨n, rounds, enough⟩ : ∃ n, roundsFor (bracket :: (first ++ word :: (ts ++ rest))) = n + 3 ∧
      4 * first.length + 5 ≤ n := ⟨4 * (first.length + ts.length + rest.length) + 9, by
    simp [roundsFor]; omega, by omega⟩
  have present : bracket.kind ≠ .endOfInput := by rw [isOpen]; decide
  have unapplied : word.kind ≠ .leftParen := by rw [isWord]; decide
  obtain ⟨ea, m, left, read, -⟩ := reads first (word :: (ts ++ rest)) n loosest sameA (by omega)
    (by decide) (by rw [peek_cons, isWord]; decide)
  obtain ⟨m, rfl⟩ : ∃ k, m = k + 1 := ⟨m - 1, by omega⟩
  have inner : ∃ failure, operand v (n + 2) (bracket :: (first ++ word :: (ts ++ rest))) =
      .error failure := by
    rw [operand]
    simp only [peek_cons, isOpen, opens.bare sameA, advance_cons present, read]
    rcases lt_or_ge op.precedence loosest with below | above
    -- The operator is taken for the second one of a chain.
    · have chained : op.precedence = -1 := refused.resolve_right (by omega)
      have infixed : infixAt? v word loosest = some op := by
        simp [infixAt?, isWord, Vocabulary.operator?, looked, Word.operator?, arity, below]
      exact ⟨_, by simp [climb, unapplied, infixed, chained, after, stop]; rfl⟩
    -- The operator is left over and stands where the parenthesis has to be closed.
    · have infixed : infixAt? v word loosest = none := by
        simp [infixAt?, isWord, Vocabulary.operator?, looked, Word.operator?, arity, above]
      exact ⟨_, by simp [climb, infixed, after, require, expect, isWord]; rfl⟩
  obtain ⟨failure, inner⟩ := inner
  exact ⟨failure, by rw [wholeTerm, rounds, term, inner]; rfl⟩

/-- What is parsed spells the formula that is read from the text. -/
theorem Vocabulary.parse_spells (regular : v.Regular) {ts : List Token}
    (cut : Formula.tokens text = .ok ts) (spelled : Spelled unschematic ts)
    (run : (v.parse text).runFrom s = (.ok t, s')) :
    ∃ e, wholeTerm v ts = .ok e ∧ e.Elaborates t := by
  cases read : wholeTerm v ts with
  | error stopped =>
    rw [Vocabulary.parse, cut] at run
    change (Vocabulary.settle (wholeTerm v ts) Expr.infer).runFrom s = _ at run
    rw [read] at run
    obtain ⟨_, _, -, last⟩ := Build.bind_ok run
    cases last
  | ok e =>
    refine ⟨e, rfl, ?_⟩
    have outcome := Expr.infer_yields regular e (wholeTerm_from spelled read) s []
    rw [Vocabulary.parse_eq cut read, Typing.runFrom_within] at run
    generalize (e.infer.run []).runFrom s = result at outcome run
    cases outcome with
    | impossible _ _ => cases run
    | done infers =>
      cases run
      exact infers.elaborates

/-- The head of an application to several arguments is that of the function. -/
theorem Term.head_apps (xs : List Term) (f : Term) : (f.apps xs).head = f.head := by
  induction xs generalizing f with
  | nil => rfl
  | cons x xs ih => exact ih (.app f x)

/-- Substituting types leaves the name of the head. -/
theorem Term.name_head_under (t : Term) (σ : Int → Ty) : (t.under σ).head.name = t.head.name := by
  induction t with
  | app f x ihF _ => exact ihF
  | _ => rfl

/-- The terms that spell a formula have heads of one name. -/
theorem Expr.Elaborates.name_head : ∀ {e : Expr} {t t' : Term}, e.Elaborates t →
    e.Elaborates t' → t.head.name = t'.head.name
  | .var _, _, _, ⟨_, is, name, _⟩, ⟨_, is', name', _⟩ => by
    rw [is, is']
    exact name.trans name'.symm
  | .const _, _, _, ⟨_, is⟩, ⟨_, is'⟩ => by
    rw [is, is']
    rfl
  | .apply _ _ _, _, _, ⟨_, _, is, function, _⟩, ⟨_, _, is', function', _⟩ => by
    rw [is, is', Term.head_apps, Term.head_apps]
    exact name_head function function'
  | .unary _ _ _, _, _, ⟨_, _, is, _⟩, ⟨_, _, is', _⟩ => by
    rw [is, is']
    rfl
  | .binary _ _ _ _, _, _, ⟨_, _, _, is, _⟩, ⟨_, _, _, is', _⟩ => by
    rw [is, is']
    rfl
  | .bind _ _ _ _, _, _, ⟨_, _, _, is, _⟩, ⟨_, _, _, is', _⟩ => by
    rw [is, is']
    rfl
  | .lambda _ _ _, _, _, ⟨_, _, is, _⟩, ⟨_, _, is', _⟩ => by
    rw [is, is']
    rfl
  | .setOf _ _ _ _ _, _, _, ⟨_, _, _, _, is, _⟩, ⟨_, _, _, _, is', _⟩ => by
    rw [is, is']
    rfl

namespace Printer

/-- The text of an operator between two variables is read only if the operator is understood. -/
theorem understands_of_binary (regular : v.Regular) {op : Operator} {x y : String}
    (looked : v.lookup op.constant.name = some (.operator op))
    (named : Identifier op.constant.name) (free : v.Free x) (free' : v.Free y)
    (run : (v.parse ("(" ++ x ++ " " ++ op.constant.name ++ " " ++ y ++ ")")).runFrom u =
      (.ok t, u')) : v.Understands (.operator op) := by
  intro arity
  have shows := (Shows.var free).binary named (Shows.var free')
  obtain ⟨ts, position, pieces, cut, spelled⟩ := Formula.Shows.tokens shows.cuts shows.unmarked
  obtain ⟨e, read, -⟩ := Vocabulary.parse_spells regular cut spelled run
  by_contra refused
  obtain ⟨failure, refuses⟩ := wholeTerm_refuses looked arity (by omega) (Shows.var free).opens
    (readsTerm_var free .obj) pieces [⟨.endOfInput, "", position⟩]
  rw [refuses] at read
  cases read

/-- What is read from the text of a set is an application of the first set builder with its
membership word. -/
theorem name_of_set (regular : v.Regular) {builder : SetBuilder} {bound set x : String}
    (first : v.setBuilders.find? (fun other => other.member == name) = some builder)
    (named : Identifier name) (free : v.Free bound) (freeSet : v.Free set) (freeX : v.Free x)
    (run : (v.parse ("\x7b" ++ bound ++ " " ++ name ++ " " ++ set ++ " | " ++ x ++ "\x7d")).runFrom
      u = (.ok t, u')) : t.head.name = builder.constant.name := by
  have shows := Shows.setOf free.identifier named (Shows.var freeSet) (Shows.var freeX)
  obtain ⟨ts, position, pieces, cut, spelled⟩ := Formula.Shows.tokens shows.cuts shows.unmarked
  obtain ⟨e, read, elaborates⟩ := Vocabulary.parse_spells regular cut spelled run
  have reads := readsOperand_set .var .obj .obj .obj first free freeSet freeX
  obtain ⟨e', read', elaborates'⟩ := wholeTerm_reads (p := position) shows.opens reads.term pieces
  cases read.symm.trans read'
  exact elaborates.name_head elaborates'

/-- The text of a word in full is not read as the word unless the word is understood. -/
theorem understands_of_parse (writable : v.Writable)
    (memberships : ∀ builder ∈ v.setBuilders, Identifier builder.member) (listed : w ∈ v.words)
    (inFull : w.InFull t) (spoken : t.Spoken v) (lays : w.LaysOut layout t)
    (found : p.layout? t = some layout) {t' : Term}
    (run : (v.parse (p.term t)).runFrom u = (.ok t', u')) {σ : Int → Ty} (same : t = t'.under σ) :
    v.Understands w := by
  cases inFull with
  | @unary op τ x arity =>
    intro arity'
    omega
  | @binary op τ x y arity =>
    cases lays with | binary _ _ =>
    rw [Printer.term, found] at run
    exact understands_of_binary writable.toRegular (writable.lookup listed)
      (writable.identifiers _ listed) spoken.1.2 spoken.2 run
  | binder τ bound x => trivial
  | @setOf builder τ bound set x =>
    have inside := Vocabulary.mem_setBuilders.mpr listed
    cases lays with | setOf _ =>
    rw [Printer.term, found] at run
    rw [Vocabulary.Understands]
    cases first : v.setBuilders.find? (fun other => other.member == builder.member) with
    | none => exact absurd (List.find?_eq_none.mp first builder inside) (by simp)
    | some other =>
      have names := name_of_set writable.toRegular first (memberships builder inside)
        spoken.2.1 spoken.1.2 spoken.2.2 run
      rw [← Term.name_head_under t' σ, ← same] at names
      have listed' := Vocabulary.mem_setBuilders.mp (List.mem_of_find?_eq_some first)
      cases writable.word_unique listed listed' names
      rfl

/-- A word in full is read back from its own text exactly if the word is understood. -/
theorem reads_back_in_full_iff {words : List Word} (declared : Vocabulary.ofWords words = .ok v)
    (regular : v.Regular) (identifiers : ∀ w ∈ v.words, Identifier w.name) (drawn : v.Drawn s)
    (printer : (ofVocabulary v).runFrom s = (.ok p, s')) (listed : w ∈ v.words)
    (inFull : w.InFull t) (writes : Writes v s s' t) (u : Supply) :
    (∃ t' u', (v.parse (p.term t)).runFrom u = (.ok t', u') ∧ ∃ σ, t = t'.under σ) ↔
      v.Understands w := by
  obtain ⟨writable, memberships⟩ := Vocabulary.writable_of_words declared regular identifiers
  obtain ⟨layout, lays⟩ := inFull.lays
  have found := layout?_of_word writable drawn printer listed lays writes
  have spoken := writes.read.spoken
  constructor
  · rintro ⟨t', u', run, σ, same⟩
    exact understands_of_parse writable memberships listed inFull spoken lays found run same
  · intro understood
    have written :=
      in_full_written writable memberships listed understood inFull spoken lays found
    exact Vocabulary.parse_again regular written.term writes.read.proper.toGood u

/-- An operator between two objects. -/
def joinWords (precedence : Int) : List Word :=
  [.type "obj" .obj, .operator ⟨⟨"op", .arrow .obj (.arrow .obj .obj)⟩, 2, .left, precedence⟩]

/-- Of the precedences below application only one is not read. -/
example :
    ((rereading (joinWords (-2)) "(a op b)").runFrom Supply.initial).1.isOk = true ∧
      ((rereading (joinWords (-1)) "(a op b)").runFrom Supply.initial).1.isOk = false := by
  decide +kernel

end Printer

end Turnstile
