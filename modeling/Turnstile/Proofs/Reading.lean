import Turnstile.Formula.Reader
import Turnstile.Proofs.Names

/-!
# What formulas are read from

A formula that has been read is made of what its text and the vocabulary offer: its variables are
identifiers of the text that are not reserved, the types written in it are declared types, and
its constants are those of reserved words. Spellings of identifiers and the use of schematic type
variables are carried along as parameters.
-/

namespace Turnstile

/-! ## Parts of vocabularies -/

/-- The constant that a word stands for. -/
def Word.constant? : Word → Option Symbol
  | type _ _ => none
  | operator op => some op.constant
  | binder constant => some constant
  | setBuilder builder => some builder.constant

/-- A vocabulary has a word for a constant. -/
def Vocabulary.Declares (v : Vocabulary) (constant : Symbol) : Prop :=
  ∃ w ∈ v.words, w.constant? = some constant

variable {v : Vocabulary} {name : String}

/-- A word that is found is a word of the vocabulary. -/
theorem Vocabulary.lookup_mem {w : Word} (found : v.lookup name = some w) : w ∈ v.words :=
  List.mem_of_find?_eq_some found

/-- The constant of an operator that is found is declared. -/
theorem Vocabulary.declares_operator {op : Operator} (found : v.operator? name = some op) :
    v.Declares op.constant := by
  obtain ⟨w, looked, is⟩ := Option.bind_eq_some_iff.mp found
  refine ⟨w, lookup_mem looked, ?_⟩
  cases w <;> simp_all [Word.operator?, Word.constant?]

/-- The constant of a set builder is declared. -/
theorem Vocabulary.declares_setBuilder {builder : SetBuilder}
    (known : builder ∈ v.setBuilders) : v.Declares builder.constant := by
  obtain ⟨w, member, is⟩ := List.mem_filterMap.mp known
  refine ⟨w, member, ?_⟩
  cases w <;> simp_all [Word.setBuilder?, Word.constant?]

/-! ## Formulas made of what is offered -/

/-- What identifiers may be spelled like, and whether schematic type variables occur. -/
structure Spelling where
  /-- The spellings of identifiers. -/
  identifier : String → Prop
  /-- Whether there are schematic type variables. -/
  schematic : Prop

/-- A type made of declared types. -/
def TypeExpr.From (v : Vocabulary) (sp : Spelling) : TypeExpr → Prop
  | known t => ∃ name, sp.identifier name ∧ v.type? name = some t
  | schematic _ => sp.schematic
  | arrow domain codomain => domain.From v sp ∧ codomain.From v sp

/-- A variable that is not reserved, with a type made of declared types if one is written. -/
structure NameExpr.From (v : Vocabulary) (sp : Spelling) (x : NameExpr) : Prop where
  /-- The name is an identifier. -/
  spelled : sp.identifier x.name
  /-- The name is not reserved. -/
  unreserved : v.lookup x.name = none
  /-- The type is made of declared types. -/
  declared : ∀ t ∈ x.declared, t.From v sp

mutual

/-- A formula made of unreserved variables and declared constants. -/
def Expr.From (v : Vocabulary) (sp : Spelling) : Expr → Prop
  | .var x => x.From v sp
  | .const constant => v.Declares constant
  | .apply _ function arguments => function.From v sp ∧ Expr.AllFrom v sp arguments
  | .unary _ operator operand => v.Declares operator ∧ operand.From v sp
  | .binary _ operator left right => v.Declares operator ∧ left.From v sp ∧ right.From v sp
  | .bind _ binder bound body => v.Declares binder ∧ bound.From v sp ∧ body.From v sp
  | .lambda _ bound body => bound.From v sp ∧ body.From v sp
  | .setOf _ builder bound set body =>
    v.Declares builder ∧ bound.From v sp ∧ set.From v sp ∧ body.From v sp

/-- Several such formulas. -/
def Expr.AllFrom (v : Vocabulary) (sp : Spelling) : List Expr → Prop
  | [] => True
  | e :: rest => e.From v sp ∧ Expr.AllFrom v sp rest

end

/-! ## Tokens -/

namespace Formula

variable {sp : Spelling} {tokens rest : List Token}

/-- Tokens whose identifiers have the spelling. -/
def Spelled (sp : Spelling) (tokens : List Token) : Prop :=
  ∀ token ∈ tokens, (token.kind = .identifier → sp.identifier token.text) ∧
    (token.kind = .question → sp.schematic)

/-- Tokens are spelled after going on, too. -/
theorem Spelled.advance (spelled : Spelled sp tokens) : Spelled sp (advance tokens) := by
  match tokens with
  | [] => exact spelled
  | token :: rest =>
    rw [Formula.advance]
    split
    · exact spelled
    · exact fun t member => spelled t (List.mem_cons_of_mem _ member)

/-- The next token is one of the tokens unless the text has ended. -/
theorem Spelled.peek (spelled : Spelled sp tokens) :
    ((peek tokens).kind = .identifier → sp.identifier (peek tokens).text) ∧
      ((peek tokens).kind = .question → sp.schematic) := by
  match tokens with
  | [] =>
    constructor
    · intro is
      cases is
    · intro is
      cases is
  | token :: _ => exact spelled token (by simp)

/-- A step of a reading that went on had a result. -/
theorem bind_ok {ε α β : Type} {first : Except ε α} {next : α → Except ε β} {b : β}
    (done : first >>= next = .ok b) : ∃ a, first = .ok a ∧ next a = .ok b := by
  cases first with
  | error failure => cases done
  | ok a => exact ⟨a, rfl, done⟩

/-- Reading after what is done succeeds only where reading does. -/
theorem after_ok {α : Type} {done : List Expr} {reading : Except Stop α} {a : α}
    (read : after done reading = .ok a) : reading = .ok a := by
  cases reading with
  | error s => cases read
  | ok b => exact read

/-- After an expected token one goes on. -/
theorem expect_ok {kind : TokenKind} (passed : expect kind tokens = .ok rest) :
    rest = advance tokens := by
  rw [expect] at passed
  split at passed
  · cases passed
    rfl
  · cases passed

/-- After a required token one goes on. -/
theorem require_ok {kind : TokenKind} (passed : require kind tokens = .ok rest) :
    rest = advance tokens := by
  rw [require] at passed
  cases expected : expect kind tokens with
  | error failure => rw [expected] at passed; cases passed
  | ok tokens' =>
    rw [expected] at passed
    cases passed
    exact expect_ok expected

/-- The token at the front of a text: identifiers are plain, and a question mark is one. -/
theorem frontToken?_spelled {cs spelling : List Char} {kind : TokenKind}
    (found : frontToken? cs = some (kind, spelling)) :
    (kind = .identifier → isPlain (String.ofList spelling) = true) ∧
      (kind = .question → '?' ∈ cs) := by
  match cs with
  | [] => cases found
  | c :: rest =>
    rw [frontToken?] at found
    split at found
    next start =>
      cases found
      refine ⟨fun _ => ?_, fun is => nomatch is⟩
      have first : isNamePart c = true := by simp [isNamePart, start]
      have others : ∀ d ∈ rest.takeWhile isNamePart, isNamePart d = true := fun d member =>
        List.all_eq_true.mp List.all_takeWhile d member
      simp only [isPlain, String.toList_ofList, List.all_cons, first, Bool.true_or, Bool.true_and]
      exact List.all_eq_true.mpr fun d member => by simp [others d member]
    next =>
      obtain ⟨entry, listed, same⟩ := Option.map_eq_some_iff.mp found
      have begins := List.find?_some listed
      have member := List.mem_of_find?_eq_some listed
      cases same
      constructor
      · intro is
        have equality : entry = (['='], .identifier) := by
          simp only [punctuation, List.mem_cons, List.not_mem_nil, or_false] at member
          rcases member with rfl | rfl | rfl | rfl | rfl | rfl | rfl | rfl | rfl | rfl | rfl |
            rfl | rfl <;> first | rfl | cases is
        rw [equality]
        decide
      · intro is
        have question : entry = (['?'], .question) := by
          simp only [punctuation, List.mem_cons, List.not_mem_nil, or_false] at member
          rcases member with rfl | rfl | rfl | rfl | rfl | rfl | rfl | rfl | rfl | rfl | rfl |
            rfl | rfl <;> first | rfl | cases is
        rw [question] at begins
        have same : '?' = c := by simpa [List.isPrefixOf] using begins
        exact List.mem_cons.mpr (.inl same)

/-- The tokens of a text: identifiers are plain, and question marks stand in the text. -/
theorem tokensFrom_spelled {cs : List Char} :
    ∀ {skip : Nat} {p : Position} {tokens : List Token}, tokensFrom skip p cs = .ok tokens →
      Spelled ⟨fun name => isPlain name = true, '?' ∈ cs⟩ tokens := by
  induction cs with
  | nil =>
    intro skip p tokens read
    have last : tokens = [⟨.endOfInput, "", p⟩] := by
      cases skip <;> (rw [tokensFrom] at read; cases read; rfl)
    rw [last]
    intro token member
    rw [List.mem_singleton.mp member]
    exact ⟨fun is => (nomatch is), fun is => (nomatch is)⟩
  | cons c rest ih =>
    intro skip p tokens read
    have later : ∀ {tokens : List Token},
        Spelled ⟨fun name => isPlain name = true, '?' ∈ rest⟩ tokens →
        Spelled ⟨fun name => isPlain name = true, '?' ∈ c :: rest⟩ tokens :=
      fun spelled token member => ⟨(spelled token member).1,
        fun is => List.mem_cons_of_mem _ ((spelled token member).2 is)⟩
    cases skip with
    | succ skip =>
      rw [tokensFrom] at read
      exact later (ih read)
    | zero =>
      rw [tokensFrom] at read
      split at read
      · exact later (ih read)
      · split at read
        next => cases read
        next kind spelling found =>
          obtain ⟨others, further, read⟩ := bind_ok read
          cases read
          intro token member
          rcases List.mem_cons.mp member with rfl | inside
          · exact frontToken?_spelled found
          · exact later (ih further) token inside

/-- The tokens of a text are spelled with plain names. -/
theorem tokens_spelled {text : String} (read : Formula.tokens text = .ok tokens) :
    Spelled ⟨fun name => isPlain name = true, '?' ∈ text.toList⟩ tokens :=
  tokensFrom_spelled read

/-! ## Types and names -/

/-- What reading a type gives within some rounds. -/
theorem type_from (v : Vocabulary) (sp : Spelling) (rounds : Nat) :
    (∀ tokens t rest, Spelled sp tokens → type v rounds tokens = .ok (t, rest) →
      t.From v sp ∧ Spelled sp rest) ∧
    (∀ tokens t rest, Spelled sp tokens → atomicType v rounds tokens = .ok (t, rest) →
      t.From v sp ∧ Spelled sp rest) := by
  induction rounds with
  | zero =>
    constructor
    · intro tokens t rest _ read
      rw [type] at read
      cases read
    · intro tokens t rest _ read
      rw [atomicType] at read
      cases read
  | succ rounds ih =>
    obtain ⟨types, atoms⟩ := ih
    constructor
    · intro tokens t rest spelled read
      rw [type] at read
      obtain ⟨⟨domain, tokens'⟩, first, read⟩ := bind_ok read
      obtain ⟨fromDomain, spelled'⟩ := atoms _ _ _ spelled first
      dsimp only at read
      split at read
      · obtain ⟨⟨codomain, tokens''⟩, second, read⟩ := bind_ok read
        obtain ⟨fromCodomain, spelled''⟩ := types _ _ _ spelled'.advance second
        cases read
        exact ⟨⟨fromDomain, fromCodomain⟩, spelled''⟩
      · cases read
        exact ⟨fromDomain, spelled'⟩
    · intro tokens t rest spelled read
      rw [atomicType] at read
      dsimp only at read
      split at read
      next kind =>
        split at read
        next found =>
          cases read
          exact ⟨⟨_, spelled.peek.1 kind, found⟩, spelled.advance⟩
        next => cases read
      next kind =>
        split at read
        · cases read
          exact ⟨spelled.peek.2 kind, spelled.advance.advance⟩
        · cases read
      · obtain ⟨⟨inner, tokens'⟩, first, read⟩ := bind_ok read
        obtain ⟨tokens'', closed, read⟩ := bind_ok read
        obtain ⟨fromInner, spelled'⟩ := types _ _ _ spelled.advance first
        cases read
        rw [expect_ok closed]
        exact ⟨fromInner, spelled'.advance⟩
      · cases read

/-- A name that is read is made of plain names. -/
theorem name_from {x : NameExpr} (spelled : Spelled sp tokens)
    (read : Formula.name v tokens = .ok (x, rest)) : x.From v sp ∧ Spelled sp rest := by
  rw [Formula.name] at read
  dsimp only at read
  split at read
  · cases read
  next kind =>
    split at read
    · cases read
    next unreserved =>
      have identifier := spelled.peek.1 (Decidable.not_not.mp kind)
      have free : v.lookup (peek tokens).text = none := by
        simpa using unreserved
      split at read
      · obtain ⟨⟨t, tokens'⟩, typed, read⟩ := bind_ok read
        obtain ⟨fromType, spelled'⟩ :=
          (type_from v sp _).1 _ _ _ spelled.advance.advance typed
        cases read
        exact ⟨⟨identifier, free, by simpa using fromType⟩, spelled'⟩
      · cases read
        exact ⟨⟨identifier, free, by simp⟩, spelled.advance⟩

/-- A bound variable that is read is made of plain names. -/
theorem bound_from {x : NameExpr} (spelled : Spelled sp tokens)
    (read : bound v tokens = .ok (x, rest)) : x.From v sp ∧ Spelled sp rest := by
  rw [bound] at read
  cases named : Formula.name v tokens with
  | error failure => rw [named] at read; cases read
  | ok reading =>
    rw [named] at read
    cases read
    exact name_from spelled named

/-! ## Terms -/

/-- A bare constant is declared. -/
theorem bareConstant?_from {constant : Symbol} (spelled : Spelled sp tokens)
    (read : bareConstant? v tokens = some (constant, rest)) :
    v.Declares constant ∧ Spelled sp rest := by
  match tokens with
  | [] => cases read
  | [_] => cases read
  | [_, _] => cases read
  | _ :: word :: close :: rest' =>
    rw [bareConstant?] at read
    have later : Spelled sp rest' := fun token member => spelled token (by simp [member])
    split at read
    · split at read
      next op found =>
        cases read
        exact ⟨⟨_, Vocabulary.lookup_mem found, rfl⟩, later⟩
      next found =>
        cases read
        exact ⟨⟨_, Vocabulary.lookup_mem found, rfl⟩, later⟩
      next => cases read
    · cases read

/-- The constant of an infix operator is declared. -/
theorem infixAt?_declares {token : Token} {limit : Int} {op : Operator}
    (found : infixAt? v token limit = some op) : v.Declares op.constant := by
  rw [infixAt?] at found
  split at found
  · exact Vocabulary.declares_operator (Option.filter_eq_some_iff.mp found).1
  · cases found

/-- What the mutually recursive readers give within some rounds. -/
structure Reads (v : Vocabulary) (sp : Spelling) (rounds : Nat) : Prop where
  /-- Terms up to a limit. -/
  term : ∀ limit tokens e rest, Spelled sp tokens → term v rounds limit tokens = .ok (e, rest) →
    e.From v sp ∧ Spelled sp rest
  /-- What follows a term. -/
  climb : ∀ limit chained left tokens e rest, left.From v sp → Spelled sp tokens →
    climb v rounds limit chained left tokens = .ok (e, rest) → e.From v sp ∧ Spelled sp rest
  /-- What may stand before an infix operator. -/
  operand : ∀ tokens e rest, Spelled sp tokens → operand v rounds tokens = .ok (e, rest) →
    e.From v sp ∧ Spelled sp rest
  /-- Terms separated by commas. -/
  terms : ∀ close tokens es rest, Spelled sp tokens →
    terms v rounds close tokens = .ok (es, rest) → Expr.AllFrom v sp es ∧ Spelled sp rest
  /-- One term or more. -/
  moreTerms : ∀ tokens es rest, Spelled sp tokens → moreTerms v rounds tokens = .ok (es, rest) →
    Expr.AllFrom v sp es ∧ Spelled sp rest

/-- With one more round what is climbed to is made of the words of the vocabulary. -/
theorem Reads.climb_succ {rounds : Nat} (reads : Reads v sp rounds) {limit chained : Int}
    {left e : Expr} (fromLeft : left.From v sp) (spelled : Spelled sp tokens)
    (read : Formula.climb v (rounds + 1) limit chained left tokens = .ok (e, rest)) :
    e.From v sp ∧ Spelled sp rest := by
  rw [Formula.climb] at read
  dsimp only at read
  split at read
  · obtain ⟨⟨arguments, tokens'⟩, first, read⟩ := bind_ok read
    obtain ⟨fromArguments, spelled'⟩ := reads.terms _ _ _ _ spelled.advance (after_ok first)
    obtain ⟨tokens'', closed, read⟩ := bind_ok read
    rw [require_ok (after_ok closed)] at read
    refine reads.climb _ _ _ _ _ _ ?_ spelled'.advance read
    exact ⟨fromLeft, fromArguments⟩
  · split at read
    next =>
      cases read
      exact ⟨fromLeft, spelled⟩
    next op found =>
      split at read
      · cases read
      · obtain ⟨⟨right, tokens'⟩, second, read⟩ := bind_ok read
        obtain ⟨fromRight, spelled'⟩ := reads.term _ _ _ _ spelled.advance (after_ok second)
        refine reads.climb _ _ _ _ _ _ ?_ spelled' read
        exact ⟨infixAt?_declares found, fromLeft, fromRight⟩

/-- With one more round an operand is made of the words of the vocabulary. -/
theorem Reads.operand_succ {rounds : Nat} (reads : Reads v sp rounds) {e : Expr}
    (spelled : Spelled sp tokens)
    (read : Formula.operand v (rounds + 1) tokens = .ok (e, rest)) :
    e.From v sp ∧ Spelled sp rest := by
  rw [Formula.operand] at read
  dsimp only at read
  split at read
  -- An identifier: a variable, or what its word says.
  · split at read
    next =>
      obtain ⟨⟨x, tokens'⟩, named, read⟩ := bind_ok read
      cases read
      exact bound_from spelled named
    next found =>
      cases read
      exact ⟨⟨_, Vocabulary.lookup_mem found, rfl⟩, spelled.advance⟩
    next op found =>
      split at read
      · cases read
      · obtain ⟨⟨x, tokens'⟩, inner, read⟩ := bind_ok read
        obtain ⟨fromX, spelled'⟩ := reads.term _ _ _ _ spelled.advance inner
        cases read
        exact ⟨⟨⟨_, Vocabulary.lookup_mem found, rfl⟩, fromX⟩, spelled'⟩
    next constant found =>
      obtain ⟨⟨x, tokens'⟩, named, read⟩ := bind_ok read
      obtain ⟨fromX, spelled'⟩ := bound_from spelled.advance named
      obtain ⟨⟨body, tokens''⟩, inner, read⟩ := bind_ok read
      obtain ⟨fromBody, spelled''⟩ := reads.term _ _ _ _ spelled' inner
      cases read
      exact ⟨⟨⟨_, Vocabulary.lookup_mem found, rfl⟩, fromX, fromBody⟩, spelled''⟩
    next => cases read
  -- A parenthesis: a bare constant or a term.
  · split at read
    next constant tokens' bare =>
      cases read
      exact bareConstant?_from spelled bare
    next =>
      obtain ⟨⟨inner, tokens'⟩, first, read⟩ := bind_ok read
      obtain ⟨fromInner, spelled'⟩ := reads.term _ _ _ _ spelled.advance first
      obtain ⟨tokens'', closed, read⟩ := bind_ok read
      cases read
      rw [require_ok (after_ok closed)]
      exact ⟨fromInner, spelled'.advance⟩
  -- A lambda.
  · obtain ⟨⟨x, tokens'⟩, named, read⟩ := bind_ok read
    obtain ⟨fromX, spelled'⟩ := bound_from spelled.advance named
    obtain ⟨⟨body, tokens''⟩, inner, read⟩ := bind_ok read
    obtain ⟨fromBody, spelled''⟩ := reads.term _ _ _ _ spelled' inner
    cases read
    exact ⟨⟨fromX, fromBody⟩, spelled''⟩
  · exact reads.term _ _ _ _ spelled.advance read
  -- A set builder.
  · obtain ⟨⟨x, tokens'⟩, named, read⟩ := bind_ok read
    obtain ⟨fromX, spelled'⟩ := bound_from spelled.advance named
    dsimp only at read
    split at read
    next => cases read
    next builder found =>
      obtain ⟨⟨set, tokens₂⟩, first, read⟩ := bind_ok read
      obtain ⟨fromSet, spelled₂⟩ := reads.term _ _ _ _ spelled'.advance first
      obtain ⟨tokens₃, barred, read⟩ := bind_ok read
      rw [require_ok (after_ok barred)] at read
      obtain ⟨⟨body, tokens₄⟩, second, read⟩ := bind_ok read
      obtain ⟨fromBody, spelled₄⟩ := reads.term _ _ _ _ spelled₂.advance (after_ok second)
      obtain ⟨tokens₅, closed, read⟩ := bind_ok read
      cases read
      rw [require_ok (after_ok closed)]
      have declares := Vocabulary.declares_setBuilder (List.mem_of_find?_eq_some found)
      exact ⟨⟨declares, fromX, fromSet, fromBody⟩, spelled₄.advance⟩
  · cases read

/-- Within any number of rounds, what is read is made of what is offered. -/
theorem reads (v : Vocabulary) (sp : Spelling) (rounds : Nat) : Reads v sp rounds := by
  induction rounds with
  | zero =>
    constructor
    · intro limit tokens e rest _ read
      rw [Formula.term] at read
      cases read
    · intro limit chained left tokens e rest _ _ read
      rw [Formula.climb] at read
      cases read
    · intro tokens e rest _ read
      rw [Formula.operand] at read
      cases read
    · intro close tokens es rest _ read
      rw [Formula.terms] at read
      cases read
    · intro tokens es rest _ read
      rw [Formula.moreTerms] at read
      cases read
  | succ rounds ih =>
    constructor
    · intro limit tokens e rest spelled read
      rw [Formula.term] at read
      obtain ⟨⟨left, tokens'⟩, first, read⟩ := bind_ok read
      obtain ⟨fromLeft, spelled'⟩ := ih.operand _ _ _ spelled first
      exact ih.climb _ _ _ _ _ _ fromLeft spelled' read
    · intro limit chained left tokens e rest fromLeft spelled read
      exact ih.climb_succ fromLeft spelled read
    · intro tokens e rest spelled read
      exact ih.operand_succ spelled read
    · intro close tokens es rest spelled read
      rw [Formula.terms] at read
      split at read
      · cases read
        exact ⟨trivial, spelled⟩
      · exact ih.moreTerms _ _ _ spelled read
    · intro tokens es rest spelled read
      rw [Formula.moreTerms] at read
      obtain ⟨⟨first, tokens'⟩, here, read⟩ := bind_ok read
      obtain ⟨fromFirst, spelled'⟩ := ih.term _ _ _ _ spelled here
      dsimp only at read
      split at read
      · obtain ⟨⟨others, tokens''⟩, later, read⟩ := bind_ok read
        obtain ⟨fromRest, spelled''⟩ := ih.moreTerms _ _ _ spelled'.advance (after_ok later)
        cases read
        exact ⟨⟨fromFirst, fromRest⟩, spelled''⟩
      · cases read
        exact ⟨⟨fromFirst, trivial⟩, spelled'⟩

/-- A term read from a whole text is made of what is offered. -/
theorem wholeTerm_from {e : Expr} (spelled : Spelled sp tokens)
    (read : wholeTerm v tokens = .ok e) : e.From v sp := by
  rw [wholeTerm] at read
  obtain ⟨⟨e', tokens'⟩, first, read⟩ := bind_ok read
  obtain ⟨_, _, read⟩ := bind_ok read
  cases read
  exact ((reads v sp _).term _ _ _ _ spelled first).1

/-- The terms read from a whole text as a sequent are made of what is offered. -/
theorem wholeSequent_from {left right : List Expr} (spelled : Spelled sp tokens)
    (read : wholeSequent v tokens = .ok (left, right)) :
    Expr.AllFrom v sp left ∧ Expr.AllFrom v sp right := by
  rw [wholeSequent] at read
  obtain ⟨⟨left', tokens'⟩, first, read⟩ := bind_ok read
  obtain ⟨fromLeft, spelled'⟩ := (reads v sp _).terms _ _ _ _ spelled first
  obtain ⟨tokens'', turned, read⟩ := bind_ok read
  rw [require_ok (after_ok turned)] at read
  obtain ⟨⟨right', tokens₃⟩, second, read⟩ := bind_ok read
  obtain ⟨fromRight, _⟩ := (reads v sp _).terms _ _ _ _ spelled'.advance (after_ok second)
  obtain ⟨_, _, read⟩ := bind_ok read
  cases read
  exact ⟨fromLeft, fromRight⟩

end Formula

end Turnstile
