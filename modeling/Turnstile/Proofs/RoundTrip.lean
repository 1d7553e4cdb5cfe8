import Turnstile.Proofs.Writing
import Turnstile.Theories.Logic
import Turnstile.Theories.Sets

/-!
# Reading back what was read

What was read is a typing of the formula that its own text spells, and inference finds a typing of
that formula of which all others are instances. So what was read is an instance of what is read from
its text; and since types are not written, both have the same text. In a sequent the free variables
of one name are given one type after inference, most generally again.
-/

namespace Turnstile

open Build Formula

variable {v : Vocabulary} {s s' u u' : Supply} {p : Printer} {text : String} {t : Term}

/-! ## Declared words -/

/-- A vocabulary of declared words can be written if its names are identifiers and its types are
regular; its membership words are names as well. -/
theorem Vocabulary.writable_of_words {words : List Word} (made : Vocabulary.ofWords words = .ok v)
    (regular : v.Regular) (identifiers : ∀ w ∈ v.words, Identifier w.name) :
    v.Writable ∧ ∀ builder ∈ v.setBuilders, Identifier builder.member := by
  have making := Vocabulary.ofWords_making words
  rw [made] at making
  cases making with
  | made table separated =>
    refine ⟨⟨regular, identifiers, standing_nodup words⟩, fun builder listed => ?_⟩
    have member := separated builder (Vocabulary.mem_setBuilders.mp listed)
    rw [Vocabulary.Unseparated] at member
    push Not at member
    obtain ⟨op, stands, named, -⟩ := member
    exact named ▸ identifiers (.operator op) stands

/-- A vocabulary of declared words can be read and written if its names are identifiers, its types
are regular, its operators bind within the bounds and its set builders differ. -/
theorem Vocabulary.readable_of_words {words : List Word} (made : Vocabulary.ofWords words = .ok v)
    (regular : v.Regular) (identifiers : ∀ w ∈ v.words, Identifier w.name)
    (precedences : ∀ op ∈ v.operators, 1 ≤ op.precedence ∧ op.precedence < loosest)
    (members : ∀ builder ∈ v.setBuilders, ∀ other ∈ v.setBuilders,
      builder.member = other.member → builder = other) : v.Readable := by
  obtain ⟨writable, memberships⟩ := Vocabulary.writable_of_words made regular identifiers
  exact ⟨writable, precedences, memberships, members⟩

/-! ## Principal terms and sequents -/

/-- Inference within a text begins without schematic names and forgets them. -/
theorem Typing.runFrom_within {α : Type} (typing : Typing α) (s : Supply) :
    typing.within.runFrom s = match (typing.run []).runFrom s with
      | (.ok result, s') => (.ok result.1, s')
      | (.error failure, s') => (.error failure, s') := by
  rw [Typing.within_eq, runFrom_bind]
  rcases (typing.run []).runFrom s with ⟨failure | result, s'⟩ <;> rfl

/-- What cannot be impossible has a result. -/
theorem Typing.Yields.run {α : Type} {typing : Typing α} {P : α → Supply → Prop}
    (yields : Typing.Yields typing s P False) :
    ∃ a s', typing.within.runFrom s = (.ok a, s') ∧ P a s' := by
  have outcome := yields []
  rw [Typing.runFrom_within]
  generalize (typing.run []).runFrom s = result at outcome
  cases outcome with
  | done holds => exact ⟨_, _, rfl, holds⟩
  | impossible _ no => exact no.elim

/-- Pieces without question marks are cut off a text whose identifiers are plain. -/
theorem Formula.Shows.tokens {pieces : List Piece} (shows : Cuts Apart text.toList pieces)
    (unmarked : Unmarked pieces) : ∃ ts position, ts.map Token.piece = pieces ∧
      Formula.tokens text = .ok (ts ++ [⟨.endOfInput, "", position⟩]) ∧
      Spelled unschematic (ts ++ [⟨.endOfInput, "", position⟩]) := by
  obtain ⟨ts, position, same, cut⟩ := tokens_of_cuts shows
  refine ⟨ts, position, same, cut, fun token inside => ⟨(tokens_spelled cut token inside).1, ?_⟩⟩
  intro is
  rcases List.mem_append.mp inside with here | last
  · exact unmarked token.piece (same ▸ List.mem_map_of_mem here) is
  · rw [List.mem_singleton.mp last] at is
    cases is

/-- A good term whose text is read as the term is an instance of what is read from the text. -/
theorem Vocabulary.parse_again (regular : v.Regular) (written : AsTerm v text t) (good : t.Good)
    (s : Supply) :
    ∃ t' s', (v.parse text).runFrom s = (.ok t', s') ∧ ∃ σ, t = t'.under σ := by
  obtain ⟨pieces, shows, reads⟩ := written
  obtain ⟨ts, position, same, cut, spelled⟩ := Formula.Shows.tokens shows.cuts shows.unmarked
  obtain ⟨e, read, elaborates⟩ := wholeTerm_reads (p := position) shows.opens reads same
  have yields := Expr.infer_yields regular e (wholeTerm_from spelled read) s
  obtain ⟨t', s', run, infers⟩ := (yields.mono (fun _ _ holds => holds) fun no =>
    no t ⟨elaborates, good⟩).run
  obtain ⟨σ, -, instances⟩ := infers.principal.general [t] ⟨t, rfl, elaborates, good⟩ .var
  refine ⟨t', s', ?_, σ, by simpa using instances⟩
  rw [Vocabulary.parse_eq cut read]
  exact run

/-- There is one term for each formula. -/
theorem Expr.AllElaborate.length_eq : ∀ {es : List Expr} {ts : List Term},
    Expr.AllElaborate es ts → ts.length = es.length
  | [], _, all => by
    rw [Expr.AllElaborate] at all
    rw [all, List.length_nil, List.length_nil]
  | _ :: rest, _, all => by
    rw [Expr.AllElaborate] at all
    obtain ⟨_, others, rfl, -, all⟩ := all
    rw [List.length_cons, List.length_cons, AllElaborate.length_eq all]

/-- A sequent of instances in which names have one type is an instance of the sequent that is
made. -/
theorem Sequent.make_principal {l r xs ys : List Term} {σ : Int → Ty}
    (proper : ∀ t ∈ l ++ r, t.Proper) (named : ∀ t ∈ l ++ r, t.Named)
    (left : xs = l.map (Term.under σ))
    (right : ys = r.map (Term.under σ)) (uniform : Uniform (freeIn (xs ++ ys))) :
    ∃ goal, Sequent.make l r = .ok goal ∧
      ∃ σ, xs = goal.left.map (Term.under σ) ∧ ys = goal.right.map (Term.under σ) := by
  rw [Sequent.make]
  split
  next => exact ⟨_, rfl, σ, left, right⟩
  next =>
    have solution := jointTypes_solution fun t inside => (proper t inside).plain
    have joint : Joint (freeIn (l ++ r)) σ := by
      rw [Joint, ← freeIn_under (fun t inside => (proper t inside).wellTyped)
        fun t inside => (named t inside).discerningUnder, List.map_append, ← left, ← right]
      exact uniform
    cases joined : jointTypes (l ++ r) with
    | error failure =>
      rw [joined] at solution
      cases solution with
      | impossible _ none => exact absurd joint (none σ)
    | ok unifier =>
      rw [joined] at solution
      cases solution with
      | @found _ θ apply most =>
        have factors : ∀ {ts : List Term}, ts.map (Term.under σ) =
            (ts.map (Term.applyTypes unifier)).map (Term.under σ) := by
          intro ts
          rw [List.map_map]
          refine List.map_congr_left fun t _ => ?_
          rw [Function.comp, Term.applyTypes_eq apply, most.factor_term joint]
        exact ⟨_, rfl, σ, left.trans factors, right.trans factors⟩

/-- The sequent that inference makes of formulas is most general among the sequents that spell them
and in which names have one type. -/
theorem Sequent.infer_yields (regular : v.Regular) {es es' : List Expr} {xs ys : List Term}
    (made : Expr.AllFrom v unschematic es) (made' : Expr.AllFrom v unschematic es')
    (typed : Expr.AllTyped es xs) (typed' : Expr.AllTyped es' ys)
    (uniform : Uniform (freeIn (xs ++ ys))) (s : Supply) :
    Typing.Yields (do
      let left ← Expr.inferAll es
      let right ← Expr.inferAll es'
      Sequent.make left right) s (fun goal _ =>
        ∃ σ, xs = goal.left.map (Term.under σ) ∧ ys = goal.right.map (Term.under σ)) False := by
  refine Typing.Yields.bind ((Expr.inferAll_yields regular es made s).mono
    (fun _ _ holds => holds) fun no => no xs typed) fun l s₁ first => ?_
  refine Typing.Yields.bind ((Expr.inferAll_yields regular es' made' s₁).mono
    (fun _ _ holds => holds) fun no => no ys typed') fun r s₂ second => ?_
  obtain ⟨σ, -, instances⟩ := (first.principal.append second.principal).general (xs ++ ys)
    ⟨xs, ys, rfl, typed, typed'⟩ .var
  rw [List.map_append] at instances
  have sizes : xs.length = (l.map (Term.under σ)).length := by
    rw [typed.elaborate.length_eq, List.length_map, first.elaborate.length_eq]
  obtain ⟨left, right⟩ := List.append_inj instances sizes
  have proper : ∀ t ∈ l ++ r, t.Proper := fun t inside =>
    (List.mem_append.mp inside).elim (first.proper t) (second.proper t)
  have named : ∀ t ∈ l ++ r, t.Named := fun t inside =>
    (List.mem_append.mp inside).elim (first.elaborate.named made t)
      (second.elaborate.named made' t)
  obtain ⟨goal, made, holds⟩ := Sequent.make_principal proper named left right uniform
  have run : (liftM (Sequent.make l r) : Build Sequent).runFrom s₂ = (.ok goal, s₂) := by
    rw [made]
    rfl
  exact Typing.yields_lift run holds

/-- Good formulas in which names have one type, and whose texts are read as the formulas, are
instances of what is read from the text of the sequent. -/
theorem Vocabulary.parseSequent_again (regular : v.Regular) {left right : List String}
    {xs ys : List Term} (lefts : List.Forall₂ (AsTerm v) left xs)
    (rights : List.Forall₂ (AsTerm v) right ys) (good : ∀ t ∈ xs ++ ys, t.Good)
    (uniform : Uniform (freeIn (xs ++ ys))) (s : Supply) :
    ∃ goal s', (v.parseSequent (", ".intercalate left ++ " |- " ++ ", ".intercalate right)).runFrom
      s = (.ok goal, s') ∧
        ∃ σ, xs = goal.left.map (Term.under σ) ∧ ys = goal.right.map (Term.under σ) := by
  obtain ⟨partsL, showL, readL⟩ := asTerm_parts lefts
  obtain ⟨partsR, showR, readR⟩ := asTerm_parts rights
  have cuts : Cuts Apart (", ".intercalate left ++ " |- " ++ ", ".intercalate right).toList
      (commas partsL ++ (.turnstile, "|-") :: commas partsR) := by
    have last := cuts_turnstile.join
      (cuts_blank.join (cuts_commas (showR.imp fun _ _ shows => shows.cuts)))
    have first := (cuts_commas (showL.imp fun _ _ shows => shows.cuts)).before
      (cuts_blank.join last) (by decide)
    simpa using first
  have unmarked : Unmarked (commas partsL ++ (.turnstile, "|-") :: commas partsR) := by
    simp [unmarked_commas (Shows.parts_unmarked showL),
      unmarked_commas (Shows.parts_unmarked showR)]
  obtain ⟨ts, position, same, cut, spelled⟩ := Formula.Shows.tokens cuts unmarked
  obtain ⟨es, es', read, elaborate, elaborate'⟩ :=
    wholeSequent_reads (p := position) readL readR same
  obtain ⟨made, made'⟩ := wholeSequent_from spelled read
  have typed : Expr.AllTyped es xs :=
    ⟨elaborate, fun t inside => good t (List.mem_append_left _ inside)⟩
  have typed' : Expr.AllTyped es' ys :=
    ⟨elaborate', fun t inside => good t (List.mem_append_right _ inside)⟩
  obtain ⟨goal, s', run, holds⟩ :=
    (Sequent.infer_yields regular made made' typed typed' uniform s).run
  refine ⟨goal, s', ?_, holds⟩
  rw [Vocabulary.parseSequent, cut]
  change (Vocabulary.settle (Formula.wholeSequent v _) _).runFrom s = _
  rw [read]
  exact run

/-! ## The built-in theories -/

/-- The vocabulary of the built-in theories. -/
def builtinVocabulary : Build Vocabulary := do
  let d := Theories.logic ++ Theories.sets
  let types ← Vocabulary.ofWords d.typeWords
  let constants ← d.constants.mapM (Declarations.readConstant types)
  Vocabulary.ofWords (← d.words constants)

/-- The built-in vocabulary is regular and made of words. -/
theorem builtinVocabulary_gives : builtinVocabulary.Gives fun v =>
    v.Regular ∧ ∃ words, Vocabulary.ofWords words = .ok v := by
  refine (gives_lift fun types made =>
    Vocabulary.ofWords_regular Declarations.typeWords_regular made).bind fun types regular => ?_
  refine (gives_mapM fun signature _ =>
    Declarations.readConstant_gives regular.toPlain signature).bind fun constants plain => ?_
  refine (gives_lift fun words made => Declarations.words_regular plain made).bind
    fun words regular => ?_
  exact gives_lift fun v made => ⟨Vocabulary.ofWords_regular regular made, words, made⟩

/-- Names, precedences and set builders of the built-in theories are as they have to be, and the
theories have a printer that writes a set as a set. -/
theorem builtinVocabulary_checked :
    (match builtinVocabulary.runFrom Supply.initial with
    | (.ok v, s) => decide ((∀ w ∈ v.words, Identifier w.name) ∧
        (∀ op ∈ v.operators, 1 ≤ op.precedence ∧ op.precedence < loosest) ∧
        (∀ builder ∈ v.setBuilders, ∀ other ∈ v.setBuilders,
          builder.member = other.member → builder = other) ∧ v.Drawn s ∧
        ((do
          let p ← Printer.ofVocabulary v
          let t ← v.parse "\x7bx in X | for_all y:obj . y = x\x7d"
          return p.term t : Build String).runFrom s).1.toOption =
            some "\x7bx in X | (for_all y . (y = x))\x7d")
    | _ => false) = true := by
  decide +kernel

/-! ## Reading back -/

namespace Printer

variable {w : Supply}

/-- A term that was read before or after the printer was made can be written by it. -/
theorem writes_of_parse (writable : v.Writable) (drawn : v.Drawn u)
    (apart : s'.lastType ≤ u.lastType ∨ u'.lastType ≤ s.lastType)
    (run : (v.parse text).runFrom u = (.ok t, u')) : Writes v s s' t where
  read := Vocabulary.parse_read writable.toPlain text u u' t run
  apart := ⟨u, u', drawn, apart, writable.labelled.parse_own run⟩

/-- The terms of a sequent that was read are written by printers that drew nothing at the same time.
-/
theorem writes_of_parseSequent (writable : v.Writable) (drawn : v.Drawn u)
    (apart : s'.lastType ≤ u.lastType ∨ u'.lastType ≤ s.lastType) {goal : Sequent}
    (run : (v.parseSequent text).runFrom u = (.ok goal, u')) :
    ∀ t ∈ goal.left ++ goal.right, Writes v s s' t := fun t inside =>
  ⟨(Vocabulary.parseSequent_read writable.toPlain text u u' goal run).terms t inside,
    u, u', drawn, apart, writable.labelled.parseSequent_own run t inside⟩

/-- Lists of terms that differ in their types only are written alike. -/
theorem listText_under (made : p.Made v s s') (writable : v.Writable) {σ : Int → Ty}
    {ts : List Term} (writes : ∀ t ∈ ts, Writes v s s' t)
    (writes' : ∀ t ∈ ts.map (Term.under σ), Writes v s s' t) :
    Sequent.listText p.term (ts.map (Term.under σ)) = Sequent.listText p.term ts := by
  rw [Sequent.listText, Sequent.listText, List.map_map]
  refine congrArg (String.intercalate ", ") (List.map_congr_left fun t inside => ?_)
  exact term_under made writable t (writes t inside) (writes' _ (List.mem_map_of_mem inside))

/-- A printer writes terms as they are read. -/
theorem terms_written (made : p.Made v s s') (readable : v.Readable) {ts : List Term}
    (writes : ∀ t ∈ ts, Writes v s s' t) : List.Forall₂ (AsTerm v) (ts.map p.term) ts := by
  rw [List.forall₂_map_left_iff, List.forall₂_same]
  exact fun t inside => term_written made readable t (writes t inside)

/-- What was read from a text can be read from the text that the printer writes for it, and is
then read most generally: what was read first is an instance of it, with the same variables,
constants, applications and abstractions, and both are written alike. -/
theorem reads_back {words : List Word} (declared : Vocabulary.ofWords words = .ok v)
    (regular : v.Regular) (identifiers : ∀ w ∈ v.words, Identifier w.name)
    (precedences : ∀ op ∈ v.operators, 1 ≤ op.precedence ∧ op.precedence < loosest)
    (members : ∀ builder ∈ v.setBuilders, ∀ other ∈ v.setBuilders,
      builder.member = other.member → builder = other)
    (drawn : v.Drawn s) (printer : (ofVocabulary v).runFrom s = (.ok p, s'))
    (drawn' : v.Drawn u) (apart : s'.lastType ≤ u.lastType ∨ u'.lastType ≤ s.lastType)
    (after : s'.lastType ≤ w.lastType) (text : String) :
    (∀ t, (v.parse text).runFrom u = (.ok t, u') →
      ∃ t' w', (v.parse (p.term t)).runFrom w = (.ok t', w') ∧
        (∃ σ, t = t'.under σ) ∧ p.term t' = p.term t) ∧
    (∀ goal, (v.parseSequent text).runFrom u = (.ok goal, u') →
      ∃ goal' w', (v.parseSequent (p.sequent goal)).runFrom w = (.ok goal', w') ∧
        (∃ σ, goal.left = goal'.left.map (Term.under σ) ∧
          goal.right = goal'.right.map (Term.under σ)) ∧
        p.sequent goal' = p.sequent goal) := by
  have readable := Vocabulary.readable_of_words declared regular identifiers precedences members
  have writable := readable.toWritable
  obtain ⟨before, made⟩ := made_of_run writable drawn printer
  have drawnW : v.Drawn w := drawn.later (Nat.le_trans before.types after)
  constructor
  · intro t run
    have writes := writes_of_parse writable drawn' apart run
    obtain ⟨t', w', again, σ, rfl⟩ := Vocabulary.parse_again regular
      (term_written made readable t writes) writes.read.proper.toGood w
    have writes' : Writes v s s' t' := writes_of_parse writable drawnW (.inl after) again
    exact ⟨t', w', again, ⟨σ, rfl⟩, (term_under made writable t' writes' writes).symm⟩
  · rintro ⟨xs, ys⟩ run
    have writes := writes_of_parseSequent writable drawn' apart run
    have read := Vocabulary.parseSequent_read writable.toPlain text u u' _ run
    obtain ⟨goal', w', again, σ, left, right⟩ := Vocabulary.parseSequent_again regular
      (terms_written made readable fun t inside => writes t (List.mem_append_left _ inside))
      (terms_written made readable fun t inside => writes t (List.mem_append_right _ inside))
      (fun t inside => (writes t inside).read.proper.toGood) read.uniform w
    have writes' : ∀ t ∈ goal'.left ++ goal'.right, Writes v s s' t :=
      writes_of_parseSequent writable drawnW (.inl after) again
    dsimp only at left right writes
    subst left right
    refine ⟨goal', w', again, ⟨σ, rfl, rfl⟩, ?_⟩
    rw [Printer.sequent, Printer.sequent, Sequent.display, Sequent.display,
      listText_under made writable (fun t inside => writes' t (List.mem_append_left _ inside))
        (fun t inside => writes t (List.mem_append_left _ inside)),
      listText_under made writable (fun t inside => writes' t (List.mem_append_right _ inside))
        (fun t inside => writes t (List.mem_append_right _ inside))]

/-- What is read with the words of the built-in theories can be read back, a set for instance. -/
theorem reads_back_builtin : ∃ v s p s',
    builtinVocabulary.runFrom Supply.initial = (.ok v, s) ∧
      (ofVocabulary v).runFrom s = (.ok p, s') ∧
      (∃ t u', (v.parse "\x7bx in X | for_all y:obj . y = x\x7d").runFrom s' = (.ok t, u') ∧
        p.term t = "\x7bx in X | (for_all y . (y = x))\x7d") ∧
      ∀ text u',
        (∀ t, (v.parse text).runFrom s' = (.ok t, u') →
          ∃ t' w', (v.parse (p.term t)).runFrom s' = (.ok t', w') ∧
            (∃ σ, t = t'.under σ) ∧ p.term t' = p.term t) ∧
        (∀ goal, (v.parseSequent text).runFrom s' = (.ok goal, u') →
          ∃ goal' w', (v.parseSequent (p.sequent goal)).runFrom s' = (.ok goal', w') ∧
            (∃ σ, goal.left = goal'.left.map (Term.under σ) ∧
              goal.right = goal'.right.map (Term.under σ)) ∧
            p.sequent goal' = p.sequent goal) := by
  have checked := builtinVocabulary_checked
  rcases run : builtinVocabulary.runFrom Supply.initial with ⟨failure | v, s⟩ <;>
    rw [run] at checked
  · cases checked
  · obtain ⟨identifiers, precedences, members, drawn, written⟩ := of_decide_eq_true checked
    obtain ⟨regular, words, declared⟩ := builtinVocabulary_gives _ _ _ run
    have readable := Vocabulary.readable_of_words declared regular identifiers precedences members
    rcases printer : (ofVocabulary v).runFrom s with ⟨failure | p, s'⟩ <;>
      rw [runFrom_bind, printer] at written
    · cases written
    · have before := (made_of_run readable.toWritable drawn printer).1
      refine ⟨v, s, p, s', rfl, printer, ?_, fun text u' => reads_back declared regular identifiers
        precedences members drawn printer (drawn.later before.types) (.inl le_rfl) le_rfl text⟩
      dsimp only at written
      rw [runFrom_bind] at written
      rcases parsed : (v.parse "\x7bx in X | for_all y:obj . y = x\x7d").runFrom s' with
        ⟨failure | t, u'⟩ <;> rw [parsed] at written
      · cases written
      · exact ⟨t, u', rfl, Option.some.inj written⟩

/-- Write what a text is read as and read it back: both terms and both texts. -/
def rereading (words : List Word) (text : String) : Build ((Term × Term) × String × String) := do
  let v ← Vocabulary.ofWords words
  let p ← ofVocabulary v
  let t ← v.parse text
  let t' ← v.parse (p.term t)
  return ((t, t'), p.term t, p.term t')

/-- An operator of a type that can be written and that has a type variable. -/
def sharedWords : List Word :=
  openWords ++ [.operator ⟨⟨"f", .arrow .obj (.var 5)⟩, 1, .right, 100⟩]

/-- A type that is written like the type of functions of two objects. -/
def twinType : Ty := .arrow (.const "obj,fun('obj") (.const "obj)")

/-- An operator whose operand has that type. -/
def twinWords : List Word :=
  [.type "obj" .obj, .operator ⟨⟨"f", .arrow twinType .obj⟩, 1, .right, 100⟩]

/-- What `q(f x, x)` is read as when `x` has one type in its first place and another in its
second. -/
def twinTerm (second result : Ty) : Term :=
  .app (.app (.var ⟨"q", .arrow .obj (.arrow second result)⟩)
    (.app (.const ⟨"f", .arrow twinType .obj⟩) (.var ⟨"x", twinType⟩))) (.var ⟨"x", second⟩)

/-- An operator of a type whose variables will be handed out later. -/
def earlyWords : List Word := [.type "obj" .obj, .type "bool" .bool,
  .operator ⟨⟨"p", .arrow (.var 1000000002) (.arrow (.var 1000000001) .bool)⟩, 2, .left, 100⟩]

/-- With written types that are written alike, or with an operator's type that is written like
another, a term need not be an instance of what is read back; with a written type that is a
variable, or with type variables that are still to be handed out, what is read back may be written
differently. -/
theorem reads_back_otherwise :
    (∃ t t', ((rereading crossedWords "\\x:s. x:t").runFrom Supply.initial).1.toOption =
        some ((t, t'), "(\\x.x)", "(\\x.x)") ∧ ∀ σ, t ≠ t'.under σ) ∧
    (∃ t t', ((rereading twinWords "q(f x, x:(obj->obj->obj))").runFrom
        Supply.initial).1.toOption = some ((t, t'), "q((f x), x)", "q((f x), x)") ∧
      ∀ σ, t ≠ t'.under σ) ∧
    ((rereading sharedWords "g:((t->t)->obj)(f x)").runFrom Supply.initial).1.toOption.map
        Prod.snd = some ("g((f)(x))", "g((f x))") ∧
    ((rereading earlyWords "x:obj p y:bool").runFrom Supply.initial).1.toOption.map
        Prod.snd = some ("(p)(x, y)", "(x p y)") := by
  refine ⟨⟨.lam ⟨"x", .arrow (.const "a,'b") (.const "c")⟩
      (.var ⟨"x", .arrow (.const "a") (.const "b,'c")⟩),
    .lam ⟨"x", .var 1000000002⟩ (.var ⟨"x", .var 1000000002⟩), by decide +kernel, ?_⟩,
    ⟨twinTerm (.arrow .obj (.arrow .obj .obj)) (.var 1000000005),
      twinTerm twinType (.var 1000000010), by decide +kernel, ?_⟩,
    by decide +kernel, by decide +kernel⟩
  -- The variable would have the type of its binder.
  · intro σ same
    obtain ⟨binder, body⟩ := Term.lam.inj same
    have bound := congrArg Symbol.type binder
    have occurrence := congrArg Symbol.type (Term.var.inj body)
    exact absurd (bound.trans occurrence.symm) (by decide)
  -- The second occurrence would have the type of the first.
  · intro σ same
    have second : Ty.arrow .obj (.arrow .obj .obj) = twinType :=
      congrArg Symbol.type (Term.var.inj (Term.app.inj same).2)
    exact absurd second (by decide)

end Printer

end Turnstile
