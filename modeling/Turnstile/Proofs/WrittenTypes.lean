import Turnstile.Proofs.Annotations
import Turnstile.Proofs.EnvironmentSafety
import Turnstile.Proofs.RoundTrip

/-!
# Types that are written back

A type is written without redundant brackets: arrows associate to the right, and only a domain that
is a function type stands in brackets. A type variable is written as a schematic name with its
number in it. The reader knows nothing of numbers: it reads an atomic type or a bracket, goes on
behind every arrow that follows, and takes a new type variable for every schematic name that it has
not met in the text.

What is written for a type is therefore read as the type with its variables renamed one to one, and
two types that are written alike are equal.
-/

namespace Turnstile

open Formula Build

/-! ## What is written -/

namespace Ty

/-- The schematic name as which a type variable is written. -/
def schematicName (id : Int) : String := "v" ++ toString id

/-- A type with its variables under their schematic names, as a reader takes it in. -/
def spelled : Ty → TypeExpr
  | const name => .known (const name)
  | var id => .schematic (schematicName id)
  | arrow domain codomain => .arrow domain.spelled codomain.spelled

/-- The words of a type are identifiers that a vocabulary declares as themselves, and the numbers of
its variables have no sign. -/
def WrittenIn (v : Vocabulary) : Ty → Prop
  | const name => Identifier name ∧ v.type? name = some (const name)
  | var id => 0 ≤ id
  | arrow domain codomain => domain.WrittenIn v ∧ codomain.WrittenIn v

instance decidableWrittenIn (v : Vocabulary) : (t : Ty) → Decidable (t.WrittenIn v)
  | const name => inferInstanceAs (Decidable (Identifier name ∧ v.type? name = some (const name)))
  | var id => inferInstanceAs (Decidable (0 ≤ id))
  | arrow domain codomain =>
    haveI := decidableWrittenIn v domain
    haveI := decidableWrittenIn v codomain
    inferInstanceAs (Decidable (domain.WrittenIn v ∧ codomain.WrittenIn v))

/-- Pieces in brackets, or as they are. -/
def enclosed (brackets : Bool) (pieces : List Piece) : List Piece :=
  if brackets then (.leftParen, "(") :: (pieces ++ [(.rightParen, ")")]) else pieces

/-- The pieces of what is written for a type. -/
def pieces : Ty → List Piece
  | const name => [(.identifier, name)]
  | var id => [(.question, "?"), (.identifier, schematicName id)]
  | arrow domain codomain =>
    enclosed domain.isArrow domain.pieces ++ (.arrow, "->") :: codomain.pieces

variable {v : Vocabulary} {t : Ty} {id : Int}

/-- Different variables have different schematic names. -/
theorem schematicName_injective : Function.Injective schematicName := by
  intro id id' same
  have letters := congrArg String.toList same
  simp only [schematicName, String.toList_append] at letters
  exact int_toString_inj (String.toList_inj.mp (List.append_cancel_left letters))

/-- Different types are spelled differently. -/
theorem spelled_injective : Function.Injective spelled := by
  intro a
  induction a with
  | const name =>
    intro b same
    cases b with
    | const name' => exact TypeExpr.known.inj same
    | var id' => cases same
    | arrow d' c' => cases same
  | var id =>
    intro b same
    cases b with
    | const name' => cases same
    | var id' => rw [schematicName_injective (TypeExpr.schematic.inj same)]
    | arrow d' c' => cases same
  | arrow d c dIh cIh =>
    intro b same
    cases b with
    | const name' => cases same
    | var id' => cases same
    | arrow d' c' =>
      obtain ⟨domains, codomains⟩ := TypeExpr.arrow.inj same
      rw [dIh domains, cIh codomains]

/-- A schematic name is an identifier if its number has no sign. -/
theorem schematicName_identifier (unsigned : 0 ≤ id) : Identifier (schematicName id) := by
  obtain ⟨n, rfl⟩ := Int.eq_ofNat_of_zero_le unsigned
  have digits : ∀ c ∈ n.repr.toList, isNamePart c = true := by
    intro c inside
    have plain := List.all_eq_true.mp (Term.isPlain_toString n) c inside
    have digit := isDigit_of_mem_repr inside
    have other : ¬ c = '=' := by
      rintro rfl
      exact absurd digit (by decide)
    simpa [other] using plain
  have letters : (schematicName n).toList = 'v' :: n.repr.toList := by
    rw [schematicName, String.toList_append]
    rfl
  exact .inr ⟨'v', n.repr.toList, letters, by decide, digits⟩

end Ty

/-! ## Cutting -/

namespace Ty

variable {v : Vocabulary} {t d c : Ty}

/-- A domain is cut into its pieces, with brackets around a function type. -/
theorem cuts_domain (cuts : Cuts Apart d.render.toList d.pieces) :
    Cuts Apart (if d.isArrow then "(" ++ d.render ++ ")" else d.render).toList
      (enclosed d.isArrow d.pieces) := by
  rw [enclosed]
  by_cases arrow : d.isArrow = true
  · rw [if_pos arrow, if_pos arrow, String.toList_append, String.toList_append, List.append_assoc]
    have closed := cuts.append cuts_rightParen fun rest _ => apart_cons (by decide) rest
    exact (cuts_leftParen.join closed).strict
  · rw [if_neg arrow, if_neg arrow]
    exact cuts

/-- What is written for a type is cut into its pieces. -/
theorem cuts_render (written : t.WrittenIn v) : Cuts Apart t.render.toList t.pieces := by
  -- A type always ends in a word, so what stands behind it must not continue one.
  induction t with
  | const name => exact cuts_identifier written.1
  | var id =>
    have text : (var id).render = "?" ++ schematicName id := by
      rw [schematicName, ← String.append_assoc]
      rfl
    rw [text, String.toList_append]
    exact cuts_question.join (cuts_identifier (schematicName_identifier written))
  | arrow d c dIh cIh =>
    have domain := cuts_domain (dIh written.1)
    have codomain := cuts_arrow.join (cIh written.2)
    rw [render, pieces, String.toList_append, String.toList_append, List.append_assoc]
    exact domain.append codomain fun rest _ => apart_cons (by decide) _

end Ty

/-! ## Reading -/

namespace Formula

variable {v : Vocabulary} {pieces more : List Piece} {e e' : TypeExpr}

/-- Wherever the pieces stand, they are read as an atomic type. -/
def ReadsAtomic (v : Vocabulary) (pieces : List Piece) (e : TypeExpr) : Prop :=
  ∀ ts rest n, ts.map Token.piece = pieces → 2 * ts.length ≤ n + 1 →
    atomicType v n (ts ++ rest) = .ok (e, rest)

/-- Wherever the pieces stand and no arrow follows, they are read as a type. -/
def ReadsType (v : Vocabulary) (pieces : List Piece) (e : TypeExpr) : Prop :=
  ∀ ts rest n, ts.map Token.piece = pieces → 2 * ts.length ≤ n → (peek rest).kind ≠ .arrow →
    type v n (ts ++ rest) = .ok (e, rest)

/-- The name of a declared type reads as this type. -/
theorem readsAtomic_known {name : String} {a : Ty} (declared : v.type? name = some a) :
    ReadsAtomic v [(.identifier, name)] (.known a) := by
  intro ts rest n same rounds
  obtain ⟨word, ts, rfl, is, rfl, last⟩ := map_piece_eq_cons.mp same
  obtain rfl := List.map_eq_nil_iff.mp last
  obtain ⟨n, rfl⟩ : ∃ k, n = k + 1 := ⟨n - 1, by simp at rounds; omega⟩
  have present : word.kind ≠ .endOfInput := by rw [is]; decide
  simp [atomicType, is, declared, advance_cons present]

/-- A question mark and a name read as a schematic type. -/
theorem readsAtomic_schematic (name : String) :
    ReadsAtomic v [(.question, "?"), (.identifier, name)] (.schematic name) := by
  intro ts rest n same rounds
  obtain ⟨mark, ts, rfl, isMark, -, same₁⟩ := map_piece_eq_cons.mp same
  obtain ⟨word, ts, rfl, isWord, rfl, last⟩ := map_piece_eq_cons.mp same₁
  obtain rfl := List.map_eq_nil_iff.mp last
  obtain ⟨n, rfl⟩ : ∃ k, n = k + 1 := ⟨n - 1, by simp at rounds; omega⟩
  have present : mark.kind ≠ .endOfInput := by rw [isMark]; decide
  have present' : word.kind ≠ .endOfInput := by rw [isWord]; decide
  simp [atomicType, isMark, isWord, advance_cons present, advance_cons present']

/-- An atomic type is a type where no arrow follows. -/
theorem ReadsAtomic.type (reads : ReadsAtomic v pieces e) (some : pieces ≠ []) :
    ReadsType v pieces e := by
  intro ts rest n same rounds ended
  have length : 0 < ts.length := by
    refine List.length_pos_iff.mpr ?_
    rintro rfl
    exact some same.symm
  obtain ⟨n, rfl⟩ : ∃ k, n = k + 1 := ⟨n - 1, by omega⟩
  have atomic := reads ts rest n same rounds
  rw [Formula.type, atomic, ok_bind]
  exact if_neg ended

/-- A type in brackets is an atomic type. -/
theorem ReadsType.bracketed (reads : ReadsType v pieces e) :
    ReadsAtomic v ((.leftParen, "(") :: (pieces ++ [(.rightParen, ")")])) e := by
  intro ts rest n same rounds
  obtain ⟨bracket, ts, rfl, isOpen, -, same₁⟩ := map_piece_eq_cons.mp same
  obtain ⟨inside, ts, rfl, sameInside, same₂⟩ := List.map_eq_append_iff.mp same₁
  obtain ⟨close, ts, rfl, isClose, -, last⟩ := map_piece_eq_cons.mp same₂
  obtain rfl := List.map_eq_nil_iff.mp last
  simp only [List.length_cons, List.length_append, List.length_nil] at rounds
  obtain ⟨n, rfl⟩ : ∃ k, n = k + 1 := ⟨n - 1, by omega⟩
  have present : bracket.kind ≠ .endOfInput := by rw [isOpen]; decide
  have ended : (peek (close :: rest)).kind ≠ .arrow := by rw [peek_cons, isClose]; decide
  have inner := reads inside (close :: rest) n sameInside (by omega) ended
  have closed : expect .rightParen (close :: rest) = .ok rest := by
    rw [expect, peek_cons, if_pos isClose, advance_cons (by rw [isClose]; decide)]
  simp [atomicType, isOpen, advance_cons present, inner, closed]

/-- An arrow between an atomic type and a type: the reader goes on behind it. -/
theorem ReadsAtomic.arrow (domain : ReadsAtomic v pieces e) (codomain : ReadsType v more e') :
    ReadsType v (pieces ++ (.arrow, "->") :: more) (.arrow e e') := by
  intro ts rest n same rounds ended
  obtain ⟨first, ts, rfl, sameFirst, same₁⟩ := List.map_eq_append_iff.mp same
  obtain ⟨mark, second, rfl, isMark, -, sameSecond⟩ := map_piece_eq_cons.mp same₁
  simp only [List.length_cons, List.length_append] at rounds
  obtain ⟨n, rfl⟩ : ∃ k, n = k + 1 := ⟨n - 1, by omega⟩
  have present : mark.kind ≠ .endOfInput := by rw [isMark]; decide
  have before := domain first (mark :: (second ++ rest)) n sameFirst (by omega)
  have behind := codomain second rest n sameSecond (by omega) ended
  simp [Formula.type, before, isMark, advance_cons present, behind]

end Formula

namespace Ty

variable {v : Vocabulary} {t : Ty}

/-- A written type has some pieces. -/
theorem pieces_ne_nil (t : Ty) : t.pieces ≠ [] := by
  cases t <;> simp [pieces]

/-- The pieces of a type are read as the type, spelled. -/
theorem reads_spelled (written : t.WrittenIn v) : ReadsType v t.pieces t.spelled := by
  induction t with
  | const name => exact (readsAtomic_known written.2).type (pieces_ne_nil (const name))
  | var id => exact (readsAtomic_schematic _).type (pieces_ne_nil (var id))
  | arrow d c dIh cIh =>
    -- Only in a domain is an atomic type asked for, so a function type there needs its brackets.
    have domain : ReadsAtomic v (enclosed d.isArrow d.pieces) d.spelled := by
      cases d with
      | const name => exact readsAtomic_known written.1.2
      | var id => exact readsAtomic_schematic _
      | arrow d' c' => exact (dIh written.1).bracketed
    exact domain.arrow (cIh written.2)

/-- What is written for a type is read as the type, spelled. -/
theorem wholeType_render (written : t.WrittenIn v) :
    ∃ ts, Formula.tokens t.render = .ok ts ∧ wholeType v ts = .ok t.spelled := by
  obtain ⟨ts, position, same, cut⟩ := tokens_of_cuts (cuts_render written)
  refine ⟨_, cut, ?_⟩
  have enough : 2 * ts.length ≤ roundsFor (ts ++ [⟨.endOfInput, "", position⟩]) := by
    simp [roundsFor]
    omega
  have ended : (peek [⟨.endOfInput, "", position⟩]).kind ≠ .arrow :=
    show TokenKind.endOfInput ≠ .arrow by decide
  have read := reads_spelled written ts [⟨.endOfInput, "", position⟩] _ same enough ended
  have passed : expect .endOfInput [⟨.endOfInput, "", position⟩] =
      .ok [⟨.endOfInput, "", position⟩] := rfl
  simp [wholeType, read, passed]

/-- Types that are written alike are equal. -/
theorem render_injOn (v : Vocabulary) : Set.InjOn render {t | t.WrittenIn v} := by
  intro a writtenA b writtenB same
  obtain ⟨ts, cut, read⟩ := wholeType_render writtenA
  obtain ⟨ts', cut', read'⟩ := wholeType_render writtenB
  rw [same, cut'] at cut
  obtain rfl := Except.ok.inj cut
  exact spelled_injective (Except.ok.inj (read.symm.trans read'))

end Ty

/-! ## Typing -/

/-- The schematic names in a type as it is read, from left to right. -/
def TypeExpr.names : TypeExpr → List String
  | known _ => []
  | schematic name => [name]
  | arrow domain codomain => domain.names ++ codomain.names

/-- The schematic names met in a text stand for different type variables, all of them drawn after
`start`. -/
structure Schematics.Distinct (start : Nat) (known : Schematics) (s : Supply) : Prop where
  /-- The supply has not gone back. -/
  grown : start ≤ s.lastType
  /-- Each stands for a variable that was drawn in between. -/
  drawn : ∀ name a, known.lookup name = some a →
    ∃ k : Nat, a = .var k ∧ start < k ∧ k ≤ s.lastType
  /-- No two stand for one variable. -/
  apart : ∀ name name' a, known.lookup name = some a → known.lookup name' = some a → name = name'

variable {known : Schematics} {start : Nat} {s : Supply}

/-- No schematic names are distinct. -/
theorem Schematics.distinct_nil (s : Supply) : Distinct s.lastType [] s where
  grown := Nat.le_refl _
  drawn _ _ found := nomatch found
  apart _ _ _ found := nomatch found

/-- The schematic name that was drawn last is found first. -/
theorem Schematics.lookup_drawn (known : Schematics) (name other : String) (a : Ty) :
    List.lookup other ((name, a) :: known) =
      if other = name then some a else known.lookup other := by
  rw [List.lookup_cons]
  by_cases same : other = name
  · rw [if_pos same, beq_iff_eq.mpr same]
  · rw [if_neg same, beq_eq_false_iff_ne.mpr same]

/-- A variable that was just drawn is one that no name stands for. -/
theorem Schematics.Distinct.draw (distinct : known.Distinct start s) (name : String) :
    Distinct start ((name, .var (s.lastType + 1 : Nat)) :: known)
      { s with lastType := s.lastType + 1 } := by
  have grown := distinct.grown
  have old : ∀ other, known.lookup other ≠ some (.var (s.lastType + 1 : Nat)) := by
    intro other found
    obtain ⟨k, is, -, below⟩ := distinct.drawn other _ found
    have number := Ty.var.inj is
    omega
  refine ⟨by simp; omega, fun other a found => ?_, fun other other' a found found' => ?_⟩
  · rw [lookup_drawn] at found
    by_cases same : other = name
    · rw [if_pos same] at found
      exact ⟨s.lastType + 1, (Option.some.inj found).symm, by omega, Nat.le_refl _⟩
    · rw [if_neg same] at found
      obtain ⟨k, is, above, below⟩ := distinct.drawn other a found
      exact ⟨k, is, above, Nat.le_succ_of_le below⟩
  · rw [lookup_drawn] at found found'
    by_cases same : other = name <;> by_cases same' : other' = name
    · rw [same, same']
    · rw [if_pos same] at found
      rw [if_neg same', ← found] at found'
      exact absurd found' (old other')
    · rw [if_pos same'] at found'
      rw [if_neg same, ← found'] at found
      exact absurd found (old other)
    · rw [if_neg same] at found
      rw [if_neg same'] at found'
      exact distinct.apart other other' a found found'

namespace TypeExpr

variable {types types' : String → Ty}

/-- Only the schematic names in a type matter. -/
theorem given_congr : ∀ {e : TypeExpr}, (∀ name ∈ e.names, types name = types' name) →
    e.given types = e.given types'
  | known _, _ => rfl
  | schematic name, same => same name (by simp [names])
  | arrow domain codomain, same => by
    have domains := given_congr fun name inside =>
      same name (List.mem_append_left codomain.names inside)
    have codomains := given_congr fun name inside =>
      same name (List.mem_append_right domain.names inside)
    rw [given, domains, codomains, given]

/-- A type that was read has a meaning: every schematic name in it stands for a type variable, and
different ones for different variables. -/
theorem resolve_distinct : ∀ {e : TypeExpr} {known : Schematics} {s : Supply},
    known.Distinct start s → ∃ a later s', (e.resolve.run known).runFrom s = (.ok (a, later), s') ∧
      later.Distinct start s' ∧ ∀ name ∈ e.names, ∃ b, later.lookup name = some b
  | known t, earlier, s, distinct => ⟨t, earlier, s, rfl, distinct, by simp [names]⟩
  | schematic name, earlier, s, distinct => by
    rw [resolve, Typing.run_schematic]
    cases met : earlier.lookup name with
    | some t => exact ⟨t, earlier, s, rfl, distinct, by simp [names, met]⟩
    | none => exact ⟨_, _, _, rfl, distinct.draw name, by simp [names]⟩
  | arrow domain codomain, earlier, s, distinct => by
    obtain ⟨a, between, s₁, first, distinct₁, inDomain⟩ := resolve_distinct (e := domain) distinct
    obtain ⟨b, later, s₂, second, distinct₂, inCodomain⟩ :=
      resolve_distinct (e := codomain) distinct₁
    have kept := (resolve_given second).1
    refine ⟨.arrow a b, later, s₂, ?_, distinct₂, fun name inside => ?_⟩
    · rw [resolve, StateT.run_bind, runFrom_bind_ok first, StateT.run_bind, runFrom_bind_ok second]
      rfl
    · rcases List.mem_append.mp inside with left | right
      · obtain ⟨c, found⟩ := inDomain name left
        exact ⟨c, kept name c found⟩
      · exact inCodomain name right

/-- The number of the variable that a schematic name stands for. -/
def number (known : Schematics) (name : String) : Int :=
  match known.lookup name with
  | some (.var id) => id
  | _ => 0

/-- A type that was read on its own is what is written for new type variables, one for each
schematic name. -/
theorem resolve_within (e : TypeExpr) (s : Supply) : ∃ (f : String → Int) (s' : Supply),
    e.resolve.within.runFrom s = (.ok (e.given fun name => .var (f name)), s') ∧
      Set.InjOn f {name | name ∈ e.names} ∧ ∀ name ∈ e.names, (s.lastType : Int) < f name := by
  obtain ⟨a, later, s', run, distinct, all⟩ :=
    resolve_distinct (e := e) (Schematics.distinct_nil s)
  have stands : ∀ name ∈ e.names, later.lookup name = some (.var (number later name)) ∧
      (s.lastType : Int) < number later name := by
    intro name inside
    obtain ⟨b, found⟩ := all name inside
    obtain ⟨k, rfl, above, -⟩ := distinct.drawn name b found
    have is : number later name = k := by rw [number, found]
    rw [is]
    exact ⟨found, by omega⟩
  have meant : a = e.given fun name => (later.lookup name).getD default :=
    (resolve_given run).2 _ fun name b found => by simp [found]
  have same : a = e.given fun name => .var (number later name) :=
    meant.trans (given_congr fun name inside => by simp [(stands name inside).1])
  refine ⟨number later, s', ?_, fun name inside name' inside' equal => ?_, fun name inside => ?_⟩
  · rw [Typing.runFrom_within, run, same]
  · have found := (stands name inside).1
    have found' := (stands name' inside').1
    rw [equal] at found
    exact distinct.apart name name' _ found found'
  · exact (stands name inside).2

/-- A written type is given what its schematic names are given. -/
theorem given_spelled (types : String → Ty) (t : Ty) :
    t.spelled.given types = t.mapVars fun id => types (Ty.schematicName id) := by
  induction t with
  | const name => rfl
  | var id => rfl
  | arrow d c dIh cIh => rw [Ty.spelled, given, dIh, cIh, Ty.mapVars]

/-- The schematic names of a written type are those of its variables. -/
theorem names_spelled (t : Ty) : t.spelled.names = t.vars.map Ty.schematicName := by
  induction t with
  | const name => rfl
  | var id => rfl
  | arrow d c dIh cIh => rw [Ty.spelled, names, dIh, cIh, Ty.vars, List.map_append]

end TypeExpr

/-! ## Reading back -/

namespace Vocabulary

variable {v : Vocabulary}

/-- A text that the grammar accepts as a type is read as what its schematic names make of it. -/
theorem parseType_eq {text : String} {ts : List Token} {e : TypeExpr}
    (cut : Formula.tokens text = .ok ts) (read : wholeType v ts = .ok e) :
    v.parseType text = e.resolve.within := by
  rw [parseType, cut]
  change (liftM (wholeType v ts) >>= fun t : TypeExpr => t.resolve.within : Build Ty) = _
  rw [read]
  rfl

/-- What is written for a type is read as that type with its variables renamed one to one, to
variables that are new; and types that are written alike are equal. -/
theorem parseType_render (v : Vocabulary) :
    (∀ t : Ty, t.WrittenIn v → ∀ s : Supply, ∃ (f : Int → Int) (s' : Supply),
      (v.parseType t.render).runFrom s = (.ok (t.mapVars fun id => .var (f id)), s') ∧
        Set.InjOn f {id | id ∈ t.vars} ∧ ∀ id ∈ t.vars, (s.lastType : Int) < f id) ∧
      Set.InjOn Ty.render {t | t.WrittenIn v} := by
  refine ⟨fun t written s => ?_, Ty.render_injOn v⟩
  obtain ⟨ts, cut, read⟩ := Ty.wholeType_render written
  obtain ⟨f, s', run, injective, new⟩ := t.spelled.resolve_within s
  have listed : ∀ id ∈ t.vars, Ty.schematicName id ∈ t.spelled.names := by
    intro id inside
    rw [TypeExpr.names_spelled]
    exact List.mem_map_of_mem inside
  refine ⟨fun id => f (Ty.schematicName id), s', ?_, fun id inside id' inside' equal => ?_,
    fun id inside => new _ (listed id inside)⟩
  · rw [parseType_eq cut read, run, TypeExpr.given_spelled]
  · exact Ty.schematicName_injective (injective (listed id inside) (listed id' inside') equal)

/-- A function type nested on both sides, one of its variables on both. -/
def nestedArrows : Ty :=
  .arrow (.arrow (.arrow (.var 3) .obj) (.var 7)) (.arrow (.var 3) .bool)

/-- The variable that occurs twice stays one variable, and the brackets count. -/
theorem parseType_render_nestedArrows :
    nestedArrows.WrittenIn standardTypes ∧
      (∃ (f : Int → Int) (s' : Supply),
        (standardTypes.parseType "((?v3->obj)->?v7)->?v3->bool").runFrom Supply.initial =
            (.ok (.arrow (.arrow (.arrow (.var (f 3)) .obj) (.var (f 7)))
              (.arrow (.var (f 3)) .bool)), s') ∧
          f 3 ≠ f 7) ∧
      nestedArrows.render ≠
        (Ty.arrow (.arrow (.var 3) (.arrow .obj (.var 7))) (.arrow (.var 3) .bool)).render := by
  have written : nestedArrows.WrittenIn standardTypes := by decide
  have text : nestedArrows.render = "((?v3->obj)->?v7)->?v3->bool" := by decide
  obtain ⟨readBack, apart⟩ := parseType_render standardTypes
  obtain ⟨f, s', run, injective, -⟩ := readBack nestedArrows written Supply.initial
  rw [text] at run
  refine ⟨written, ⟨f, s', run, fun equal => ?_⟩, fun same => ?_⟩
  · have one : (3 : Int) = 7 := injective (by decide) (by decide) equal
    exact absurd one (by decide)
  · have one := apart written (by decide) same
    exact absurd one (by decide)

end Vocabulary

end Turnstile
