import Turnstile.Formula.Lexer

/-!
# Names and keys

Variables, atoms and types are told apart by their keys. A key can be read back as long as the
names in it are spelled with the characters of identifiers, which are the only names that texts
give: such a name contains none of the marks that keys put between their parts.
-/

namespace Turnstile

/-- Whether a name is spelled with the characters of identifiers. -/
def isPlain (name : String) : Bool :=
  name.toList.all fun c => Formula.isNamePart c || c == '='

/-- A plain name contains no character that is not of identifiers. -/
theorem not_mem_of_isPlain {name : String} (plain : isPlain name = true) {c : Char}
    (foreign : (Formula.isNamePart c || c == '=') = false) : c ∉ name.toList := by
  intro inside
  have holds := List.all_eq_true.mp plain c inside
  simp [foreign] at holds

/-- Every atomic type of a type has a plain name. -/
def Ty.Plain : Ty → Prop
  | const name => isPlain name = true
  | var _ => True
  | arrow domain codomain => domain.Plain ∧ codomain.Plain

/-- The type of objects is plain. -/
theorem Ty.plain_obj : Ty.obj.Plain := show isPlain "obj" = true by decide

/-- The type of formulas is plain. -/
theorem Ty.plain_bool : Ty.bool.Plain := show isPlain "bool" = true by decide

/-- A symbol with a plain name and a type of plain names. -/
structure Symbol.Plain (s : Symbol) : Prop where
  /-- The name is plain. -/
  name : isPlain s.name = true
  /-- The type's names are plain. -/
  type : s.type.Plain

/-- Instances of plain types by plain types are plain. -/
theorem Ty.Plain.mapVars {f : Int → Ty} {t : Ty} (plain : t.Plain)
    (instances : ∀ id ∈ t.vars, (f id).Plain) : (t.mapVars f).Plain := by
  induction t with
  | const name => exact plain
  | var id => exact instances id (by simp [Ty.vars])
  | arrow d c dIh cIh =>
    exact ⟨dIh plain.1 fun id inside => instances id (by simp [Ty.vars, inside]),
      cIh plain.2 fun id inside => instances id (by simp [Ty.vars, inside])⟩

/-! ## Reading keys back -/

/-- The rest of a text after a part that ends at a mark: nothing, or a text that begins with one
of the marks. -/
def Marked (marks : List Char) (rest : List Char) : Prop := ∀ c ∈ rest.head?, c ∈ marks

/-- Two texts without marks, each followed by a marked rest, are equal if the whole texts are. -/
theorem append_inj_of_marked {marks xs ys rest rest' : List Char}
    (left : ∀ c ∈ xs, c ∉ marks) (right : ∀ c ∈ ys, c ∉ marks)
    (marked : Marked marks rest) (marked' : Marked marks rest')
    (same : xs ++ rest = ys ++ rest') : xs = ys ∧ rest = rest' := by
  induction xs generalizing ys with
  | nil =>
    cases ys with
    | nil => exact ⟨rfl, same⟩
    | cons y ys =>
      rw [List.nil_append] at same
      exact absurd (marked y (by simp [same])) (right y (by simp))
  | cons x xs ih =>
    cases ys with
    | nil =>
      rw [List.nil_append] at same
      exact absurd (marked' x (by simp [← same])) (left x (by simp))
    | cons y ys =>
      obtain ⟨rfl, tails⟩ := List.cons.inj same
      obtain ⟨rfl, rests⟩ := ih (fun c inside => left c (by simp [inside]))
        (fun c inside => right c (by simp [inside])) tails
      exact ⟨rfl, rests⟩

/-- The marks that can follow a type's key, in the key of a type or of a term. -/
def typeMarks : List Char := [',', ')', ' ', '.']

/-- No mark is a character of identifiers. -/
theorem foreign_of_mem_typeMarks :
    ∀ c ∈ typeMarks, (Formula.isNamePart c || c == '=') = false := by
  have all : typeMarks.all fun c => !(Formula.isNamePart c || c == '=') := by decide
  simpa using all

/-- A plain name contains no mark that can follow a type's key. -/
theorem unmarked_of_isPlain {name : String} (plain : isPlain name = true) :
    ∀ c ∈ name.toList, c ∉ typeMarks := fun c inside mark =>
  not_mem_of_isPlain plain (foreign_of_mem_typeMarks c mark) inside

/-- A number is written in digits. -/
theorem isDigit_of_mem_repr {n : Nat} {c : Char} (inside : c ∈ n.repr.toList) : c.isDigit := by
  rw [Nat.toList_repr] at inside
  exact Nat.isDigit_of_mem_toDigits (by decide) (by decide) inside

/-- Natural numbers with one decimal form are equal. -/
theorem nat_repr_inj {m n : Nat} (same : m.repr = n.repr) : m = n := by
  have digits := congrArg (fun text : String => Nat.ofDigitChars 10 text.toList 0) same
  simpa only [Nat.toList_repr, Nat.ofDigitChars_ten_toDigits] using digits

/-- The decimal form of a natural number has no sign. -/
theorem nat_repr_ne_minus (m : Nat) (text : String) : m.repr ≠ "-" ++ text := by
  intro same
  have digit : '-'.isDigit :=
    isDigit_of_mem_repr (n := m) (by rw [same, String.toList_append]; simp)
  simp at digit

/-- Integers with one decimal form are equal. -/
theorem int_toString_inj {a b : Int} (same : toString a = toString b) : a = b := by
  rw [Int.toString_eq_repr, Int.toString_eq_repr, Int.repr_eq_if, Int.repr_eq_if] at same
  split at same <;> split at same
  · have := nat_repr_inj same
    omega
  · exact absurd same (nat_repr_ne_minus _ _)
  · exact absurd same.symm (nat_repr_ne_minus _ _)
  · have texts := congrArg String.toList same
    rw [String.toList_append, String.toList_append] at texts
    have := nat_repr_inj (String.toList_inj.mp (List.append_cancel_left texts))
    omega

/-- A number contains no mark that can follow a type's key. -/
theorem toString_unmarked (id : Int) : ∀ c ∈ (toString id).toList, c ∉ typeMarks := by
  have noDigit : ∀ c ∈ typeMarks, c.isDigit = false := by
    have all : typeMarks.all fun c => !c.isDigit := by decide
    simpa using all
  have digits : ∀ n : Nat, ∀ c ∈ n.repr.toList, c ∉ typeMarks := by
    intro n c inside mark
    have digit := isDigit_of_mem_repr inside
    rw [noDigit c mark] at digit
    cases digit
  intro c inside
  rw [Int.toString_eq_repr, Int.repr_eq_if] at inside
  split at inside
  · exact digits _ c inside
  · rw [String.toList_append] at inside
    rcases List.mem_append.mp inside with sign | number
    · obtain rfl : c = '-' := by simpa using sign
      decide
    · exact digits _ c number

/-- A type's key, and where it ends, can be read off a text that goes on with a mark. -/
theorem Ty.key_append_inj {a b : Ty} (plainA : a.Plain) (plainB : b.Plain)
    {rest rest' : List Char} (marked : Marked typeMarks rest) (marked' : Marked typeMarks rest')
    (same : a.key.toList ++ rest = b.key.toList ++ rest') : a = b ∧ rest = rest' := by
  induction a generalizing b rest rest' with
  | const name =>
    cases b with
    | const name' =>
      simp only [key, String.toList_append, List.append_assoc] at same
      obtain ⟨names, rests⟩ := append_inj_of_marked (unmarked_of_isPlain plainA)
        (unmarked_of_isPlain plainB) marked marked' (List.append_cancel_left same)
      exact ⟨congrArg const (String.toList_inj.mp names), rests⟩
    | var id' => simp [key, varName] at same
    | arrow d' c' => simp [key] at same
  | var id =>
    cases b with
    | const name' => simp [key, varName] at same
    | var id' =>
      simp only [key, varName, String.toList_append, List.append_assoc] at same
      obtain ⟨numbers, rests⟩ := append_inj_of_marked (toString_unmarked id)
        (toString_unmarked id') marked marked' (List.append_cancel_left same)
      exact ⟨congrArg var (int_toString_inj (String.toList_inj.mp numbers)), rests⟩
    | arrow d' c' => simp [key, varName] at same
  | arrow d c dIh cIh =>
    cases b with
    | const name' => simp [key] at same
    | var id' => simp [key, varName] at same
    | arrow d' c' =>
      simp only [key, String.toList_append, List.append_assoc] at same
      have comma : ∀ text : List Char, Marked typeMarks (",".toList ++ text) := by
        intro text; simp [Marked, typeMarks]
      have close : ∀ text : List Char, Marked typeMarks (")".toList ++ text) := by
        intro text; simp [Marked, typeMarks]
      obtain ⟨rfl, tails⟩ := dIh plainA.1 plainB.1 (comma _) (comma _)
        (List.append_cancel_left same)
      obtain ⟨rfl, ends⟩ := cIh plainA.2 plainB.2 (close _) (close _)
        (List.append_cancel_left tails)
      exact ⟨rfl, List.append_cancel_left ends⟩

/-- Plain types with one key are equal. -/
theorem Ty.key_inj {a b : Ty} (plainA : a.Plain) (plainB : b.Plain) (same : a.key = b.key) :
    a = b := by
  have marked : Marked typeMarks [] := by simp [Marked]
  have texts : a.key.toList ++ [] = b.key.toList ++ [] := by rw [same]
  exact (key_append_inj plainA plainB marked marked texts).1

/-- Variables of plain names with one key have one name, and types with one key. -/
theorem Symbol.parts_of_varKey {s s' : Symbol} (plain : isPlain s.name = true)
    (plain' : isPlain s'.name = true) (same : s.varKey = s'.varKey) :
    s.name = s'.name ∧ s.type.key = s'.type.key := by
  have colon : ∀ {name : String}, isPlain name = true → ∀ c ∈ name.toList, c ∉ [':'] := by
    intro name plain c inside mark
    obtain rfl : c = ':' := by simpa using mark
    exact not_mem_of_isPlain plain (by decide) inside
  have texts := congrArg String.toList same
  simp only [varKey, String.toList_append, List.append_assoc] at texts
  have marked : ∀ text : List Char, Marked [':'] (":".toList ++ text) := by
    intro text; simp [Marked]
  obtain ⟨names, tails⟩ := append_inj_of_marked (colon plain) (colon plain') (marked _) (marked _)
    (List.append_cancel_left texts)
  exact ⟨String.toList_inj.mp names, String.toList_inj.mp (List.append_cancel_left tails)⟩

/-- Symbols of plain names and equal keys have the same name. -/
theorem Symbol.name_of_varKey {s s' : Symbol} (plain : isPlain s.name = true)
    (plain' : isPlain s'.name = true) (same : s.varKey = s'.varKey) : s.name = s'.name :=
  (parts_of_varKey plain plain' same).1

/-- The key of a plain type has no colon. -/
theorem Ty.colon_not_mem_key {t : Ty} (plain : t.Plain) : ':' ∉ t.key.toList := by
  induction t with
  | const name =>
    have inside := not_mem_of_isPlain plain (c := ':') (by decide)
    simpa [key] using inside
  | var id =>
    have unsigned : ∀ n : Nat, ':' ∉ n.repr.toList := fun n inside =>
      absurd (isDigit_of_mem_repr inside) (by decide)
    have number : ':' ∉ (toString id).toList := by
      rw [Int.toString_eq_repr, Int.repr_eq_if]
      split
      · exact unsigned _
      · simpa using unsigned _
    simpa [key, varName] using number
  | arrow d c dIh cIh => simpa [key] using ⟨dIh plain.1, cIh plain.2⟩

/-- Variables of plain types with one key are equal, whatever their names are: the last colon of a
key stands between the name and the type. -/
theorem Symbol.varKey_inj {s s' : Symbol} (plain : s.type.Plain) (plain' : s'.type.Plain)
    (same : s.varKey = s'.varKey) : s = s' := by
  have unmarked : ∀ {t : Ty}, t.Plain → ∀ c ∈ t.key.toList.reverse, c ∉ [':'] := by
    intro t plain c inside mark
    obtain rfl : c = ':' := by simpa using mark
    exact Ty.colon_not_mem_key plain (List.mem_reverse.mp inside)
  have marked : ∀ text : List Char, Marked [':'] (':' :: text) := by
    intro text; simp [Marked]
  have texts : s.type.key.toList.reverse ++ ':' :: (s.name.toList.reverse ++ [':', 'v']) =
      s'.type.key.toList.reverse ++ ':' :: (s'.name.toList.reverse ++ [':', 'v']) := by
    simpa [varKey] using congrArg (fun text : String => text.toList.reverse) same
  obtain ⟨keys, names⟩ := append_inj_of_marked (unmarked plain) (unmarked plain') (marked _)
    (marked _) texts
  have type : s.type = s'.type :=
    Ty.key_inj plain plain' (String.toList_inj.mp (List.reverse_inj.mp keys))
  have name : s.name = s'.name := by
    have letters := List.append_cancel_right (List.cons.inj names).2
    exact String.toList_inj.mp (List.reverse_inj.mp letters)
  obtain ⟨name', type'⟩ := s
  obtain rfl : name' = _ := name
  obtain rfl : type' = _ := type
  rfl

end Turnstile
