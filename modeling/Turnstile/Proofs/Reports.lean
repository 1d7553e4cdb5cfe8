import Turnstile.Proofs.EnvironmentSafety
import Turnstile.Service.Methods

/-!
# Reports and what they are about

An environment reports its constants, definitions and postulates by name, and it uses them by name:
words stand for constants, definitions are unfolded, postulates are assumed. Where a name is
declared more than once the two part. A word stands for the last constant of its name, but the first
one is reported; the first definition or postulate of a name is used, but the last one is reported.
For a name that is declared once, or always in the same way, the report is of what is used.
-/

namespace Turnstile

open Build

/-! ## The first and the last of a name -/

namespace Declarations

/-- Among the constants with different names each name has its first declaration. -/
theorem find_firstDeclared (constants : List Symbol) (name : String) :
    (firstDeclared constants).find? (fun o => o.name == name) =
      constants.find? fun o => o.name == name := by
  have kept : ∀ (constants before : List Symbol),
      (constants.foldl (fun kept c => if kept.any fun o => o.name == c.name then kept
        else kept ++ [c]) before).find? (fun o => o.name == name) =
      (before ++ constants).find? fun o => o.name == name := by
    intro constants
    induction constants with
    | nil => simp
    | cons c rest ih =>
      intro before
      rw [List.foldl_cons, ih]
      by_cases known : before.any (fun o => o.name == c.name)
      · -- A name that is known already hides this declaration from the search.
        simp only [if_pos known, List.find?_append, List.find?_cons]
        obtain ⟨o, member, same⟩ := List.any_eq_true.mp known
        by_cases asked : c.name = name
        · have found : (before.find? fun o => o.name == name).isSome := by
            rw [List.find?_isSome]
            exact ⟨o, member, asked ▸ same⟩
          obtain ⟨found, is⟩ := Option.isSome_iff_exists.mp found
          rw [is]
          rfl
        · rw [beq_false_of_ne asked]
      · rw [if_neg known, List.append_assoc]
        rfl
  exact kept constants []

/-- The constant chosen for a name is the last one declared under it. -/
theorem constantFor_last {constants : List Symbol} {kind name : String} {c : Symbol}
    (found : constantFor constants kind name = .ok c) :
    constants.reverse.find? (fun o => o.name == c.name) = some c := by
  rw [constantFor] at found
  split at found
  next c' listed =>
    cases found
    have named : c.name = name := by simpa using List.find?_some listed
    rw [named]
    exact listed
  next => cases found

end Declarations

/-- Without the pairs of one key every other key keeps its value. -/
theorem Json.lookup_filter_ne {α : Type} (pairs : List (String × α)) (gone key : String) :
    (pairs.filter fun p => p.1 != gone).lookup key =
      if key = gone then none else pairs.lookup key := by
  induction pairs with
  | nil => simp
  | cons pair rest ih =>
    obtain ⟨k, value⟩ := pair
    by_cases dropped : k = gone
    · subst dropped
      rw [List.filter_cons_of_neg (by simp), ih]
      split
      · rfl
      next other => rw [List.lookup_cons, beq_false_of_ne other]
    · rw [List.filter_cons_of_pos (by simpa using dropped), List.lookup_cons, List.lookup_cons, ih]
      by_cases here : key = k
      · subst here
        simp [dropped]
      · rw [beq_false_of_ne here]

/-- Among pairs of which the last one of each key counts a key has its last value. -/
theorem Json.lookup_latest {α : Type} (pairs : List (String × α)) (key : String) :
    (Json.latest pairs).lookup key = pairs.reverse.lookup key := by
  have kept : ∀ (pairs before : List (String × α)),
      (pairs.foldl (fun kept pair => kept.filter (fun p => p.1 != pair.1) ++ [pair])
        before).lookup key = (pairs.reverse.lookup key).or (before.lookup key) := by
    intro pairs
    induction pairs with
    | nil => simp
    | cons pair rest ih =>
      intro before
      obtain ⟨k, value⟩ := pair
      rw [List.foldl_cons, ih, List.reverse_cons, List.lookup_append, List.lookup_append,
        Option.or_assoc, lookup_filter_ne]
      congr 1
      by_cases asked : key = k
      · simp [asked]
      · simp [asked, List.lookup_cons, beq_false_of_ne asked]
  rw [latest, kept, List.lookup_nil, Option.or_none]

/-! ## Constants -/

/-- The constants that an environment's words and its report are made from. -/
structure Environment.MadeFrom (env : Environment) (constants : List Symbol) : Prop where
  /-- The first constant of each name is reported. -/
  reported : ∀ name, env.constants.find? (fun o => o.name == name) =
    constants.find? fun o => o.name == name
  /-- A word stands for the last constant of its name. -/
  used : ∀ w ∈ env.vocabulary.words, ∀ c, w.constant? = some c →
    constants.reverse.find? (fun o => o.name == c.name) = some c

/-- Whatever is declared, the words and the report are made from the declared constants. -/
theorem Declarations.load_madeFrom (d : Declarations) : d.load.Gives fun env =>
    ∃ types constants s s', Vocabulary.ofWords d.typeWords = .ok types ∧
      (d.constants.mapM (readConstant types)).runFrom s = (.ok constants, s') ∧
      env.MadeFrom constants := by
  intro s t env run
  obtain ⟨types, constants, words, s₁, _, _, _, madeTypes, read, madeWords, made, -, -, -, -,
    listed⟩ := load_stages run
  refine ⟨types, constants, s, s₁, madeTypes, read, ?_, ?_⟩
  · rw [listed]
    exact find_firstDeclared constants
  intro w member c is
  have declared := Vocabulary.mem_ofWords made member
  rcases words_chosen madeWords w declared with isType | ⟨c', _, _, found, is', -⟩
  · simp only [typeWords, List.mem_cons, List.mem_map] at isType
    rcases isType with rfl | rfl | ⟨_, _, rfl⟩ <;> cases is
  · rw [is] at is'
    cases is'
    exact constantFor_last found

/-- The constant that a word stands for is the one reported under its name, if every declaration of
the name is of this constant. -/
theorem Environment.MadeFrom.reports {env : Environment} {constants : List Symbol}
    (made : env.MadeFrom constants) {w : Word} (member : w ∈ env.vocabulary.words) {c : Symbol}
    (is : w.constant? = some c) (once : ∀ o ∈ constants, o.name = c.name → o = c) :
    env.constants.find? (fun o => o.name == c.name) = some c := by
  have listed := List.mem_reverse.mp (List.mem_of_find?_eq_some (made.used w member c is))
  rw [made.reported]
  cases found : constants.find? fun o => o.name == c.name with
  | none => simpa using List.find?_eq_none.mp found c listed
  | some o =>
    have named : o.name = c.name := by simpa using List.find?_some found
    rw [once o (List.mem_of_find?_eq_some found) named]

/-! ## Definitions and postulates -/

/-- What is reported of an item is reported under its name, if every item of the name is this
one. -/
theorem Json.latest_of_once {α : Type} (name shown : α → String) {items : List α} {a : α}
    (member : a ∈ items) (once : ∀ b ∈ items, name b = name a → b = a) :
    (Json.latest (items.map fun b => (name b, shown b))).lookup (name a) = some (shown a) := by
  rw [lookup_latest]
  cases found : (items.map fun b => (name b, shown b)).reverse.lookup (name a) with
  | none =>
    have absent := List.lookup_eq_none_iff.mp found (name a, shown a)
      (List.mem_reverse.mpr (List.mem_map_of_mem member))
    simp at absent
  | some value =>
    obtain ⟨before, after, is, -⟩ := List.lookup_eq_some_iff.mp found
    have inside : (name a, value) ∈ items.map fun b => (name b, shown b) :=
      List.mem_reverse.mp (by simp [is])
    obtain ⟨b, listed, pair⟩ := List.mem_map.mp inside
    obtain ⟨named, rfl⟩ := Prod.mk.inj pair
    rw [once b listed named]

namespace Text.Octets

/-- The loop over bytes goes on after what it has collected. -/
theorem toList_loop (bytes : ByteArray) (i : Nat) (before : List UInt8) :
    ByteArray.toList.loop bytes i before = before.reverse ++ bytes.data.toList.drop i := by
  fun_induction ByteArray.toList.loop bytes i before with
  | case1 i before inside ih =>
    have listed : i < bytes.data.toList.length := by simpa using inside
    rw [ih, List.drop_eq_getElem_cons (i := i) listed]
    simp [ByteArray.get!, inside]
  | case2 i before outside =>
    rw [List.drop_eq_nil_of_le (by simpa using Nat.le_of_not_lt outside), List.append_nil]

/-- Texts with the same bytes are the same. -/
theorem ofString_injective {a b : String} (same : ofString a = ofString b) : a = b := by
  have bytes : a.toUTF8.toList = b.toUTF8.toList := congrArg Octets.bytes same
  rw [ByteArray.toList, ByteArray.toList, toList_loop, toList_loop] at bytes
  exact String.toByteArray_inj.mp (ByteArray.ext (Array.toList_inj.mp (by simpa using bytes)))

/-- The first item with the bytes of a name is the one that has this name, if every item of the
name is this one. -/
theorem find_of_once {α : Type} (name : α → String) {items : List α} {a : α} (member : a ∈ items)
    (once : ∀ b ∈ items, name b = name a → b = a) :
    items.find? (fun b => ofString (name b) == ofString (name a)) = some a := by
  cases found : items.find? fun b => ofString (name b) == ofString (name a) with
  | none => simpa using List.find?_eq_none.mp found a member
  | some b =>
    have named : ofString (name b) = ofString (name a) := by simpa using List.find?_some found
    rw [once b (List.mem_of_find?_eq_some found) (ofString_injective named)]

end Text.Octets

namespace Environment

variable (env : Environment)

/-- The values of definitions by name, as they are reported. -/
def definitionReport : List (String × String) :=
  Json.latest (env.theory.definitions.map fun d => (d.name, env.showTerm d.value))

/-- The postulated formulas by name, as they are reported. -/
def postulateReport : List (String × String) :=
  Json.latest (env.theory.postulates.map fun p => (p.name, env.showTerm p.formula))

variable {env}

/-- The definition that is unfolded for a name is the one reported under it, if every definition of
the name is the same. -/
theorem definition_reported {d : Definition} (member : d ∈ env.theory.definitions)
    (once : ∀ e ∈ env.theory.definitions, e.name = d.name → e = d) :
    env.theory.definition? (.ofString d.name) = some d ∧
      env.definitionReport.lookup d.name = some (env.showTerm d.value) :=
  ⟨Text.Octets.find_of_once Definition.name member once,
    Json.latest_of_once Definition.name (fun d => env.showTerm d.value) member once⟩

/-- The formula that is assumed under a name is the one reported under it, if every postulate of
the name is the same. -/
theorem postulate_reported {p : Postulate} (member : p ∈ env.theory.postulates)
    (once : ∀ q ∈ env.theory.postulates, q.name = p.name → q = p) :
    env.theory.postulate? (.ofString p.name) = some p.formula ∧
      env.postulateReport.lookup p.name = some (env.showTerm p.formula) := by
  refine ⟨?_, Json.latest_of_once Postulate.name (fun p => env.showTerm p.formula) member once⟩
  rw [Theory.postulate?, Text.Octets.find_of_once Postulate.name member once]
  rfl

/-- These are the reports that an answer gives. -/
theorem theoryJson_reports : Service.theoryJson env = .object [
    ("theories", .strings env.theories),
    ("constants", Service.objectOf (env.constants.map fun c => (c.name, c.type.render))),
    ("definitions", .object (env.definitionReport.map fun (name, value) => (name, .string value))),
    ("axioms", .object (env.postulateReport.map fun (name, value) => (name, .string value)))] :=
  rfl

end Environment

end Turnstile
