import Mathlib.Data.List.InsertIdx
import Mathlib.Data.List.Permutation
import Turnstile.Proofs.Builds
import Turnstile.Rule.Logical

/-!
# Orders of unfolding

The atoms of a name are a set, and unfolding visits them in an order that is chosen anew each time.
Every order can be chosen and none has more or fewer atoms than there are. Where a name has one atom
there is nothing to choose, so that nothing is drawn.
-/

namespace Turnstile.Rule

open Build

/-! ## Numbers of orders -/

section

variable {α β : Type}

/-- A number stands for an order of the very items that are given. -/
theorem ordered_perm : ∀ (number : Nat) (items : List α), (ordered number items).Perm items
  | _, [] => .nil
  | number, a :: rest => by
    have others := ordered_perm (number / (rest.length + 1)) rest
    have inside : number % (rest.length + 1) ≤
        (ordered (number / (rest.length + 1)) rest).length := by
      rw [others.length_eq]
      exact Nat.le_of_lt_succ (Nat.mod_lt _ (Nat.succ_pos _))
    exact (List.perm_insertIdx a _ inside).trans (others.cons a)

/-- What is put in at the end of a first part stands between it and the rest. -/
theorem insertIdx_append (before after : List α) (a : α) :
    (before ++ after).insertIdx before.length a = before ++ a :: after := by
  induction before with
  | nil => rfl
  | cons b before ih => simpa using ih

/-- Every order of the items has a number. -/
theorem exists_ordered : ∀ {items order : List α}, order.Perm items →
    ∃ number, ordered number items = order
  | [], _, perm => ⟨0, by rw [perm.eq_nil, ordered]⟩
  | a :: rest, order, perm => by
    obtain ⟨before, after, rfl⟩ := List.append_of_mem (perm.mem_iff.mpr List.mem_cons_self)
    have others : (before ++ after).Perm rest :=
      (List.perm_middle.symm.trans perm).cons_inv
    obtain ⟨number, found⟩ := exists_ordered others
    have short : before.length < rest.length + 1 := by
      have lengths := others.length_eq
      rw [List.length_append] at lengths
      omega
    -- The place of the first item is the lowest digit of the number, the others follow.
    have place : (number * (rest.length + 1) + before.length) % (rest.length + 1) =
        before.length := by
      rw [Nat.mul_comm, Nat.mul_add_mod, Nat.mod_eq_of_lt short]
    have left : (number * (rest.length + 1) + before.length) / (rest.length + 1) = number := by
      rw [Nat.mul_comm, Nat.mul_add_div (Nat.succ_pos _), Nat.div_eq_of_lt short, Nat.add_zero]
    exact ⟨number * (rest.length + 1) + before.length, by
      rw [ordered, place, left, found, insertIdx_append]⟩

/-- Items that are replaced one by one are ordered as those in their places. -/
theorem ordered_map (f : α → β) : ∀ (number : Nat) (items : List α),
    ordered number (items.map f) = (ordered number items).map f
  | _, [] => rfl
  | number, a :: rest => by
    rw [List.map_cons, ordered, ordered, List.length_map, ordered_map f, List.map_insertIdx]

/-- If something holds of each order from some depth on, then it holds of all orders from one depth
on: there are only finitely many of them. -/
theorem exists_depth {items : List α} {P : List α → Nat → Prop}
    (deeper : ∀ order n m, n ≤ m → P order n → P order m)
    (each : ∀ order : List α, order.Perm items → ∃ n, P order n) :
    ∃ n, ∀ order : List α, order.Perm items → P order n := by
  have all : ∀ orders : List (List α), (∀ order ∈ orders, ∃ n, P order n) →
      ∃ n, ∀ order ∈ orders, P order n := by
    intro orders
    induction orders with
    | nil => exact fun _ => ⟨0, by simp⟩
    | cons first rest ih =>
      intro each
      obtain ⟨n, here⟩ := each first List.mem_cons_self
      obtain ⟨m, there⟩ := ih fun order inside => each order (List.mem_cons_of_mem _ inside)
      refine ⟨max n m, List.forall_mem_cons.mpr ⟨?_, fun order inside => ?_⟩⟩
      · exact deeper first n _ (Nat.le_max_left n m) here
      · exact deeper order m _ (Nat.le_max_right n m) (there order inside)
  obtain ⟨n, holds⟩ := all items.permutations fun order inside =>
    each order (List.mem_permutations.mp inside)
  exact ⟨n, fun order perm => holds order (List.mem_permutations.mpr perm)⟩

end

/-! ## Choosing an order -/

variable {formula : Term} {name : String} {order : List Term}

/-- Where there are no two atoms of a name nothing is chosen. -/
theorem runFrom_arrange_of_le (few : (atomsNamed formula name).length ≤ 1) (s : Supply) :
    (arrange formula name).runFrom s = (.ok (atomsNamed formula name), s) := by
  simp only [arrange, if_pos few, runFrom_pure]

/-- Where there are several atoms of a name the next choice decides. -/
theorem runFrom_arrange_of_lt (several : 1 < (atomsNamed formula name).length) (s : Supply) :
    (arrange formula name).runFrom s =
      (.ok (ordered (s.choices (s.lastChoice + 1) name formula) (atomsNamed formula name)),
        { s with lastChoice := s.lastChoice + 1 }) := by
  simp only [arrange, if_neg (Nat.not_le.mpr several)]
  rfl

/-- An order of the atoms is always found, and nothing is drawn but a choice. -/
theorem exists_arrange (formula : Term) (name : String) (s : Supply) : ∃ order n,
    order.Perm (atomsNamed formula name) ∧
      (arrange formula name).runFrom s = (.ok order, { s with lastChoice := n }) := by
  rcases Nat.lt_or_ge 1 (atomsNamed formula name).length with several | few
  · exact ⟨_, _, ordered_perm _ _, runFrom_arrange_of_lt several s⟩
  · exact ⟨_, s.lastChoice, .refl _, runFrom_arrange_of_le few s⟩

/-- In whatever order the atoms of a name stand, they may be visited in it. -/
theorem arrange_reaches (several : 1 < (atomsNamed formula name).length)
    (perm : order.Perm (atomsNamed formula name)) :
    ∃ choices : Nat → String → Term → Nat, ∀ s : Supply, s.choices = choices →
      (arrange formula name).runFrom s =
        (.ok order, { s with lastChoice := s.lastChoice + 1 }) := by
  obtain ⟨number, rfl⟩ := exists_ordered perm
  refine ⟨fun _ _ _ => number, fun s chosen => ?_⟩
  rw [runFrom_arrange_of_lt several, chosen]

end Turnstile.Rule
