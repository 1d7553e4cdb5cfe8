import Mathlib
import Turnstile.Proofs.Partition

/-!
# Forests behind partitions

A partition records for every member the place that leads its class. The same classes can be kept as
a forest: every place records a parent, the places that are their own parents lead, finding a value
follows the parents to the root and lets every place on the way point to it, and linking hangs one
root below another. Ranks rise along parents, and linking raises the rank of the root that it keeps
where it has to, so that no link ever closes a cycle.

`Forest.flat` is the partition whose leaders are the roots. Each operation of a forest gives the
answer that the partition gives, and leaves a forest that flattens to the partition that is left.
-/

open Batteries (UFNode UnionFind)
open Batteries.UnionFind (parentD rankD)

namespace Turnstile

/-- The values seen, in the order of their first appearance, in a forest of classes. -/
@[ext]
structure Forest (α : Type) [Keyed α] where
  /-- The values by place. -/
  values : List α
  /-- The places by key. -/
  index : List (String × Nat)
  /-- The parent and the rank of every place. -/
  links : UnionFind
  /-- Every value has a place in the forest. -/
  sized : links.size = values.length
  /-- The index knows exactly the places of the values. -/
  indexed : index = values.mapIdx fun place a => (Keyed.key a, place)
  /-- No key occurs twice. -/
  distinct : (values.map Keyed.key).Nodup

namespace Forest

variable {α : Type} [Keyed α]

/-! ## Operations -/

/-- The forest that has seen nothing. -/
def empty : Forest α := ⟨[], [], .empty, rfl, rfl, List.nodup_nil⟩

/-- How many values have been seen. -/
def size (f : Forest α) : Nat := f.values.length

/-- The place at which following the parents ends. -/
def root (f : Forest α) (place : Nat) : Nat := f.links.rootD place

/-- A place that leads its class. -/
def Leads (f : Forest α) (place : Nat) : Prop :=
  place < f.links.size ∧ f.links.parent place = place

/-- Whether a value has been seen. -/
def knows (f : Forest α) (a : α) : Bool := (f.index.lookup (Keyed.key a)).isSome

/-- The value at a place, or `fallback` where there is none. -/
def valueAt (f : Forest α) (place : Nat) (fallback : α) : α := (f.values[place]?).getD fallback

/-- A key without a place belongs to no value. -/
theorem absent_of_lookup {f : Forest α} {key : String} (missing : f.index.lookup key = none) :
    ∀ a ∈ f.values, Keyed.key a ≠ key := by
  rintro a inside rfl
  obtain ⟨place, found⟩ := List.mem_iff_getElem?.mp inside
  have listed : (Keyed.key a, place) ∈ f.index := by
    rw [f.indexed, List.mem_mapIdx]
    obtain ⟨bound, is⟩ := List.getElem?_eq_some_iff.mp found
    exact ⟨place, bound, by rw [is]⟩
  simpa using List.lookup_eq_none_iff.mp missing _ listed

/-- The forest with a value that has not been seen, which leads its own class. -/
def insert (f : Forest α) (a : α) (new : f.index.lookup (Keyed.key a) = none) : Forest α where
  values := f.values ++ [a]
  index := f.index ++ [(Keyed.key a, f.values.length)]
  links := f.links.push
  sized := by rw [List.length_append, ← f.sized]; exact Array.size_push ..
  indexed := by rw [f.indexed, List.mapIdx_concat]
  distinct := by simpa [List.nodup_append, f.distinct] using absent_of_lookup new

/-- A new value comes last. -/
@[simp] theorem insert_values (f : Forest α) (a : α)
    (new : f.index.lookup (Keyed.key a) = none) : (f.insert a new).values = f.values ++ [a] := rfl

/-- Finding a place in a union-find structure adds no place. -/
theorem findD_size (links : UnionFind) (place : Nat) : (links.findD place).1.size = links.size := by
  rw [UnionFind.findD]
  split
  next inside => exact UnionFind.find_size links ⟨place, inside⟩
  next => rfl

/-- Let every place on the way from a place to its root point to the root. -/
def compress (f : Forest α) (place : Nat) : Forest α :=
  { f with links := (f.links.findD place).1, sized := (findD_size ..).trans f.sized }

/-- The root of a value's class; a value not seen before joins as a class of its own. -/
def find (f : Forest α) (a : α) : Nat × Forest α :=
  match seen : f.index.lookup (Keyed.key a) with
  | some place => (f.root place, f.compress place)
  | none => (f.values.length, f.insert a seen)

/-- The leading value of a value's class; a value not seen before joins as its own leader. -/
def representative (f : Forest α) (a : α) : α × Forest α :=
  ((f.find a).2.valueAt (f.find a).1 a, (f.find a).2)

/-- The nodes after `discard` was hung below `keep`, whose rank is then above that of `discard`. -/
def hung (nodes : Array UFNode) (keep discard : Nat) : Array UFNode :=
  (nodes.modify discard fun node => { node with parent := keep }).modify keep fun node =>
    { node with rank := max node.rank (rankD nodes discard + 1) }

/-- Hanging a tree under another one makes no new places. -/
theorem hung_size (nodes : Array UFNode) (keep discard : Nat) :
    (hung nodes keep discard).size = nodes.size := by simp [hung]

/-- The place that is discarded gets the place that is kept as its parent. -/
theorem parentD_hung (nodes : Array UFNode) (keep discard place : Nat) :
    parentD (hung nodes keep discard) place =
      if place = discard ∧ place < nodes.size then keep else parentD nodes place := by
  by_cases inside : place < nodes.size
  · rw [UnionFind.parentD_eq (by rwa [hung_size]), UnionFind.parentD_eq inside]
    simp only [hung, Array.getElem_modify, inside, and_true, eq_comm (a := place)]
    split <;> split <;> rfl
  · rw [UnionFind.parentD_of_not_lt (by rwa [hung_size]), UnionFind.parentD_of_not_lt inside,
      if_neg fun both => inside both.2]

/-- The place that is kept may rise by one. -/
theorem rankD_hung (nodes : Array UFNode) (keep discard place : Nat) :
    rankD (hung nodes keep discard) place =
      if place = keep ∧ place < nodes.size then max (rankD nodes keep) (rankD nodes discard + 1)
      else rankD nodes place := by
  by_cases inside : place < nodes.size
  · rw [UnionFind.rankD_eq (by rwa [hung_size]), UnionFind.rankD_eq inside]
    simp only [hung, Array.getElem_modify, inside, and_true, eq_comm (a := place)]
    split
    next same =>
      subst same
      rw [UnionFind.rankD_eq inside]
      split <;> rfl
    next => split <;> rfl
  · simp [rankD, hung_size, inside]

/-- Let the class led from `discard` be led from `keep`. -/
def link (f : Forest α) (keep discard : Nat) (leads : f.Leads keep) : Forest α :=
  { f with
    links :=
      { arr := hung f.links.arr keep discard
        parentD_lt := by
          intro place inside
          rw [hung_size] at inside ⊢
          rw [parentD_hung]
          split
          · exact leads.1
          · exact f.links.parentD_lt inside
        rankD_lt := by
          intro place climbs
          rw [parentD_hung] at climbs ⊢
          -- A rank changes at `keep` only, which is its own parent.
          have higher : ∀ other, rankD f.links.arr other ≤
              rankD (hung f.links.arr keep discard) other := by
            intro other
            rw [rankD_hung]
            split
            next both => rw [both.1]; exact Nat.le_max_left ..
            next => exact Nat.le_refl _
          split at climbs
          next hangs =>
            rw [if_pos hangs, rankD_hung, rankD_hung, if_neg fun both => climbs both.1.symm,
              if_pos ⟨rfl, leads.1⟩, hangs.1]
            omega
          next stays =>
            rw [if_neg stays, rankD_hung, if_neg]
            · exact Nat.lt_of_lt_of_le (f.links.rankD_lt climbs) (higher _)
            · rintro ⟨rfl, -⟩
              exact climbs leads.2 }
    sized := (hung_size ..).trans f.sized }

/-! ## Roots -/

/-- Every place has a root that leads its class. -/
theorem leads_root (f : Forest α) {place : Nat} (inside : place < f.links.size) :
    f.Leads (f.root place) :=
  ⟨UnionFind.rootD_lt.mpr inside, UnionFind.parent_rootD f.links place⟩

/-- What leads is its own root. -/
theorem Leads.root {f : Forest α} {place : Nat} (leads : f.Leads place) : f.root place = place :=
  UnionFind.rootD_eq_self.mpr leads.2

/-- Inserting a value leaves all roots. -/
@[simp] theorem root_insert (f : Forest α) (a : α) (new : f.index.lookup (Keyed.key a) = none)
    (place : Nat) : (f.insert a new).root place = f.root place :=
  UnionFind.root_push

/-- Compressing paths does what finding a root does to the links. -/
theorem compress_links {f : Forest α} {place : Nat} (inside : place < f.links.size) :
    (f.compress place).links = (f.links.find ⟨place, inside⟩).1 := by
  unfold compress UnionFind.findD
  split <;> rfl

/-- A place that does not exist has no way to shorten. -/
theorem compress_outside {f : Forest α} {place : Nat} (outside : ¬ place < f.links.size) :
    f.compress place = f := by
  refine Forest.ext rfl rfl ?_
  unfold compress UnionFind.findD
  split
  next inside => exact absurd inside outside
  next => rfl

/-- Compressing paths leaves all roots. -/
@[simp] theorem root_compress (f : Forest α) (start place : Nat) :
    (f.compress start).root place = f.root place := by
  by_cases inside : start < f.links.size
  · rw [root, compress_links inside]
    exact UnionFind.find_root_1 f.links ⟨start, inside⟩ place
  · rw [compress_outside inside]

/-- Linking redirects exactly the class of the discarded leader. -/
theorem root_link {f : Forest α} {keep discard : Nat} (keeps : f.Leads keep)
    (discards : f.Leads discard) (place : Nat) :
    (f.link keep discard keeps).root place =
      if f.root place = discard then keep else f.root place := by
  have parents : ∀ other, (f.link keep discard keeps).links.parent other =
      if other = discard then keep else f.links.parent other := by
    intro other
    rw [UnionFind.parent, link, parentD_hung]
    by_cases is : other = discard
    · rw [if_pos ⟨is, is ▸ discards.1⟩, if_pos is]
    · rw [if_neg fun both => is both.1, if_neg is]
  -- Along the parents of the forest that is left, whose ranks rise.
  induction climb : (f.link keep discard keeps).links.rankMax -
      (f.link keep discard keeps).links.rank place using Nat.strongRecOn generalizing place with
  | ind measure ih =>
    by_cases stays : (f.link keep discard keeps).links.parent place = place
    · rw [root, UnionFind.rootD_eq_self.mpr stays]
      rw [parents] at stays
      split at stays
      next is => rw [is, discards.root, if_pos rfl, stays, is]
      next other =>
        rw [root, UnionFind.rootD_eq_self.mpr stays, if_neg other]
    · have lower := Nat.sub_lt_sub_left
        ((f.link keep discard keeps).links.lt_rankMax place)
        ((f.link keep discard keeps).links.rank_lt stays)
      have above := ih _ (climb ▸ lower) _ rfl
      rw [root, UnionFind.rootD_parent] at above
      rw [root, above, parents]
      split
      next is =>
        rw [is, keeps.root, discards.root, if_pos rfl]
        exact ite_self _
      next => rw [root, root, UnionFind.rootD_parent]

/-- Roots are what leads. -/
theorem leads_iff {f : Forest α} {place : Nat} :
    f.Leads place ↔ place < f.links.size ∧ f.root place = place :=
  and_congr_right fun _ => UnionFind.rootD_eq_self.symm

/-- Letting places point to their roots changes no leader. -/
theorem Leads.compress {f : Forest α} {place : Nat} (leads : f.Leads place) (start : Nat) :
    (f.compress start).Leads place := by
  rw [leads_iff, root_compress]
  exact ⟨leads.1.trans_eq (findD_size f.links start).symm, leads.root⟩

/-- The nodes determine a union-find structure. -/
theorem links_ext {m n : UnionFind} (same : m.arr = n.arr) : m = n := by
  cases m
  cases n
  cases same
  rfl

/-- Where a place already points to its root there is nothing to shorten. -/
theorem compress_of_points {f : Forest α} {place : Nat}
    (points : f.links.parent place = f.root place) : f.compress place = f := by
  by_cases inside : place < f.links.size
  · have settled : (f.links.findAux ⟨place, inside⟩).s = f.links.arr := by
      rw [UnionFind.parent, UnionFind.parentD_eq inside] at points
      rw [UnionFind.findAux_s]
      split
      next => rfl
      next =>
        have rooted := UnionFind.parent_rootD f.links place
        rw [UnionFind.parent, UnionFind.parentD_eq (UnionFind.rootD_lt.mpr inside)] at rooted
        rw [UnionFind.findAux_s, if_pos (by simpa [points, root] using rooted)]
        refine Array.ext (Array.size_modify ..) fun i _ bound => ?_
        rw [Array.getElem_modify]
        split
        next is =>
          subst is
          exact congrArg (UFNode.mk · _) points.symm
        next => rfl
    exact Forest.ext rfl rfl ((compress_links inside).trans (links_ext settled))
  · exact compress_outside inside

/-! ## The index -/

/-- Two places with one key are one place. -/
theorem place_unique {f : Forest α} {i j : Nat} {a b : α} (first : f.values[i]? = some a)
    (second : f.values[j]? = some b) (same : Keyed.key a = Keyed.key b) : i = j := by
  obtain ⟨bound, -⟩ := List.getElem?_eq_some_iff.mp first
  refine (List.getElem?_inj (by simpa using bound) f.distinct).mp ?_
  rw [List.getElem?_map, List.getElem?_map, first, second, Option.map_some, Option.map_some, same]

/-- A place that the index knows holds a value with the key. -/
theorem value_of_lookup {f : Forest α} {key : String} {place : Nat}
    (found : f.index.lookup key = some place) :
    ∃ a, f.values[place]? = some a ∧ Keyed.key a = key := by
  have listed : (key, place) ∈ f.index := by
    obtain ⟨before, after, split, -⟩ := List.lookup_eq_some_iff.mp found
    rw [split]
    exact List.mem_append_right _ List.mem_cons_self
  rw [f.indexed, List.mem_mapIdx] at listed
  obtain ⟨_, bound, same⟩ := listed
  obtain ⟨rfl, rfl⟩ := Prod.ext_iff.mp same
  exact ⟨_, List.getElem?_eq_getElem bound, rfl⟩

/-- The index is a bijection between the keys of the values and their places. -/
theorem lookup_iff {f : Forest α} {key : String} {place : Nat} :
    f.index.lookup key = some place ↔ ∃ a, f.values[place]? = some a ∧ Keyed.key a = key := by
  refine ⟨value_of_lookup, ?_⟩
  rintro ⟨a, held, rfl⟩
  cases found : f.index.lookup (Keyed.key a) with
  | none => exact absurd rfl (absent_of_lookup found a (List.mem_of_getElem? held))
  | some other =>
    obtain ⟨b, otherHeld, same⟩ := value_of_lookup found
    rw [place_unique otherHeld held same]

/-- A place that the index knows is in the forest. -/
theorem inside_of_lookup {f : Forest α} {key : String} {place : Nat}
    (found : f.index.lookup key = some place) : place < f.links.size := by
  obtain ⟨_, held, -⟩ := value_of_lookup found
  rw [f.sized]
  exact (List.getElem?_eq_some_iff.mp held).1

/-! ## Parents and places -/

/-- What every forest is: its parents lead from every place to a root and never back, and its index
names every place once. -/
structure Sound (f : Forest α) : Prop where
  /-- From every place the parents lead to its root, which is its own parent. -/
  rooted : ∀ place < f.links.size, f.Leads (f.root place) ∧
    ∃ steps, f.links.parent^[steps] place = f.root place
  /-- Only a root comes back to itself along the parents. -/
  acyclic : ∀ place steps, f.links.parent^[steps + 1] place = place →
    f.links.parent place = place
  /-- Every place is filed under one key. -/
  filed : ∀ place < f.links.size, ∃! key, f.index.lookup key = some place
  /-- Every key is filed at a place of the forest. -/
  inside : ∀ key place, f.index.lookup key = some place → place < f.links.size

/-- The root of a place is reached by going from parent to parent. -/
theorem exists_steps (links : UnionFind) (place : Nat) :
    ∃ steps, links.parent^[steps] place = links.rootD place := by
  induction climb : links.rankMax - links.rank place using Nat.strongRecOn generalizing place with
  | ind measure ih =>
    by_cases stays : links.parent place = place
    · exact ⟨0, (UnionFind.rootD_eq_self.mpr stays).symm⟩
    · have lower := Nat.sub_lt_sub_left (links.lt_rankMax place) (links.rank_lt stays)
      obtain ⟨steps, above⟩ := ih _ (climb ▸ lower) _ rfl
      exact ⟨steps + 1, above.trans (UnionFind.rootD_parent ..)⟩

/-- Ranks do not fall along the parents. -/
theorem rank_le_iterate (links : UnionFind) (place steps : Nat) :
    links.rank place ≤ links.rank (links.parent^[steps] place) := by
  induction steps generalizing place with
  | zero => exact Nat.le_refl _
  | succ steps ih =>
    by_cases stays : links.parent place = place
    · rw [Function.iterate_succ_apply, stays]
      exact ih place
    · exact (Nat.le_of_lt (links.rank_lt stays)).trans (ih _)

/-- Every forest is sound: its places have roots, and the roots lead their classes. -/
theorem sound (f : Forest α) : f.Sound where
  rooted place inside := ⟨f.leads_root inside, exists_steps f.links place⟩
  acyclic := by
    intro place steps back
    by_contra climbs
    -- The rank has risen with the first step and cannot fall again.
    have higher := rank_le_iterate f.links (f.links.parent place) steps
    rw [← Function.iterate_succ_apply, back] at higher
    exact absurd (f.links.rank_lt climbs) (Nat.not_lt.mpr higher)
  filed := by
    intro place inside
    rw [f.sized] at inside
    refine ⟨Keyed.key f.values[place],
      lookup_iff.mpr ⟨_, List.getElem?_eq_getElem inside, rfl⟩, fun key found => ?_⟩
    obtain ⟨a, held, rfl⟩ := value_of_lookup found
    rw [List.getElem?_eq_getElem inside] at held
    rw [Option.some.inj held]
  inside _ _ := inside_of_lookup

/-! ## Finding -/

/-- A value that was seen is found at its root, and the path to it is compressed. -/
theorem find_seen {f : Forest α} {a : α} {place : Nat}
    (seen : f.index.lookup (Keyed.key a) = some place) :
    f.find a = (f.root place, f.compress place) := by
  unfold find
  split
  next other found =>
    obtain rfl : other = place := Option.some.inj (found.symm.trans seen)
    rfl
  next missing => exact absurd (missing.symm.trans seen) nofun

/-- A new value is inserted and found at its own place. -/
theorem find_new {f : Forest α} {a : α} (new : f.index.lookup (Keyed.key a) = none) :
    f.find a = (f.values.length, f.insert a new) := by
  unfold find
  split
  next found => exact absurd (found.symm.trans new) nofun
  next => rfl

/-- A new value leads its class. -/
theorem leads_insert (f : Forest α) (a : α) (new : f.index.lookup (Keyed.key a) = none) :
    (f.insert a new).Leads f.values.length := by
  have outside : ¬ f.values.length < f.links.size := by rw [f.sized]; exact Nat.lt_irrefl _
  refine leads_iff.mpr ⟨?_, ?_⟩
  · rw [(f.insert a new).sized, insert, List.length_append]
    exact Nat.lt_succ_self _
  · rw [root_insert, root, UnionFind.rootD_eq_self]
    exact UnionFind.parentD_of_not_lt outside

/-- What leads a class goes on leading it when another value is inserted. -/
theorem Leads.insert {f : Forest α} {place : Nat} (leads : f.Leads place) (a : α)
    (new : f.index.lookup (Keyed.key a) = none) : (f.insert a new).Leads place := by
  refine leads_iff.mpr ⟨?_, (root_insert ..).trans leads.root⟩
  exact leads.1.trans ((Nat.lt_succ_self _).trans_eq (Array.size_push ..).symm)

/-- What is found for a value leads. -/
theorem leads_find (f : Forest α) (a : α) : (f.find a).2.Leads (f.find a).1 := by
  cases seen : f.index.lookup (Keyed.key a) with
  | none =>
    rw [find_new seen]
    exact f.leads_insert a seen
  | some place =>
    rw [find_seen seen]
    exact (f.leads_root (inside_of_lookup seen)).compress place

/-- Finding a value changes no leader. -/
theorem Leads.find {f : Forest α} {place : Nat} (leads : f.Leads place) (a : α) :
    (f.find a).2.Leads place := by
  cases seen : f.index.lookup (Keyed.key a) with
  | none =>
    rw [find_new seen]
    exact leads.insert a seen
  | some other =>
    rw [find_seen seen]
    exact leads.compress other

/-! ## Unifying -/

/-- Hang the variable at `discard` below the value at `keep`, unless it occurs there. -/
def bind (d : Discipline α) (f : Forest α) (keep discard : Nat) (leads : f.Leads keep)
    (kept dropped : α) : Option (Conflict α) × Forest α :=
  if d.occursIn dropped kept then (some (.occurs dropped kept), f)
  else (none, f.link keep discard leads)

/-- Put two values into one class, or say why they cannot be. -/
def unify (d : Discipline α) (f : Forest α) (a b : α) : Option (Conflict α) × Forest α :=
  let i := (f.find a).1
  let j := ((f.find a).2.find b).1
  let g := ((f.find a).2.find b).2
  have leadsI : g.Leads i := (f.leads_find a).find b
  have leadsJ : g.Leads j := (f.find a).2.leads_find b
  if i = j then (none, g)
  else
    let va := g.valueAt i a
    let vb := g.valueAt j b
    if d.isVariable va then g.bind d j i leadsJ vb va
    else if d.isVariable vb then g.bind d i j leadsI va vb
    else match d.resolve with
      | none => (some (.mismatch va vb none), g)
      | some resolve =>
        match resolve va vb with
        | some reason => (some (.mismatch va vb (some reason)), g)
        | none => (none, g.link i j leadsI)

/-- Put each of the values into the class of `first`, stopping at the first conflict. -/
def unifyAll (d : Discipline α) (first : α) :
    Forest α → List α → Option (Conflict α) × Forest α
  | f, [] => (none, (f.find first).2)
  | f, value :: rest =>
    match f.unify d first value with
    | (none, f) => unifyAll d first f rest
    | (some conflict, f) => (some conflict, f)

/-- Put all of the values into one class, stopping at the first conflict. -/
def unifyMany (d : Discipline α) (f : Forest α) : List α → Option (Conflict α) × Forest α
  | [] => (none, f)
  | first :: rest => unifyAll d first f rest

/-- The key of every value that does not lead its class, with the value that does. Every place
points to its root afterwards. -/
def substitutions (f : Forest α) : List (String × α) × Forest α :=
  (f.index.filterMap fun (key, place) =>
      if f.root place = place then none
      else (f.values[f.root place]?).map fun leader => (key, leader),
    f.index.foldl (fun f (_, place) => f.compress place) f)

/-! ## The partition behind a forest -/

/-- The partition whose leaders are the roots. -/
def flat (f : Forest α) : Partition α :=
  ⟨f.values.mapIdx fun place a => ⟨Keyed.key a, a, f.root place⟩⟩

/-- A place of a forest as a member of its partition. -/
theorem flat_getElem? (f : Forest α) (place : Nat) :
    f.flat.members[place]? =
      (f.values[place]?).map fun a => ⟨Keyed.key a, a, f.root place⟩ := by
  rw [flat, List.getElem?_mapIdx]

/-- The members of the partition are the values with their keys and roots. -/
theorem mem_flat {f : Forest α} {m : Member α} :
    m ∈ f.flat.members ↔
      ∃ place a, f.values[place]? = some a ∧ m = ⟨Keyed.key a, a, f.root place⟩ := by
  simp only [List.mem_iff_getElem?, flat_getElem?, Option.map_eq_some_iff,
    eq_comm (a := m)]

/-- A forest and its partition have as many members. -/
theorem flat_size (f : Forest α) : f.flat.size = f.values.length := List.length_mapIdx

/-- Values with the same roots make the same partition. -/
theorem flat_congr {f g : Forest α} (values : f.values = g.values)
    (roots : ∀ place, f.root place = g.root place) : f.flat = g.flat := by
  rw [flat, flat, values]
  simp only [roots]

/-- Compressing paths does not change the partition. -/
@[simp] theorem flat_compress (f : Forest α) (place : Nat) : (f.compress place).flat = f.flat :=
  flat_congr rfl (root_compress f place)

/-- A leader of the forest leads in the partition. -/
theorem Leads.flat {f : Forest α} {place : Nat} (leads : f.Leads place) :
    ∃ l, f.flat.Leads place l := by
  have bound : place < f.values.length := f.sized ▸ leads.1
  exact ⟨_, (f.flat_getElem? place).trans (by rw [List.getElem?_eq_getElem bound]; rfl),
    leads.root⟩

/-- The partition of the roots is lawful. -/
theorem flat_lawful (f : Forest α) : f.flat.Lawful where
  keyed := by
    intro m inside
    obtain ⟨_, _, -, rfl⟩ := mem_flat.mp inside
    rfl
  distinct := by
    have keys : f.flat.members.map Member.key = f.values.map Keyed.key := by
      refine List.ext_getElem? fun place => ?_
      rw [List.getElem?_map, List.getElem?_map, flat_getElem?, Option.map_map]
      rfl
    rw [keys]
    exact f.distinct
  led := by
    intro m inside
    obtain ⟨place, a, held, rfl⟩ := mem_flat.mp inside
    have bound : place < f.links.size := f.sized ▸ (List.getElem?_eq_some_iff.mp held).1
    exact (f.leads_root bound).flat

/-- A forest and its partition know the same values. -/
theorem flat_knows (f : Forest α) (a : α) : f.flat.knows a = f.knows a := by
  unfold Partition.knows knows
  cases seen : f.index.lookup (Keyed.key a) with
  | none =>
    cases found : f.flat.member? (Keyed.key a) with
    | none => rfl
    | some m =>
      obtain ⟨inside, same⟩ := Partition.member?_some found
      obtain ⟨place, b, held, rfl⟩ := mem_flat.mp inside
      exact absurd same (absent_of_lookup seen b (List.mem_of_getElem? held))
  | some place =>
    obtain ⟨b, held, same⟩ := value_of_lookup seen
    rw [← same, f.flat_lawful.member?_of_mem (mem_flat.mpr ⟨place, b, held, rfl⟩)]
    rfl

/-- They have the same values at the same places. -/
theorem flat_valueAt (f : Forest α) (place : Nat) (fallback : α) :
    f.flat.valueAt place fallback = f.valueAt place fallback := by
  unfold Partition.valueAt valueAt
  rw [flat_getElem?]
  cases f.values[place]? <;> rfl

/-- Finding a value in the forest finds it in the partition. -/
theorem flat_find (f : Forest α) (a : α) :
    f.flat.find a = ((f.find a).1, (f.find a).2.flat) := by
  cases seen : f.index.lookup (Keyed.key a) with
  | some place =>
    obtain ⟨b, held, same⟩ := value_of_lookup seen
    have found := f.flat_lawful.member?_of_mem (mem_flat.mpr ⟨place, b, held, rfl⟩)
    rw [find_seen seen, flat_compress, Partition.find, ← same, found]
  | none =>
    have missing : f.flat.member? (Keyed.key a) = none := by
      simpa [Partition.knows, knows, seen] using f.flat_knows a
    have grown : (f.insert a seen).flat =
        ⟨f.flat.members ++ [⟨Keyed.key a, a, f.values.length⟩]⟩ := by
      have own := (f.leads_insert a seen).root
      simp only [flat, List.mapIdx_concat, insert_values, root_insert] at own ⊢
      rw [own]
    rw [find_new seen, Partition.find, missing, grown, flat_size]

/-- Linking two leaders is linking them in the partition. -/
theorem flat_link {f : Forest α} {keep discard : Nat} (keeps : f.Leads keep)
    (discards : f.Leads discard) :
    (f.link keep discard keeps).flat = f.flat.link keep discard := by
  refine congrArg Partition.mk (List.ext_getElem? fun place => ?_)
  rw [List.getElem?_map, flat_getElem?, List.getElem?_mapIdx, Option.map_map]
  refine congrArg (Option.map · _) (funext fun a => ?_)
  rw [root_link keeps discards, Function.comp]
  split <;> rfl

/-- Unifying in the forest unifies in the partition. -/
theorem flat_unify (d : Discipline α) (f : Forest α) (a b : α) :
    f.flat.unify d a b = ((f.unify d a b).1, (f.unify d a b).2.flat) := by
  have leadsI := (f.leads_find a).find b
  have leadsJ := (f.find a).2.leads_find b
  unfold Partition.unify unify
  simp only [flat_find, flat_valueAt, Partition.bind, bind]
  split
  next => rfl
  next =>
    split
    next => split <;> simp [flat_link leadsJ leadsI]
    next =>
      split
      next => split <;> simp [flat_link leadsI leadsJ]
      next =>
        cases d.resolve with
        | none => rfl
        | some resolve =>
          dsimp only
          generalize resolve _ _ = verdict
          cases verdict with
          | some reason => rfl
          | none => simp only [flat_link leadsI leadsJ]

/-- They have the same representatives. -/
theorem flat_representative (f : Forest α) (a : α) :
    f.flat.representative a = ((f.representative a).1, (f.representative a).2.flat) := by
  simp only [Partition.representative, representative, flat_find, flat_valueAt]

/-- Unifying some values with a first one is doing so in the partition. -/
theorem flat_unifyAll (d : Discipline α) (first : α) : ∀ (f : Forest α) (values : List α),
    f.flat.unifyAll d first values =
      ((f.unifyAll d first values).1, (f.unifyAll d first values).2.flat)
  | f, [] => by simp only [Partition.unifyAll, unifyAll, flat_find]
  | f, value :: rest => by
    rw [Partition.unifyAll, unifyAll, flat_unify]
    rcases f.unify d first value with ⟨_ | conflict, g⟩
    · exact flat_unifyAll d first g rest
    · rfl

/-- Unifying many values is doing so in the partition. -/
theorem flat_unifyMany (d : Discipline α) (f : Forest α) (values : List α) :
    f.flat.unifyMany d values =
      ((f.unifyMany d values).1, (f.unifyMany d values).2.flat) := by
  cases values with
  | nil => rfl
  | cons first rest => exact flat_unifyAll d first f rest

/-- Letting several places point to their roots changes no class. -/
theorem flat_foldl_compress (index : List (String × Nat)) (f : Forest α) :
    (index.foldl (fun f (_, place) => f.compress place) f).flat = f.flat := by
  induction index generalizing f with
  | nil => rfl
  | cons entry rest ih => exact (ih _).trans (f.flat_compress entry.2)

/-- They have the same substitutions. -/
theorem flat_substitutions (f : Forest α) :
    f.flat.substitutions = f.substitutions.1 ∧ f.substitutions.2.flat = f.flat := by
  refine ⟨?_, flat_foldl_compress ..⟩
  have numbered : f.flat.members.zipIdx =
      f.values.zipIdx.map fun (a, place) => (⟨Keyed.key a, a, f.root place⟩, place) := by
    refine List.ext_getElem? fun place => ?_
    rw [List.getElem?_zipIdx, flat_getElem?, List.getElem?_map, List.getElem?_zipIdx]
    cases f.values[place]? <;> simp
  rw [Partition.substitutions, substitutions, f.indexed, numbered, List.mapIdx_eq_zipIdx_map,
    List.filterMap_map, List.filterMap_map]
  refine List.filterMap_congr fun (a, place) listed => ?_
  have bound : place < f.links.size := by
    rw [f.sized]
    exact (List.getElem?_eq_some_iff.mp (List.mem_zipIdx_iff_getElem?.mp listed)).1
  have inside : f.root place < f.values.length := f.sized ▸ (f.leads_root bound).1
  simp only [Function.comp, flat_valueAt, valueAt, List.getElem?_eq_getElem inside,
    Option.getD_some, Option.map_some]

/-! ## Looking again

A resolver may have merged classes, so the leaders are looked up once more before they are linked.
A resolver that does not use the forest has changed nothing, and the second look finds what the
first one found and shortens nothing. -/

/-- A value whose place points to the root of its class. -/
def Settled (f : Forest α) (a : α) (leader : Nat) : Prop :=
  ∃ place, f.index.lookup (Keyed.key a) = some place ∧ f.links.parent place = leader ∧
    f.root place = leader

/-- What has been found is settled. -/
theorem settled_find (f : Forest α) (a : α) : (f.find a).2.Settled a (f.find a).1 := by
  cases seen : f.index.lookup (Keyed.key a) with
  | some place =>
    rw [find_seen seen]
    refine ⟨place, seen, ?_, root_compress f place place⟩
    have inside := inside_of_lookup seen
    rw [compress_links inside]
    exact UnionFind.find_parent_1 f.links ⟨place, inside⟩
  | none =>
    rw [find_new seen]
    have leads := f.leads_insert a seen
    exact ⟨f.values.length, lookup_iff.mpr ⟨a, List.getElem?_concat_length, rfl⟩, leads.2,
      leads.root⟩

/-- What is settled stays settled. -/
theorem Settled.find {f : Forest α} {a : α} {leader : Nat} (settled : f.Settled a leader) (b : α) :
    (f.find b).2.Settled a leader := by
  obtain ⟨place, known, points, leads⟩ := settled
  cases seen : f.index.lookup (Keyed.key b) with
  | some other =>
    rw [find_seen seen]
    refine ⟨place, known, ?_, (root_compress ..).trans leads⟩
    have inside := inside_of_lookup seen
    rw [compress_links inside]
    rcases UnionFind.find_parent_or f.links ⟨other, inside⟩ place with ⟨shortened, -⟩ | kept
    · exact shortened.trans leads
    · exact kept.trans points
  | none =>
    rw [find_new seen]
    obtain ⟨v, held, same⟩ := value_of_lookup known
    obtain ⟨bound, -⟩ := List.getElem?_eq_some_iff.mp held
    refine ⟨place, lookup_iff.mpr ⟨v, ?_, same⟩, UnionFind.parent_push.trans points,
      (root_insert f b seen place).trans leads⟩
    rw [insert_values, List.getElem?_append_left bound, held]

/-- What is settled is found without a change. -/
theorem Settled.again {f : Forest α} {a : α} {leader : Nat} (settled : f.Settled a leader) :
    f.find a = (leader, f) := by
  obtain ⟨place, known, points, leads⟩ := settled
  rw [find_seen known, compress_of_points (points.trans leads.symm), leads]

/-- Looking up two values again finds the same leaders and leaves the forest as it is. -/
theorem look_again (f : Forest α) (a b : α) :
    ((f.find a).2.find b).2.find a = ((f.find a).1, ((f.find a).2.find b).2) ∧
      ((f.find a).2.find b).2.find b =
        (((f.find a).2.find b).1, ((f.find a).2.find b).2) :=
  ⟨((f.settled_find a).find b).again, ((f.find a).2.settled_find b).again⟩

/-- One round of unifying as it is done for the sake of resolving that puts values into classes
itself: what leads the classes is looked up a second time before they are joined, and where it is a
variable now there is another round. -/
def round (d : Discipline α) (f : Forest α) (a b : α) : Option (Option (Conflict α) × Forest α) :=
  let i := (f.find a).1
  let j := ((f.find a).2.find b).1
  let g := ((f.find a).2.find b).2
  have leadsI : g.Leads i := (f.leads_find a).find b
  have leadsJ : g.Leads j := (f.find a).2.leads_find b
  if i = j then some (none, g)
  else
    let va := g.valueAt i a
    let vb := g.valueAt j b
    if d.isVariable va then some (g.bind d j i leadsJ vb va)
    else if d.isVariable vb then some (g.bind d i j leadsI va vb)
    else match d.resolve with
      | none => some (some (.mismatch va vb none), g)
      | some resolve =>
        match resolve va vb with
        | some reason => some (some (.mismatch va vb (some reason)), g)
        | none =>
          let i' := (g.find a).1
          let j' := ((g.find a).2.find b).1
          let h := ((g.find a).2.find b).2
          have leads : h.Leads i' := (g.leads_find a).find b
          if i' = j' then some (none, h)
          else if d.isVariable (h.valueAt i' a) || d.isVariable (h.valueAt j' b) then none
          else some (none, h.link i' j' leads)

/-- Resolving that only compares values moves nothing, so that the second look finds the same
leaders and there is one round. -/
theorem round_eq (d : Discipline α) (f : Forest α) (a b : α) :
    f.round d a b = some (f.unify d a b) := by
  obtain ⟨againA, againB⟩ := f.look_again a b
  unfold round unify
  dsimp only
  split
  next => rfl
  next apart =>
    split
    next => rfl
    next plainA =>
      split
      next => rfl
      next plainB =>
        rcases d.resolve with _ | resolve
        · rfl
        · dsimp only
          split
          next => rfl
          next => simp [againA, againB, apart, plainA, plainB]

end Forest

end Turnstile
