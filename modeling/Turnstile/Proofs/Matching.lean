import Turnstile.Proofs.Forest
import Turnstile.Proofs.Layouts
import Turnstile.Proofs.TermRenaming

/-!
# What matching finds

A term is an instance of a pattern when some assignment of terms to the names of the pattern's
variables turns the pattern into the term, types apart, and the types at every place of the
pattern can be unified with those of the part of the term that is there. Matching succeeds for
exactly the instances, and what it returns is the assignment, restricted to the pattern's names:
one subterm for each name, however often and wherever the name occurs.

The bindings are a list from names to subterms. A matcher may as well keep the pattern's names and
the subterms as the values of one union-find arena and put each name into the class of the subterm
that it meets. Several names can then share a class, whose leader is always the subterm; the last
section shows that no clash is added, lost or reported differently, and that the leader of every
name is what the list holds for it.
-/

namespace Turnstile

open Formula

/-! ## Types that can be unified -/

namespace Ty

/-- Some substitution makes two types equal. -/
def Unifiable (a b : Ty) : Prop := ∃ σ : Int → Ty, a.mapVars σ = b.mapVars σ

/-- The unifier finds out whether two types can be made equal. -/
theorem canUnify_iff {a b : Ty} (plainA : a.Plain) (plainB : b.Plain) :
    canUnify a b = true ↔ a.Unifiable b := by
  refine ⟨fun unified => ?_, fun unifiable => ?_⟩
  swap
  · obtain ⟨σ, equal⟩ := unifiable
    exact canUnify_of_equal plainA plainB equal
  have plain : ∀ t ∈ (Unifier.Request.many [a, b]).types, t.Plain := by
    simp [Unifier.Request.types, plainA, plainB]
  have settles := Unifier.consistent_empty.answer plain
  rw [canUnify, Option.isNone_iff_eq_none] at unified
  obtain ⟨σ, -, solves⟩ := settles.consistent.solved
  refine ⟨σ, ?_⟩
  simpa [Unifier.Satisfies, Unifier.Request.equations] using
    ((settles.success unified σ).mp solves).2

end Ty

/-! ## Instances of a pattern -/

namespace Term

/-- An assignment turns a pattern into a term: variables, binders included, become what is
assigned to their names, constants keep their names, and everywhere in the pattern the types can
be unified. -/
inductive Instance (assigned : String → Term) : Term → Term → Prop
  | var {s : Symbol} {t : Term} (is : assigned s.name = t) (types : s.type.Unifiable t.type) :
    Instance assigned (.var s) t
  | const {p c : Symbol} (names : p.name = c.name) (types : p.type.Unifiable c.type) :
    Instance assigned (.const p) (.const c)
  | app {p q f x : Term} (function : Instance assigned p f) (argument : Instance assigned q x) :
    Instance assigned (.app p q) (.app f x)
  | lam {p s : Symbol} {q body : Term} (is : assigned p.name = .var s)
      (types : p.type.Unifiable s.type) (inner : Instance assigned q body) :
    Instance assigned (.lam p q) (.lam s body)

/-- All names in a term are plain, so that its key tells it. -/
structure Told (t : Term) : Prop where
  /-- The names in its types are plain. -/
  plain : t.Plain
  /-- Constants and variables have plain names. -/
  labelled : t.Labelled

variable {t t' f x b pattern : Term} {s v : Symbol}

/-- The function of an application can be told apart if the application can. -/
theorem Told.function (told : (app f x).Told) : f.Told := ⟨told.plain.1, told.labelled.1⟩

/-- Its argument can be told apart, too. -/
theorem Told.argument (told : (app f x).Told) : x.Told := ⟨told.plain.2, told.labelled.2⟩

/-- The bound variable of an abstraction can be told apart if the abstraction can. -/
theorem Told.bound (told : (lam v b).Told) : (var v).Told := ⟨told.plain.1, told.labelled.1⟩

/-- Its body can be told apart, too. -/
theorem Told.body (told : (lam v b).Told) : b.Told := ⟨told.plain.2, told.labelled.2⟩

/-- Terms that their keys tell are equal if the keys are. -/
theorem Told.key_inj (told : t.Told) (told' : t'.Told) : t.key = t'.key ↔ t = t' := by
  refine ⟨fun same => ?_, fun same => congrArg key same⟩
  have marked : Marked typeMarks [] := by simp [Marked]
  have texts : t.key.toList ++ [] = t'.key.toList ++ [] := by rw [same]
  exact (key_append_inj told.plain told.labelled told'.plain told'.labelled marked marked texts).1

end Term

/-! ## Bindings as partial assignments -/

namespace Bindings

variable {bindings found later : Bindings} {names names' : List String} {name : String}
  {assigned : String → Term} {s : Symbol} {t : Term}

/-- An assignment has every value that is bound. -/
def Agrees (assigned : String → Term) (bindings : Bindings) : Prop :=
  ∀ name t, bindings.lookup name = some t → assigned name = t

/-- Everything bound is told by its key. -/
def Told (bindings : Bindings) : Prop := ∀ name t, bindings.lookup name = some t → t.Told

/-- Bindings hold a value for exactly the names that they list. -/
theorem mem_names : name ∈ bindings.map Prod.fst ↔ ∃ t, bindings.lookup name = some t := by
  rw [← Option.isSome_iff_exists, ← not_iff_not, Bool.not_eq_true, Option.isSome_eq_false_iff,
    Option.isNone_iff_eq_none, List.lookup_eq_none_iff]
  constructor
  · rintro missing ⟨other, t⟩ inside
    simp only [bne_iff_ne, ne_eq]
    rintro rfl
    exact missing (List.mem_map_of_mem inside)
  · rintro missing listed
    obtain ⟨⟨other, t⟩, inside, rfl⟩ := List.mem_map.mp listed
    exact absurd rfl (bne_iff_ne.mp (missing _ inside))

/-- Bindings agree with the assignment that they make. -/
theorem agrees_value (fallback : Term) :
    bindings.Agrees fun name => bindings.value name fallback := by
  intro name t bound
  simp [value, bound]

/-- What a part of a match, over the given names, does to the bindings before it. -/
structure Extends (bindings : Bindings) (names : List String) (found : Bindings) : Prop where
  /-- Nothing bound is lost or changed. -/
  kept : ∀ name t, bindings.lookup name = some t → found.lookup name = some t
  /-- Exactly the given names are bound besides. -/
  bound : ∀ name, name ∈ found.map Prod.fst ↔ name ∈ bindings.map Prod.fst ∨ name ∈ names
  /-- No name is listed twice. -/
  distinct : (bindings.map Prod.fst).Nodup → (found.map Prod.fst).Nodup
  /-- What is bound is told by its key. -/
  told : bindings.Told → found.Told

/-- Bindings extend themselves by no names. -/
theorem extends_refl : bindings.Extends [] bindings :=
  ⟨fun _ _ bound => bound, by simp, id, id⟩

/-- Extending twice extends by the names of both. -/
theorem Extends.trans (first : bindings.Extends names found) (second : found.Extends names' later) :
    bindings.Extends (names ++ names') later where
  kept name t bound := second.kept name t (first.kept name t bound)
  bound name := by rw [second.bound, first.bound, List.mem_append, or_assoc]
  distinct := second.distinct ∘ first.distinct
  told := second.told ∘ first.told

/-- What agrees with the later bindings agrees with the earlier ones. -/
theorem Extends.agrees (after : bindings.Extends names found) (agrees : found.Agrees assigned) :
    bindings.Agrees assigned :=
  fun name t bound => agrees name t (after.kept name t bound)

/-- A new binding is found under its name, and the others are found as before. -/
theorem lookup_append_new (unbound : bindings.lookup s.name = none) :
    (bindings ++ [(s.name, t)]).lookup name =
      if name = s.name then some t else bindings.lookup name := by
  rw [List.lookup_append]
  by_cases same : name = s.name
  · simp [same, unbound]
  · simp [same, beq_false_of_ne same, List.lookup_cons]

/-- Binding a new name extends bindings by it. -/
theorem extends_new (told : t.Told) (unbound : bindings.lookup s.name = none) :
    bindings.Extends [s.name] (bindings ++ [(s.name, t)]) where
  kept name u bound := by
    rw [lookup_append_new unbound, if_neg, bound]
    rintro rfl
    rw [unbound] at bound
    cases bound
  bound name := by simp
  distinct distinct := by
    have missing : s.name ∉ bindings.map Prod.fst := by
      rw [mem_names]
      simp [unbound]
    rw [List.map_append, List.nodup_append]
    exact ⟨distinct, by simp, by simpa using
      fun name inside => (ne_of_mem_of_not_mem inside missing)⟩
  told known name u bound := by
    rw [lookup_append_new unbound] at bound
    split at bound
    next => cases bound; exact told
    next => exact known name u bound

/-- A name that is bound already adds nothing. -/
theorem extends_known (bound : bindings.lookup s.name = some t) :
    bindings.Extends [s.name] bindings where
  kept _ _ known := known
  bound name := by
    refine ⟨.inl, fun either => either.elim id fun same => ?_⟩
    rw [List.mem_singleton.mp same]
    exact mem_names.mpr ⟨t, bound⟩
  distinct := id
  told := id

end Bindings

/-! ## Soundness and completeness -/

namespace Term

variable {pattern t p q f x body : Term} {bindings found : Bindings} {s : Symbol}
  {assigned : String → Term}

/-- The ways in which a pattern variable comes to stand for a subterm: it is new, or it stands for
that subterm already. -/
theorem bindPattern_ok_iff (known : bindings.Told) (told : t.Told) :
    bindPattern bindings s t = .ok found ↔ Ty.canUnify s.type t.type = true ∧
      (bindings.lookup s.name = none ∧ found = bindings ++ [(s.name, t)] ∨
        bindings.lookup s.name = some t ∧ found = bindings) := by
  rw [bindPattern]
  split
  next meets =>
    cases held : bindings.lookup s.name with
    | none => simp [meets, eq_comm]
    | some u =>
      have told' := known s.name u held
      by_cases same : u = t
      · simp [meets, same, eq_comm]
      · simp [same, told'.key_inj told]
  next apart => simp [apart]

/-- A pattern variable that was bound is bound from then on to the subterm. -/
theorem bindPattern_lookup (known : bindings.Told) (told : t.Told)
    (done : bindPattern bindings s t = .ok found) : found.lookup s.name = some t := by
  obtain ⟨-, ⟨unbound, rfl⟩ | ⟨bound, rfl⟩⟩ := (bindPattern_ok_iff known told).mp done
  · rw [Bindings.lookup_append_new unbound, if_pos rfl]
  · exact bound

/-- Binding a name extends the bindings by it. -/
theorem bindPattern_extends (known : bindings.Told) (told : t.Told)
    (done : bindPattern bindings s t = .ok found) : bindings.Extends [s.name] found := by
  obtain ⟨-, ⟨unbound, rfl⟩ | ⟨bound, rfl⟩⟩ := (bindPattern_ok_iff known told).mp done
  · exact Bindings.extends_new told unbound
  · exact Bindings.extends_known bound

/-- A pattern variable can be bound to what an assignment in agreement with the bindings assigns
to it. -/
theorem bindPattern_of_agrees (agrees : bindings.Agrees assigned) (is : assigned s.name = t)
    (meets : Ty.canUnify s.type t.type = true) :
    ∃ found, bindPattern bindings s t = .ok found ∧ found.Agrees assigned := by
  rw [bindPattern, if_pos meets]
  cases held : bindings.lookup s.name with
  | none =>
    refine ⟨_, rfl, fun name u bound => ?_⟩
    rw [Bindings.lookup_append_new held] at bound
    split at bound
    next same => cases bound; rw [same, is]
    next => exact agrees name u bound
  | some u =>
    have same : u = t := (agrees s.name u held).symm.trans is
    exact ⟨bindings, by simp [same], agrees⟩

/-- A match extends the bindings by the pattern's names. -/
theorem matchFrom_extends : ∀ {t : Term} {bindings found : Bindings}, t.Told → bindings.Told →
    matchFrom bindings pattern t = .ok found → bindings.Extends pattern.slots found := by
  induction pattern with
  | var p => exact fun told known done => bindPattern_extends known told done
  | const p =>
    rintro (c | _ | _ | _) bindings found told known done
    case const =>
      rw [matchFrom] at done
      split at done
      next => cases done; exact Bindings.extends_refl
      next => cases done
    all_goals cases done
  | app p q ihP ihQ =>
    rintro (_ | _ | ⟨f, x⟩ | _) bindings found told known done
    case app =>
      obtain ⟨between, first, second⟩ := bind_ok done
      have here := ihP told.function known first
      exact here.trans (ihQ told.argument (here.told known) second)
    all_goals cases done
  | lam p q ih =>
    rintro (_ | _ | _ | ⟨s, body⟩) bindings found told known done
    case lam =>
      obtain ⟨between, first, second⟩ := bind_ok done
      have here := bindPattern_extends known told.bound first
      exact here.trans (ih told.body (here.told known) second)
    all_goals cases done

/-- The term that was matched is an instance of the pattern under every assignment of what was
bound. -/
theorem instance_of_matchFrom : ∀ {t : Term} {bindings found : Bindings}, pattern.Plain → t.Told →
    bindings.Told → matchFrom bindings pattern t = .ok found → found.Agrees assigned →
      Instance assigned pattern t := by
  induction pattern with
  | var p =>
    intro t bindings found plain told known done agrees
    have meets := ((bindPattern_ok_iff known told).mp done).1
    exact .var (agrees _ _ (bindPattern_lookup known told done))
      ((Ty.canUnify_iff plain told.plain.type_plain).mp meets)
  | const p =>
    rintro (c | _ | _ | _) bindings found plain told known done agrees
    case const =>
      rw [matchFrom] at done
      split at done
      next both =>
        obtain ⟨names, meets⟩ := Bool.and_eq_true_iff.mp both
        exact .const (beq_iff_eq.mp names) ((Ty.canUnify_iff plain told.plain).mp meets)
      next => cases done
    all_goals cases done
  | app p q ihP ihQ =>
    rintro (_ | _ | ⟨f, x⟩ | _) bindings found plain told known done agrees
    case app =>
      obtain ⟨between, first, second⟩ := bind_ok done
      have known' := (matchFrom_extends told.function known first).told known
      have later := matchFrom_extends told.argument known' second
      exact .app (ihP plain.1 told.function known first (later.agrees agrees))
        (ihQ plain.2 told.argument known' second agrees)
    all_goals cases done
  | lam p q ih =>
    rintro (_ | _ | _ | ⟨s, body⟩) bindings found plain told known done agrees
    case lam =>
      obtain ⟨between, first, second⟩ := bind_ok done
      have known' := (bindPattern_extends known told.bound first).told known
      have later := matchFrom_extends told.body known' second
      have bound := bindPattern_lookup known told.bound first
      have meets := ((bindPattern_ok_iff known told.bound).mp first).1
      exact .lam (agrees _ _ (later.kept _ _ bound))
        ((Ty.canUnify_iff plain.1 told.plain.1).mp meets)
        (ih plain.2 told.body known' second agrees)
    all_goals cases done

/-- An instance under an assignment in agreement with the bindings is matched, and the agreement
stays. -/
theorem Instance.matched : ∀ {bindings : Bindings}, Instance assigned pattern t →
    pattern.Plain → t.Plain → bindings.Agrees assigned →
      ∃ found, matchFrom bindings pattern t = .ok found ∧ found.Agrees assigned := by
  intro bindings is
  induction is generalizing bindings with
  | var is types =>
    intro plain plain' agrees
    exact bindPattern_of_agrees agrees is
      ((Ty.canUnify_iff plain plain'.type_plain).mpr types)
  | const names types =>
    intro plain plain' agrees
    have meets := (Ty.canUnify_iff plain plain').mpr types
    exact ⟨bindings, by simp [matchFrom, names, meets], agrees⟩
  | app _ _ ihP ihQ =>
    intro plain plain' agrees
    obtain ⟨between, first, agrees'⟩ := ihP plain.1 plain'.1 agrees
    obtain ⟨found, second, agrees''⟩ := ihQ plain.2 plain'.2 agrees'
    exact ⟨found, by rw [matchFrom, first]; exact second, agrees''⟩
  | lam is types _ ih =>
    intro plain plain' agrees
    obtain ⟨between, first, agrees'⟩ := bindPattern_of_agrees agrees is
      ((Ty.canUnify_iff plain.1 plain'.1).mpr types)
    obtain ⟨found, second, agrees''⟩ := ih plain.2 plain'.2 agrees'
    exact ⟨found, by rw [matchFrom, first]; exact second, agrees''⟩

/-- A term matches a pattern exactly if it is an instance of it. What is returned then lists each
name of the pattern once and no other name, it makes the term an instance, and it is the only
assignment to these names that does. -/
theorem matchWith_instance (plain : pattern.Plain) (told : t.Told) :
    ((∃ found, pattern.matchWith t = .ok found) ↔ ∃ assigned, Instance assigned pattern t) ∧
    ∀ found, pattern.matchWith t = .ok found →
      (found.map Prod.fst).Nodup ∧ (∀ name, name ∈ found.map Prod.fst ↔ name ∈ pattern.slots) ∧
      (∀ assigned, Instance assigned pattern t ↔
        ∀ name ∈ pattern.slots, found.lookup name = some (assigned name)) := by
  have nothing : Bindings.Told [] := by rintro name u ⟨⟩
  have empty : ∀ assigned, Bindings.Agrees assigned [] := by rintro assigned name u ⟨⟩
  refine ⟨⟨?_, ?_⟩, fun found done => ?_⟩
  · rintro ⟨found, done⟩
    exact ⟨_, instance_of_matchFrom plain told nothing done (found.agrees_value default)⟩
  · rintro ⟨assigned, is⟩
    obtain ⟨found, done, -⟩ := is.matched plain told.plain (empty assigned)
    exact ⟨found, done⟩
  · have after := matchFrom_extends told nothing done
    have names : ∀ name, name ∈ found.map Prod.fst ↔ name ∈ pattern.slots := by
      simpa using after.bound
    refine ⟨after.distinct List.nodup_nil, names, fun assigned => ⟨fun is => ?_, ?_⟩⟩
    · obtain ⟨found', done', agrees⟩ := is.matched plain told.plain (empty assigned)
      obtain rfl : found' = found := Except.ok.inj (done'.symm.trans done)
      intro name inside
      obtain ⟨u, bound⟩ := Bindings.mem_names.mp ((names name).mpr inside)
      rw [bound, agrees name u bound]
    · intro same
      refine instance_of_matchFrom plain told nothing done fun name u bound => ?_
      have here := same name ((names name).mp (Bindings.mem_names.mpr ⟨u, bound⟩))
      exact Option.some.inj (here.symm.trans bound)

/-- The pattern `(\x. x)(y)` with variables of unknown types. -/
def redexPattern : Term :=
  .app (.lam ⟨"x", .var 1⟩ (.var ⟨"x", .var 1⟩)) (.var ⟨"y", .var 2⟩)

/-- The term `(\z:obj. z)(c)`. -/
def redexTerm : Term := .app (.lam ⟨"z", .obj⟩ (.var ⟨"z", .obj⟩)) (.const ⟨"c", .obj⟩)

/-- The binder's name stands for the variable that is bound, the other name for the argument. -/
theorem matchWith_redex : redexPattern.Plain ∧ redexTerm.Told ∧
    ∃ found, redexPattern.matchWith redexTerm = .ok found ∧
      found.lookup "x" = some (.var ⟨"z", .obj⟩) ∧
        found.lookup "y" = some (.const ⟨"c", .obj⟩) := by
  have obj : Ty.obj.Plain := show isPlain "obj" = true by decide
  have plain : redexPattern.Plain := ⟨⟨trivial, trivial⟩, trivial⟩
  have z : isPlain "z" = true := by decide
  have c : isPlain "c" = true := by decide
  have told : redexTerm.Told := ⟨⟨⟨obj, obj⟩, obj⟩, ⟨z, z⟩, c⟩
  let assigned : String → Term := fun name =>
    if name = "x" then .var ⟨"z", .obj⟩ else .const ⟨"c", .obj⟩
  have is : Instance assigned redexPattern redexTerm :=
    .app (.lam rfl ⟨fun _ => .obj, rfl⟩ (.var rfl ⟨fun _ => .obj, rfl⟩))
      (.var rfl ⟨fun _ => .obj, rfl⟩)
  obtain ⟨found, done⟩ := (matchWith_instance plain told).1.mpr ⟨assigned, is⟩
  have values := (((matchWith_instance plain told).2 found done).2.2 assigned).mp is
  exact ⟨plain, told, found, done, values "x" (by decide), values "y" (by decide)⟩

end Term

/-! ## Matching in an arena -/

/-- A value of a matcher's arena: the name of a pattern variable or a subterm. -/
inductive Cell where
  /-- The name of a pattern variable. -/
  | slot (name : String)
  /-- A subterm of the term that is matched. -/
  | part (t : Term)

namespace Cell

instance : Keyed Cell where
  key
    | slot name => "?" ++ name
    | part t => t.key

/-- Whether a value may be bound. -/
def isSlot : Cell → Bool
  | slot _ => true
  | part _ => false

/-- Names are bound to subterms. No name occurs in a subterm, and subterms that are told apart do
not agree. -/
def matching : Discipline Cell := ⟨isSlot, fun _ _ => false, none⟩

/-- What is wrong with a pattern variable that has met a second subterm. -/
def fault (name : String) : Conflict Cell → MatchFault
  | .mismatch (part known) _ _ => .alreadyBound name known
  | _ => .shape

/-- Put a pattern variable into the class of a subterm. -/
def bindSlot (arena : Forest Cell) (s : Symbol) (t : Term) : Except Failure (Forest Cell) :=
  if Ty.canUnify s.type t.type then
    match arena.unify matching (slot s.name) (part t) with
    | (none, arena) => .ok arena
    | (some conflict, _) => .error (.noMatch (.var s) t (fault s.name conflict))
  else .error (.noMatch (.var s) t .incompatibleTypes)

/-- Put the variables of a pattern into the classes of the subterms that they meet. -/
def matchIn (arena : Forest Cell) : (pattern t : Term) → Except Failure (Forest Cell)
  | .var s, t => bindSlot arena s t
  | .const p, .const c =>
    if p.name == c.name && Ty.canUnify p.type c.type then .ok arena
    else .error (.noMatch (.const p) (.const c) .shape)
  | .app p q, .app f x => do
    let arena ← matchIn arena p f
    matchIn arena q x
  | .lam p q, .lam s body => do
    let arena ← bindSlot arena p (.var s)
    matchIn arena q body
  | pattern, t => .error (.noMatch pattern t .shape)

variable {name name' : String} {t u : Term} {p : Partition Cell} {bindings : Bindings}

/-- The key of a slot is its name after a question mark. -/
theorem slot_key : Keyed.key (slot name) = "?" ++ name := rfl

/-- The key of a part is that of the term. -/
theorem part_key : Keyed.key (part t) = t.key := rfl

/-- Different names have slots of different keys. -/
theorem slot_key_inj (same : Keyed.key (slot name) = Keyed.key (slot name')) : name = name' := by
  have texts := congrArg String.toList same
  simp only [slot_key, String.toList_append] at texts
  exact String.toList_inj.mp (List.append_cancel_left texts)

/-- No name has the key of a subterm. -/
theorem slot_key_ne : Keyed.key (slot name) ≠ Keyed.key (part t) := by
  intro same
  have texts := congrArg (fun text : String => text.toList.head?) same
  cases t <;> simp [slot_key, part_key, Term.key, Symbol.constKey, Symbol.varKey] at texts

/-- The subterm that a value stands for. -/
def meaning (bindings : Bindings) : Cell → Option Term
  | slot name => bindings.lookup name
  | part t => some t

/-- The classes of an arena are those of the values that bindings hold: the names in one class
stand for the subterm in it, which leads. -/
structure Mirrors (p : Partition Cell) (bindings : Bindings) : Prop where
  /-- The arena is lawful. -/
  lawful : p.Lawful
  /-- All values of a class stand for one subterm. -/
  respects : p.Respects (meaning bindings)
  /-- Every class is led by a subterm. -/
  led : ∀ place l, p.Leads place l → ∃ u, l.value = part u
  /-- Subterms are told by their keys. -/
  told : ∀ m ∈ p.members, ∀ u, m.value = part u → u.Told
  /-- Every name that is bound has been seen. -/
  seen : ∀ name u, bindings.lookup name = some u → ∃ m ∈ p.members, m.value = slot name

/-- The empty partition mirrors no bindings. -/
theorem mirrors_empty : Mirrors (Partition.empty : Partition Cell) [] where
  lawful := Partition.lawful_empty
  respects := by simp [Partition.Respects, Partition.empty]
  led := by simp [Partition.Leads, Partition.empty]
  told := by simp [Partition.empty]
  seen := by simp

/-- A value that has been seen belongs to the class of the subterm that it stands for. -/
theorem Mirrors.leader (mirrors : Mirrors p bindings) {m : Member Cell} (inside : m ∈ p.members) :
    ∃ l u, p.Leads m.leader l ∧ l.value = part u ∧ meaning bindings m.value = some u := by
  obtain ⟨l, leads⟩ := mirrors.lawful.led m inside
  obtain ⟨u, is⟩ := mirrors.led _ l leads
  exact ⟨l, u, leads, is, by rw [mirrors.respects m inside l leads.1, is, meaning]⟩

/-- The key of a name is the key of that name's member only. -/
theorem Mirrors.value_of_slot (mirrors : Mirrors p bindings) {m : Member Cell}
    (inside : m ∈ p.members) (same : m.key = Keyed.key (slot name)) : m.value = slot name := by
  rw [mirrors.lawful.keyed m inside] at same
  cases is : m.value with
  | slot other =>
    rw [is] at same
    rw [slot_key_inj same]
  | part t =>
    rw [is] at same
    exact absurd same.symm slot_key_ne

/-- The key of a subterm is the key of that subterm's member only. -/
theorem Mirrors.value_of_part (mirrors : Mirrors p bindings) (told : t.Told) {m : Member Cell}
    (inside : m ∈ p.members) (same : m.key = Keyed.key (part t)) : m.value = part t := by
  rw [mirrors.lawful.keyed m inside] at same
  cases is : m.value with
  | slot other =>
    rw [is] at same
    exact absurd same slot_key_ne
  | part u =>
    rw [is] at same
    rw [((mirrors.told m inside u is).key_inj told).mp same]

/-- A name that is bound is found in the class of what it stands for. -/
theorem Mirrors.find_bound (mirrors : Mirrors p bindings) (bound : bindings.lookup name = some u) :
    ∃ place l, p.find (slot name) = (place, p) ∧ p.Leads place l ∧ l.value = part u := by
  obtain ⟨m, inside, is⟩ := mirrors.seen name u bound
  obtain ⟨l, u', leads, leader, stands⟩ := mirrors.leader inside
  rw [is, meaning, bound] at stands
  have key : m.key = Keyed.key (slot name) := by rw [mirrors.lawful.keyed m inside, is]
  refine ⟨m.leader, l, ?_, leads, by rw [leader, Option.some.inj stands]⟩
  rw [Partition.find, ← key, mirrors.lawful.member?_of_mem inside]

/-- A name that is not bound has not been seen. -/
theorem Mirrors.find_new (mirrors : Mirrors p bindings) (unbound : bindings.lookup name = none) :
    p.find (slot name) =
      (p.size, ⟨p.members ++ [⟨Keyed.key (slot name), slot name, p.size⟩]⟩) := by
  rcases p.find_cases (slot name) with ⟨m, inside, same, -⟩ | ⟨-, found⟩
  · obtain ⟨l, u, -, -, stands⟩ := mirrors.leader inside
    rw [mirrors.value_of_slot inside same, meaning, unbound] at stands
    cases stands
  · exact found

/-- A subterm leads its own class, also when it is seen for the first time. -/
theorem Mirrors.find_part (mirrors : Mirrors p bindings) (told : t.Told) (name : String) :
    ∃ l, ((p.find (slot name)).2.find (part t)).2.Leads
      ((p.find (slot name)).2.find (part t)).1 l ∧ l.value = part t := by
  rcases (p.find (slot name)).2.find_cases (part t) with ⟨m, inside, same, found⟩ | ⟨-, found⟩
  · rw [found]
    rcases Partition.mem_of_mem_find inside with old | rfl
    · obtain ⟨l, u, leads, leader, stands⟩ := mirrors.leader old
      rw [mirrors.value_of_part told old same, meaning] at stands
      exact ⟨l, leads.find _, by rw [leader, Option.some.inj stands]⟩
    · exact absurd same slot_key_ne
  · rw [found]
    exact ⟨_, Partition.leads_appended _ _ _, rfl⟩

/-- A name that is bound is in one class with a subterm if it stands for that subterm. -/
theorem Mirrors.unify_same (mirrors : Mirrors p bindings) (bound : bindings.lookup name = some t) :
    p.unify matching (slot name) (part t) = (none, p) := by
  obtain ⟨place, l, found, leads, leader⟩ := mirrors.find_bound bound
  have key : l.key = Keyed.key (part t) := by rw [mirrors.lawful.keyed l leads.mem, leader]
  have found' : p.find (part t) = (place, p) := by
    rw [Partition.find, ← key, mirrors.lawful.member?_of_mem leads.mem]
    exact congrArg (·, p) leads.2
  simp [Partition.unify, found, found']

/-- A name that is bound cannot be put into the class of another subterm. -/
theorem Mirrors.unify_clash (mirrors : Mirrors p bindings) (told : t.Told)
    (bound : bindings.lookup name = some u) (apart : u ≠ t) :
    (p.unify matching (slot name) (part t)).1 = some (.mismatch (part u) (part t) none) := by
  obtain ⟨place, l, found, leads, leader⟩ := mirrors.find_bound bound
  obtain ⟨l', leads', leader'⟩ := mirrors.find_part told name
  rw [found] at leads'
  have here := leads.find (part t)
  have places : place ≠ (p.find (part t)).1 := by
    rintro same
    rw [same] at here
    rw [Option.some.inj (leads'.1.symm.trans here.1), leader] at leader'
    exact apart (part.inj leader')
  simp [Partition.unify, found, places, here.valueAt, leads'.valueAt, leader, leader', matching,
    isSlot]

/-- Where a new name and a subterm are after both have been looked up: the name leads itself at
the next place, the subterm's class is led from place `j`, and the rest is as before. -/
structure Placed (p : Partition Cell) (name : String) (t : Term) (j : Nat) (g : Partition Cell) :
    Prop where
  /-- The name is linked to the subterm's class. -/
  unify : p.unify matching (slot name) (part t) = (none, g.link j p.size)
  /-- The name has another place than the leader. -/
  apart : j ≠ p.size
  /-- The arena is lawful. -/
  lawful : g.Lawful
  /-- The subterm leads its class. -/
  leads : ∃ l, g.Leads j l ∧ l.value = part t
  /-- The name leads itself. -/
  seen : g.Leads p.size ⟨Keyed.key (slot name), slot name, p.size⟩
  /-- No class has changed. -/
  respects : ∀ f : Cell → Option Term, g.Respects f ↔ p.Respects f
  /-- Every leader still leads. -/
  later : ∀ place l, p.Leads place l → g.Leads place l
  /-- Nothing else has been seen. -/
  members : ∀ m ∈ g.members, m ∈ p.members ∨ m.value = slot name ∨ m.value = part t
  /-- Nothing has been lost. -/
  kept : ∀ m ∈ p.members, m ∈ g.members

/-- A name and a term have places in a partition where they are put into it. -/
theorem Mirrors.placed (mirrors : Mirrors p bindings) (told : t.Told)
    (unbound : bindings.lookup name = none) : ∃ j g, Placed p name t j g := by
  have new := mirrors.find_new unbound
  have lawful := mirrors.lawful.find (slot name)
  obtain ⟨l, leads, leader⟩ := mirrors.find_part told name
  have seen : (p.find (slot name)).2.Leads p.size ⟨Keyed.key (slot name), slot name, p.size⟩ := by
    rw [new]
    exact Partition.leads_appended p _ _
  have seen' := seen.find (part t)
  have apart : ((p.find (slot name)).2.find (part t)).1 ≠ p.size := by
    intro same
    rw [same] at leads
    rw [Option.some.inj (leads.1.symm.trans seen'.1)] at leader
    cases leader
  refine ⟨((p.find (slot name)).2.find (part t)).1, ((p.find (slot name)).2.find (part t)).2, ?_,
    apart, lawful.find _, ⟨l, leads, leader⟩, seen', fun f => ?_, fun _ _ leads => ?_,
    fun m inside => ?_, fun m old => ?_⟩
  · have first : (p.find (slot name)).1 = p.size := by rw [new]
    rw [Partition.unify]
    simp only [first, if_neg apart.symm, seen'.valueAt]
    rfl
  · exact (lawful.respects_find _ f).trans (mirrors.lawful.respects_find _ f)
  · exact (leads.find _).find _
  · rcases Partition.mem_of_mem_find inside with here | rfl
    · rcases Partition.mem_of_mem_find here with old | rfl
      · exact .inl old
      · exact .inr (.inl rfl)
    · exact .inr (.inr rfl)
  · exact Partition.mem_find_of_mem (Partition.mem_find_of_mem old _) _

/-- What was seen before a name is bound stands for what it stood for. -/
theorem Mirrors.meaning_new (mirrors : Mirrors p bindings) {s : Symbol}
    (unbound : bindings.lookup s.name = none) {m : Member Cell} (inside : m ∈ p.members) :
    meaning (bindings ++ [(s.name, t)]) m.value = meaning bindings m.value := by
  cases is : m.value with
  | part u => rfl
  | slot name =>
    obtain ⟨-, u, -, -, stands⟩ := mirrors.leader inside
    rw [is, meaning] at stands
    rw [meaning, meaning, Bindings.lookup_append_new unbound, if_neg]
    rintro rfl
    rw [unbound] at stands
    cases stands

/-- A name that is new joins the class of the subterm. -/
theorem Mirrors.unify_new (mirrors : Mirrors p bindings) {s : Symbol} (told : t.Told)
    (unbound : bindings.lookup s.name = none) :
    ∃ q, p.unify matching (slot s.name) (part t) = (none, q) ∧
      Mirrors q (bindings ++ [(s.name, t)]) := by
  obtain ⟨j, g, placed⟩ := mirrors.placed told unbound
  obtain ⟨k, leads, leader⟩ := placed.leads
  have lawful := placed.lawful
  refine ⟨g.link j p.size, placed.unify, lawful.link leads placed.apart, ?_,
    fun place l leads' => ?_, fun m inside u is => ?_, fun name u bound => ?_⟩
  · rw [lawful.respects_link leads placed.seen placed.apart, placed.respects]
    refine ⟨fun m inside l leads' => ?_, ?_⟩
    · rw [mirrors.meaning_new unbound inside,
        mirrors.meaning_new unbound (List.mem_of_getElem? leads'),
        mirrors.respects m inside l leads']
    · rw [leader, meaning, meaning, Bindings.lookup_append_new unbound, if_pos rfl]
  · obtain ⟨n, here, value, other⟩ := Partition.leads_of_link leads leads'
    rw [value]
    rcases placed.members n here.mem with old | slot | part
    · obtain ⟨l, u, leads, leader, -⟩ := mirrors.leader old
      rw [here.2] at leads
      obtain rfl : n = l := Option.some.inj (here.1.symm.trans (placed.later _ _ leads).1)
      exact ⟨u, leader⟩
    · have same : n = ⟨_, _, _⟩ := lawful.unique here.mem placed.seen.mem
        (by rw [lawful.keyed n here.mem, slot])
      have place : place = p.size := here.2.symm.trans (congrArg Member.leader same)
      exact absurd place (other placed.apart)
    · exact ⟨t, part⟩
  · obtain ⟨n, held, rfl⟩ := List.mem_map.mp inside
    replace is : n.value = part u := (Partition.relink_value j p.size n).symm.trans is
    rcases placed.members n held with old | slot | part
    · exact mirrors.told n old u is
    · cases slot.symm.trans is
    · cases part.symm.trans is
      exact told
  · have linked : ∀ n ∈ g.members, ∃ m ∈ (g.link j p.size).members, m.value = n.value :=
      fun n inside => ⟨_, List.mem_map_of_mem inside, Partition.relink_value j p.size n⟩
    rw [Bindings.lookup_append_new unbound] at bound
    split at bound
    next same => exact same ▸ linked _ placed.seen.mem
    next =>
      obtain ⟨n, old, is⟩ := mirrors.seen name u bound
      exact is ▸ linked n (placed.kept n old)

/-! ## The two matchers agree -/

/-- An arena's matcher fails as the other one does, or its arena mirrors the other's bindings. -/
def Agree (first : Except Failure (Forest Cell)) (second : Except Failure Bindings) : Prop :=
  match second with
  | .error failure => first = .error failure
  | .ok found => ∃ after, first = .ok after ∧ Mirrors after.flat found

/-- If two computations agree and go on in agreement, then they agree as a whole. -/
theorem Agree.bind {first : Except Failure (Forest Cell)} {second : Except Failure Bindings}
    {next : Forest Cell → Except Failure (Forest Cell)} {next' : Bindings → Except Failure Bindings}
    (agree : Agree first second)
    (continues : ∀ after found, Mirrors after.flat found → Agree (next after) (next' found)) :
    Agree (first >>= next) (second >>= next') := by
  cases second with
  | error failure =>
    obtain rfl := agree
    rfl
  | ok found =>
    obtain ⟨after, rfl, mirrors⟩ := agree
    exact continues after found mirrors

/-- What mirrored bindings bind can be told apart. -/
theorem Mirrors.bindings_told (mirrors : Mirrors p bindings) : bindings.Told := by
  intro name u bound
  obtain ⟨m, inside, is⟩ := mirrors.seen name u bound
  obtain ⟨l, u', leads, leader, stands⟩ := mirrors.leader inside
  rw [is, meaning, bound] at stands
  obtain rfl := Option.some.inj stands
  exact mirrors.told l leads.mem u leader

/-- Binding a slot in the partition agrees with binding the name. -/
theorem agree_bindSlot {arena : Forest Cell} {s : Symbol} (mirrors : Mirrors arena.flat bindings)
    (told : t.Told) : Agree (bindSlot arena s t) (Term.bindPattern bindings s t) := by
  have flat := arena.flat_unify matching (slot s.name) (part t)
  rw [bindSlot, Term.bindPattern]
  split
  next =>
    cases bound : bindings.lookup s.name with
    | none =>
      obtain ⟨q, unified, mirrors'⟩ := mirrors.unify_new told bound
      rw [unified] at flat
      rcases outcome : arena.unify matching (slot s.name) (part t) with ⟨_ | conflict, after⟩
      · rw [outcome] at flat
        obtain ⟨-, rfl⟩ := Prod.mk.inj flat
        exact ⟨after, rfl, mirrors'⟩
      · rw [outcome] at flat
        cases flat
    | some u =>
      by_cases same : u = t
      · subst same
        rw [mirrors.unify_same bound] at flat
        rcases outcome : arena.unify matching (slot s.name) (part u) with ⟨_ | conflict, after⟩
        · rw [outcome] at flat
          obtain ⟨-, same⟩ := Prod.mk.inj flat
          simpa [Agree] using same ▸ mirrors
        · rw [outcome] at flat
          cases flat
      · have clash := mirrors.unify_clash told bound same
        rw [flat] at clash
        rcases outcome : arena.unify matching (slot s.name) (part t) with ⟨_ | conflict, after⟩
        · rw [outcome] at clash
          cases clash
        · rw [outcome] at clash
          obtain rfl := Option.some.inj clash
          have keys : ¬ u.key = t.key :=
            fun keys => same (((mirrors.bindings_told _ _ bound).key_inj told).mp keys)
          simp [Agree, keys, fault]
  next => rfl

/-- Matching in an arena follows matching with bindings through every pattern and term. -/
theorem agree_matchIn {pattern : Term} : ∀ {t : Term} {arena : Forest Cell} {bindings : Bindings},
    t.Told → Mirrors arena.flat bindings →
      Agree (matchIn arena pattern t) (Term.matchFrom bindings pattern t) := by
  induction pattern with
  | var s => exact fun told mirrors => agree_bindSlot mirrors told
  | const s =>
    rintro (c | _ | _ | _) arena bindings told mirrors
    case const =>
      rw [matchIn, Term.matchFrom]
      split
      next => exact ⟨arena, rfl, mirrors⟩
      next => rfl
    all_goals rfl
  | app p q ihP ihQ =>
    rintro (_ | _ | ⟨f, x⟩ | _) arena bindings told mirrors
    case app =>
      exact (ihP told.function mirrors).bind fun _ _ between => ihQ told.argument between
    all_goals rfl
  | lam s q ih =>
    rintro (_ | _ | _ | ⟨v, body⟩) arena bindings told mirrors
    case lam =>
      exact (agree_bindSlot mirrors told.bound).bind fun _ _ between => ih told.body between
    all_goals rfl

/-- Matching in a new arena has the same failures as matching, and when it succeeds every name's
class is led by the subterm that the name is bound to. -/
theorem matchIn_matchWith {pattern : Term} (told : t.Told) :
    match pattern.matchWith t with
    | .error failure => matchIn .empty pattern t = .error failure
    | .ok found => ∃ arena, matchIn .empty pattern t = .ok arena ∧
        ∀ name u, found.lookup name = some u → (arena.representative (slot name)).1 = part u := by
  have agree : Agree (matchIn .empty pattern t) (Term.matchFrom [] pattern t) :=
    agree_matchIn told mirrors_empty
  rw [Term.matchWith]
  cases done : Term.matchFrom [] pattern t with
  | error failure =>
    rw [done] at agree
    exact agree
  | ok found =>
    rw [done] at agree
    obtain ⟨arena, ran, mirrors⟩ := agree
    refine ⟨arena, ran, fun name u bound => ?_⟩
    obtain ⟨place, l, found, leads, leader⟩ := mirrors.find_bound bound
    have flat := congrArg Prod.fst (arena.flat_representative (slot name))
    rw [← flat, Partition.representative, found]
    exact (leads.valueAt _).trans leader

end Cell

end Turnstile
