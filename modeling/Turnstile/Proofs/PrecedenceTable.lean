import Turnstile.Proofs.Inference
import Turnstile.Proofs.Registering

/-!
# The precedence table

Of the words that are declared those stand that no later word of the same name replaces. The tokens
of the standing operators and the tokens that are always there are sorted by their precedence, the
loosest first, and gathered into levels in one pass that compares each token with the level before
it. Because the tokens are sorted, this level is the only one that a token can belong to; because
tokens of one precedence stay in order when they are sorted, the tokens of a level stand in the
order in which they were declared. The pass stops where two tokens of one precedence group
differently.
-/

namespace Turnstile

/-! ## Sorting -/

section Sorting

variable {α : Type} {le : α → α → Bool}

/-- Inserting into a sorted list in order keeps it sorted. -/
theorem pairwise_insertBy (total : ∀ a b, le a b = true ∨ le b a = true)
    (transitive : ∀ a b c, le a b = true → le b c = true → le a c = true) (a : α) {items : List α}
    (sorted : items.Pairwise fun b c => le b c = true) :
    (insertBy le a items).Pairwise fun b c => le b c = true := by
  induction items with
  | nil => simp [insertBy]
  | cons b rest ih =>
    obtain ⟨before, later⟩ := List.pairwise_cons.mp sorted
    rw [insertBy]
    split
    next first =>
      refine List.pairwise_cons.mpr ⟨fun c inside => ?_, sorted⟩
      rcases List.mem_cons.mp inside with rfl | further
      · exact first
      · exact transitive a b c first (before c further)
    next second =>
      refine List.pairwise_cons.mpr ⟨fun c inside => ?_, ih later⟩
      rcases mem_insertBy.mp inside with rfl | further
      · exact (total b c).resolve_right second
      · exact before c further

/-- Sorting sorts. -/
theorem pairwise_sortBy (total : ∀ a b, le a b = true ∨ le b a = true)
    (transitive : ∀ a b c, le a b = true → le b c = true → le a c = true) (items : List α) :
    (sortBy le items).Pairwise fun b c => le b c = true := by
  induction items with
  | nil => exact .nil
  | cons a rest ih => exact pairwise_insertBy total transitive a ih

/-- Inserting leaves the order of items that are alike. -/
theorem filter_insertBy {p : α → Bool} {a : α} (alike : ∀ b, p a → p b → le a b = true)
    (items : List α) : (insertBy le a items).filter p = (a :: items).filter p := by
  induction items with
  | nil => rfl
  | cons b rest ih =>
    rw [insertBy]
    split
    · rfl
    next after =>
      -- An element that is passed over is not selected together with the one that passes it.
      rw [List.filter_cons, ih]
      by_cases selected : p a <;> by_cases other : p b
      · exact absurd (alike b selected other) after
      all_goals simp [selected, other]

/-- Elements that the order does not tell apart keep their order. -/
theorem filter_sortBy {p : α → Bool} (alike : ∀ a b, p a → p b → le a b = true) (items : List α) :
    (sortBy le items).filter p = items.filter p := by
  induction items with
  | nil => rfl
  | cons a rest ih =>
    rw [sortBy, List.foldr_cons, filter_insertBy (alike a), List.filter_cons, List.filter_cons]
    rw [show rest.foldr (insertBy le) [] = sortBy le rest from rfl, ih]

end Sorting

/-! ## The levels -/

/-- A precedence table of some tokens. -/
structure Tabulates (entries : List Ranked) (levels : List Level) : Prop where
  /-- The loosest level is the first, and no two levels have the same precedence. -/
  decreasing : levels.Pairwise fun a b => b.precedence < a.precedence
  /-- A level has exactly the tokens of its precedence, in their order. -/
  tokens : ∀ level ∈ levels, level.tokens =
    (entries.filter fun entry => entry.precedence = level.precedence).map Ranked.token
  /-- They all group as the level does. -/
  assoc : ∀ level ∈ levels, ∀ entry ∈ entries, entry.precedence = level.precedence →
    entry.assoc = level.assoc
  /-- There are levels for exactly the precedences of the tokens. -/
  precedences : ∀ precedence, (∃ level ∈ levels, level.precedence = precedence) ↔
    ∃ entry ∈ entries, entry.precedence = precedence

/-- Two of the tokens have one precedence and group differently. -/
def Clashing (entries : List Ranked) : Prop :=
  ∃ a ∈ entries, ∃ b ∈ entries, a.precedence = b.precedence ∧ a.assoc ≠ b.assoc

/-- What making a precedence table of some tokens comes to: the table, or two tokens that clash. -/
inductive Tabling (entries : List Ranked) : Except Failure (List Level) → Prop
  | table {levels : List Level} (is : Tabulates entries levels) : Tabling entries (.ok levels)
  | clash {a b : Ranked} (first : a ∈ entries) (second : b ∈ entries)
    (same : a.precedence = b.precedence) (differ : a.assoc ≠ b.assoc) :
    Tabling entries (.error (.precedence b.precedence a.token b.token a.assoc b.assoc))

variable {entries done : List Ranked} {levels : List Level} {level : Level}

/-- What is tabulated does not clash. -/
theorem Tabulates.not_clashing (tabulates : Tabulates entries levels) : ¬Clashing entries := by
  rintro ⟨a, isA, b, isB, same, differ⟩
  obtain ⟨level, listed, is⟩ := (tabulates.precedences b.precedence).mpr ⟨b, isB, rfl⟩
  exact differ ((tabulates.assoc level listed a isA (same.trans is.symm)).trans
    (tabulates.assoc level listed b isB is.symm).symm)

/-- No tokens make the empty table. -/
theorem tabulates_nil : Tabulates [] [] where
  decreasing := .nil
  tokens := by simp
  assoc := by simp
  precedences := by simp

/-- A level of looser tokens goes in front of a table. -/
theorem Tabulates.cons (tabulates : Tabulates entries levels) (begun : done ≠ [])
    (tokens : level.tokens = done.map Ranked.token)
    (each : ∀ entry ∈ done, entry.precedence = level.precedence ∧ entry.assoc = level.assoc)
    (tighter : ∀ entry ∈ entries, entry.precedence < level.precedence) :
    Tabulates (done ++ entries) (level :: levels) := by
  have below : ∀ level' ∈ levels, level'.precedence < level.precedence := by
    intro level' listed
    obtain ⟨entry, inside, is⟩ := (tabulates.precedences level'.precedence).mp ⟨level', listed, rfl⟩
    exact is ▸ tighter entry inside
  constructor
  case decreasing => exact List.pairwise_cons.mpr ⟨below, tabulates.decreasing⟩
  case tokens =>
    refine List.forall_mem_cons.mpr ⟨?_, fun level' listed => ?_⟩
    · have all : done.filter (fun entry => entry.precedence = level.precedence) = done :=
        List.filter_eq_self.mpr fun entry inside => by simp [(each entry inside).1]
      have none : entries.filter (fun entry => entry.precedence = level.precedence) = [] :=
        List.filter_eq_nil_iff.mpr fun entry inside => by simp [Int.ne_of_lt (tighter entry inside)]
      rw [List.filter_append, all, none, List.append_nil, tokens]
    · have none : done.filter (fun entry => entry.precedence = level'.precedence) = [] :=
        List.filter_eq_nil_iff.mpr fun entry inside => by
          simp [(each entry inside).1, (Int.ne_of_lt (below level' listed)).symm]
      rw [List.filter_append, none, List.nil_append, tabulates.tokens level' listed]
  case assoc =>
    refine List.forall_mem_cons.mpr ⟨fun entry inside same => ?_, fun level' listed entry inside
      same => ?_⟩ <;> rcases List.mem_append.mp inside with here | later
    · exact (each entry here).2
    · exact absurd same (Int.ne_of_lt (tighter entry later))
    · exact absurd ((each entry here).1.symm.trans same).symm (Int.ne_of_lt (below level' listed))
    · exact tabulates.assoc level' listed entry later same
  case precedences =>
    intro precedence
    obtain ⟨head, isHead⟩ := List.exists_mem_of_ne_nil done begun
    simp only [List.exists_mem_cons_iff, List.mem_append, or_and_right, exists_or]
    refine or_congr ⟨fun is => ⟨head, isHead, (each head isHead).1.trans is⟩, ?_⟩
      (tabulates.precedences precedence)
    rintro ⟨entry, inside, is⟩
    exact (each entry inside).1.symm.trans is

/-- Tokens in the order of their precedence are gathered into a table, the first of them belonging
to the level that has been begun. -/
theorem Level.gather_tabling : ∀ {entries done : List Ranked} {level : Level}, done ≠ [] →
    level.tokens = done.map Ranked.token →
    (∀ entry ∈ done, entry.precedence = level.precedence ∧ entry.assoc = level.assoc) →
    (done ++ entries).Pairwise (fun a b => b.precedence ≤ a.precedence) →
    Tabling (done ++ entries) (level.gather entries)
  | [], _, _, begun, tokens, each, _ =>
    .table (tabulates_nil.cons begun tokens each (by simp))
  | entry :: rest, done, level, begun, tokens, each, sorted => by
    obtain ⟨head, isHead⟩ := List.exists_mem_of_ne_nil done begun
    rw [gather]
    split
    next same =>
      split
      next alike =>
        have grown : (done ++ [entry]) ++ rest = done ++ entry :: rest := by simp
        rw [← grown] at sorted ⊢
        refine gather_tabling (by simp) (by simp [tokens]) ?_ sorted
        simp only [List.forall_mem_append, List.forall_mem_singleton]
        exact ⟨each, same, alike⟩
      next differ =>
        obtain ⟨first, others, rfl⟩ := List.exists_cons_of_ne_nil begun
        obtain ⟨precedence, assoc⟩ := each first (by simp)
        rw [tokens, ← assoc, List.map_cons, List.headD_cons]
        exact .clash (by simp) (by simp) (precedence.trans same.symm) (assoc ▸ Ne.symm differ)
    next apart =>
      obtain ⟨-, later, across⟩ := List.pairwise_append.mp sorted
      have tighter : ∀ other ∈ entry :: rest, other.precedence < level.precedence := by
        have below : entry.precedence < level.precedence := by
          have ahead := across head isHead entry (by simp)
          rw [(each head isHead).1] at ahead
          omega
        refine List.forall_mem_cons.mpr ⟨below, fun other inside => ?_⟩
        exact Int.lt_of_le_of_lt ((List.pairwise_cons.mp later).1 other inside) below
      have gathered : Tabling ([entry] ++ rest) ((ofRanked entry).gather rest) :=
        gather_tabling (by simp) rfl (by simp [ofRanked]) later
      cases made : (ofRanked entry).gather rest with
      | ok levels =>
        rw [made] at gathered
        cases gathered with
        | table is => exact .table (is.cons begun tokens each tighter)
      | error failure =>
        rw [made] at gathered
        cases gathered with
        | clash first second same differ =>
          exact .clash (List.mem_append_right _ first) (List.mem_append_right _ second) same differ

/-- Whether tokens make a table or clash does not depend on their order, but for those of one
precedence. -/
theorem Tabling.of_sorted {le : Ranked → Ranked → Bool} {result : Except Failure (List Level)}
    (loosest : ∀ a b, a.precedence = b.precedence → le a b = true)
    (tabling : Tabling (sortBy le entries) result) : Tabling entries result := by
  cases tabling with
  | clash first second same differ =>
    exact .clash (mem_sortBy.mp first) (mem_sortBy.mp second) same differ
  | table is =>
    refine .table ⟨is.decreasing, fun level listed => ?_, fun level listed entry inside => ?_,
      fun precedence => ?_⟩
    · rw [is.tokens level listed, filter_sortBy fun a b here there => loosest a b ?_]
      rw [of_decide_eq_true here, of_decide_eq_true there]
    · exact is.assoc level listed entry (mem_sortBy.mpr inside)
    · rw [is.precedences precedence]
      simp only [mem_sortBy]

/-- The precedence table of operators is one of their tokens and those that are always there. -/
theorem levelsOf_tabling (operators : List Operator) :
    Tabling (fixedTokens ++ operators.map Operator.ranked) (levelsOf operators) := by
  have sorted : (sortBy (fun a b : Ranked => decide (b.precedence ≤ a.precedence))
      (fixedTokens ++ operators.map Operator.ranked)).Pairwise
        fun a b => decide (b.precedence ≤ a.precedence) = true :=
    pairwise_sortBy (fun a b => by simpa using Int.le_total _ _)
      (fun a b c first second => by simp only [decide_eq_true_eq] at first second ⊢; omega) _
  have tabling : Tabling (sortBy (fun a b => decide (b.precedence ≤ a.precedence))
      (fixedTokens ++ operators.map Operator.ranked)) (levelsOf operators) := by
    rw [levelsOf]
    split
    next empty =>
      rw [empty]
      exact .table tabulates_nil
    next entry rest is =>
      rw [is] at sorted ⊢
      simp only [decide_eq_true_eq] at sorted
      have begun : [entry] ≠ [] := by simp
      exact Level.gather_tabling begun rfl (by simp [Level.ofRanked]) sorted
  exact tabling.of_sorted fun a b same => by simp [same]

/-! ## The words -/

/-- The words that no later word of the same name replaces. -/
def standing : List Word → List Word
  | [] => []
  | w :: rest => if rest.any fun o => o.name == w.name then standing rest else w :: standing rest

/-- The words that are kept are those that stand. -/
theorem lastDeclared_eq_standing (words : List Word) : lastDeclared words = standing words := by
  have kept : ∀ (words before : List Word),
      words.foldl (fun kept w => kept.filter (fun o => o.name != w.name) ++ [w]) before =
        before.filter (fun o => !words.any fun w => w.name == o.name) ++ standing words := by
    intro words
    induction words with
    | nil => simp [standing]
    | cons w rest ih =>
      intro before
      rw [List.foldl_cons, ih, List.filter_append, List.filter_filter, standing]
      have both : before.filter (fun o => (!rest.any fun w' => w'.name == o.name) &&
          o.name != w.name) = before.filter fun o => !(w :: rest).any fun w' => w'.name == o.name :=
        List.filter_congr fun o _ => by
          rw [List.any_cons, Bool.not_or, Bool.and_comm, bne, Bool.beq_comm]
      rw [both, List.append_assoc]
      by_cases replaced : rest.any fun o => o.name == w.name
      · simp [replaced]
      · simp [replaced]
  rw [lastDeclared, kept]
  rfl

/-- A name stands for the last word that was declared under it. -/
theorem find?_standing (name : String) (words : List Word) :
    (standing words).find? (fun w => w.name == name) =
      words.reverse.find? fun w => w.name == name := by
  induction words with
  | nil => rfl
  | cons w rest ih =>
    rw [standing, List.reverse_cons, List.find?_append, ← ih]
    by_cases replaced : rest.any fun o => o.name == w.name
    · rw [if_pos replaced]
      by_cases is : w.name = name
      · obtain ⟨o, inside, same⟩ := List.any_eq_true.mp replaced
        have found : ((standing rest).find? fun w => w.name == name).isSome := by
          rw [ih, List.find?_isSome]
          exact ⟨o, List.mem_reverse.mpr inside, is ▸ same⟩
        rw [Option.or_of_isSome found]
      · rw [List.find?_singleton, if_neg (by simpa using is), Option.or_none]
    · rw [if_neg replaced, List.find?_cons]
      by_cases is : w.name = name
      · have missing : (standing rest).find? (fun w => w.name == name) = none := by
          rw [ih, List.find?_eq_none]
          intro o inside same
          exact replaced (List.any_eq_true.mpr ⟨o, List.mem_reverse.mp inside, is ▸ same⟩)
        simp [is, missing]
      · have other : (w.name == name) = false := by simpa using is
        simp [other]

/-- The words that stand are among those that are declared. -/
theorem mem_of_mem_standing {w : Word} {words : List Word} (stands : w ∈ standing words) :
    w ∈ words := by
  induction words with
  | nil => cases stands
  | cons o rest ih =>
    rw [standing] at stands
    split at stands
    · exact .tail _ (ih stands)
    · rcases List.mem_cons.mp stands with rfl | later
      · exact .head _
      · exact .tail _ (ih later)

/-- A word that stands is what its name stands for. -/
theorem find?_of_mem_standing {w : Word} {words : List Word} (stands : w ∈ standing words) :
    (standing words).find? (fun o => o.name == w.name) = some w := by
  induction words with
  | nil => cases stands
  | cons o rest ih =>
    rw [standing] at stands ⊢
    split at stands
    next replaced =>
      rw [if_pos replaced]
      exact ih stands
    next last =>
      rw [if_neg last]
      rcases List.mem_cons.mp stands with rfl | later
      · simp
      · have other : (o.name == w.name) = false := by
          refine Bool.eq_false_iff.mpr fun same => last (List.any_eq_true.mpr ⟨w, ?_, ?_⟩)
          · exact mem_of_mem_standing later
          · rwa [Bool.beq_comm]
        rw [List.find?_cons, other]
        exact ih later

/-- Declare a word in two places: it comes last and is what its name stands for, and the word that
the name stood for goes. -/
def declare (r : Directory Word) (w : Word) : Directory Word where
  order := (if (r.byName w.name).isSome then r.order.filter fun o => o.name != w.name
    else r.order) ++ [w]
  byName := Function.update r.byName w.name (some w)

/-- A word that is declared last stands, and no other one of its name does. -/
theorem standing_concat (words : List Word) (w : Word) :
    standing (words ++ [w]) = (standing words).filter (fun o => o.name != w.name) ++ [w] := by
  rw [← lastDeclared_eq_standing, ← lastDeclared_eq_standing, lastDeclared, lastDeclared,
    List.foldl_concat]

/-- Words that are declared one after the other in two places are those that stand, and a name
stands for the last word that was declared under it. -/
theorem declareAll_eq (words : List Word) : words.foldl declare .empty =
    ⟨standing words, fun name => words.reverse.find? fun w => w.name == name⟩ := by
  induction words using List.reverseRecOn with
  | nil => rfl
  | append_singleton words w ih =>
    rw [List.foldl_concat, ih, declare, standing_concat]
    congr 1
    · split
      next => rfl
      next missing =>
        have none : ∀ o ∈ standing words, (o.name != w.name) = true := by
          intro o stands
          have other := List.find?_eq_none.mp (Option.not_isSome_iff_eq_none.mp missing) o
            (List.mem_reverse.mpr (mem_of_mem_standing stands))
          simpa using other
        rw [List.filter_eq_self.mpr none]
    · funext name
      rw [List.reverse_concat, List.find?_cons]
      by_cases here : name = w.name
      · subst here
        simp
      · have other : (w.name == name) = false := by simpa using Ne.symm here
        rw [Function.update_of_ne here, other]

/-- No two words that stand have the same name. -/
theorem standing_nodup (words : List Word) : ((standing words).map Word.name).Nodup := by
  induction words with
  | nil => exact List.nodup_nil
  | cons w rest ih =>
    rw [standing]
    split
    · exact ih
    next last =>
      refine List.nodup_cons.mpr ⟨fun again => last ?_, ih⟩
      obtain ⟨o, stands, same⟩ := List.mem_map.mp again
      exact List.any_eq_true.mpr ⟨o, mem_of_mem_standing stands, by simp [same]⟩

namespace Vocabulary

variable {declared : List Word} {v : Vocabulary} {op : Operator} {builder : SetBuilder}

/-- The operators of a vocabulary are its words for operators. -/
theorem mem_operators : op ∈ v.operators ↔ .operator op ∈ v.words := by
  rw [operators, List.mem_filterMap]
  constructor
  · rintro ⟨w, listed, is⟩
    cases w <;> cases is
    exact listed
  · exact fun listed => ⟨_, listed, rfl⟩

/-- The set builders of a vocabulary are its words for set builders. -/
theorem mem_setBuilders : builder ∈ v.setBuilders ↔ .setBuilder builder ∈ v.words := by
  rw [setBuilders, List.mem_filterMap]
  constructor
  · rintro ⟨w, listed, is⟩
    cases w <;> cases is
    exact listed
  · exact fun listed => ⟨_, listed, rfl⟩

/-- Where the words stand, a name is looked up as the word that stands for it. -/
theorem lookup_eq_some_iff (words : v.words = standing declared) {name : String} {w : Word} :
    v.lookup name = some w ↔ w ∈ v.words ∧ w.name = name := by
  rw [lookup, words]
  constructor
  · intro found
    exact ⟨List.mem_of_find?_eq_some found, by simpa using List.find?_some found⟩
  · rintro ⟨stands, rfl⟩
    exact find?_of_mem_standing stands

/-- A set builder's membership word is binary if a binary operator of this name stands. -/
theorem hasMember_iff (words : v.words = standing declared) :
    v.hasMember builder = true ↔
      ∃ op, .operator op ∈ v.words ∧ op.constant.name = builder.member ∧ op.arity = 2 := by
  simp only [hasMember, operator?, Option.any_eq_true, Option.bind_eq_some_iff,
    lookup_eq_some_iff words, beq_iff_eq]
  constructor
  · rintro ⟨op, ⟨w, ⟨stands, named⟩, is⟩, binary⟩
    cases w with
    | operator op' =>
      cases is
      exact ⟨op, stands, named, binary⟩
    | _ => cases is
  · rintro ⟨op, stands, named, binary⟩
    exact ⟨op, ⟨_, ⟨stands, named⟩, rfl⟩, binary⟩

/-- The tokens of a precedence table: those that are always there and then the operators. -/
def tokensOf (words : List Word) : List Ranked :=
  fixedTokens ++ (words.filterMap Word.operator?).map Operator.ranked

/-- The set builder's membership word is not a binary operator that stands. -/
def Unseparated (words : List Word) (builder : SetBuilder) : Prop :=
  ∀ op, .operator op ∈ words → op.constant.name = builder.member → op.arity ≠ 2

/-- What making a vocabulary of some words that stand comes to: tokens that clash, a set builder
without a membership operator, or the vocabulary. -/
inductive Making (words : List Word) : Except Failure Vocabulary → Prop
  | clash {a b : Ranked} (first : a ∈ tokensOf words) (second : b ∈ tokensOf words)
    (same : a.precedence = b.precedence) (differ : a.assoc ≠ b.assoc) :
    Making words (.error (.precedence b.precedence a.token b.token a.assoc b.assoc))
  | unseparated {builder : SetBuilder} (orderly : ¬Clashing (tokensOf words))
    (stands : .setBuilder builder ∈ words) (unseparated : Unseparated words builder) :
    Making words (.error (.memberNotBinary builder.constant.name builder.member))
  | made {levels : List Level} (table : Tabulates (tokensOf words) levels)
    (separated : ∀ builder, .setBuilder builder ∈ words → ¬Unseparated words builder) :
    Making words (.ok ⟨words, levels⟩)

/-- Making a vocabulary comes to one of these, for the words that stand. -/
theorem ofWords_making (declared : List Word) : Making (standing declared) (ofWords declared) := by
  have tabling : Tabling (tokensOf (standing declared))
      (levelsOf ((standing declared).filterMap Word.operator?)) := levelsOf_tabling _
  rw [ofWords, lastDeclared_eq_standing]
  cases made : levelsOf ((standing declared).filterMap Word.operator?) with
  | error failure =>
    rw [made] at tabling
    cases tabling with
    | clash first second same differ => exact .clash first second same differ
  | ok levels =>
    rw [made] at tabling
    cases tabling with
    | table is =>
      have separates : ∀ builder, hasMember ⟨standing declared, levels⟩ builder = true ↔
          ¬Unseparated (standing declared) builder := by
        intro builder
        rw [hasMember_iff rfl, Unseparated]
        push Not
        rfl
      have listed : ∀ builder, builder ∈ setBuilders ⟨standing declared, levels⟩ ↔
          .setBuilder builder ∈ standing declared := fun _ => mem_setBuilders
      dsimp only [bind, Except.bind]
      split
      next none =>
        refine .made is fun builder stands => (separates builder).mp ?_
        simpa using List.find?_eq_none.mp none builder ((listed builder).mpr stands)
      next builder found =>
        have unbound := List.find?_some found
        refine .unseparated is.not_clashing
          ((listed builder).mp (List.mem_of_find?_eq_some found)) ?_
        by_contra separated
        rw [(separates builder).mpr separated] at unbound
        cases unbound

/-- The words of a vocabulary that was made are those that stand. -/
theorem ofWords_words (made : ofWords declared = .ok v) : v.words = standing declared := by
  have making := ofWords_making declared
  rw [made] at making
  cases making
  rfl

/-- The words of a vocabulary are among those it was made of. -/
theorem mem_ofWords (made : ofWords declared = .ok v) {w : Word} (member : w ∈ v.words) :
    w ∈ declared :=
  mem_of_mem_standing (ofWords_words made ▸ member)

/-- Operators of one precedence group alike in every vocabulary that could be made. -/
theorem operators_alike (made : ofWords declared = .ok v) {op' : Operator}
    (known : op ∈ v.operators) (known' : op' ∈ v.operators)
    (same : op.precedence = op'.precedence) : op.assoc = op'.assoc := by
  have making := ofWords_making declared
  rw [made] at making
  cases making with
  | made table =>
    by_contra differ
    have ranked : ∀ {o : Operator}, o ∈ (standing declared).filterMap Word.operator? →
        o.ranked ∈ tokensOf (standing declared) := fun listed =>
      List.mem_append_right _ (List.mem_map_of_mem listed)
    exact table.not_clashing ⟨op.ranked, ranked known, op'.ranked, ranked known', same, differ⟩

/-- The vocabulary of some declarations has the words that stand, a table that is kept beside them
gives what a name is looked up as, and it has a precedence table of their tokens. Making it fails
first if two tokens clash, and then if a set builder that stands has a membership word that no
binary operator that stands is named by. -/
theorem ofWords_exact (declared : List Word) :
    ((∃ level first second assoc assoc', ofWords declared =
        .error (.precedence level first second assoc assoc')) ↔
      Clashing (tokensOf (standing declared))) ∧
    (¬Clashing (tokensOf (standing declared)) →
      ((∃ failure, ofWords declared = .error failure) ↔
        ∃ builder, .setBuilder builder ∈ standing declared ∧
          Unseparated (standing declared) builder)) ∧
    ∀ v, ofWords declared = .ok v → v.words = standing declared ∧
      (∀ name, v.lookup name = declared.reverse.find? fun w => w.name == name) ∧
      (∀ name w, v.lookup name = some w ↔ w ∈ v.words ∧ w.name = name) ∧
      declared.foldl declare .empty = ⟨v.words, v.lookup⟩ ∧
      Tabulates (tokensOf (standing declared)) v.levels := by
  have making := ofWords_making declared
  generalize ofWords declared = result at making
  cases making with
  | clash first second same differ =>
    have clashing : Clashing (tokensOf (standing declared)) := ⟨_, first, _, second, same, differ⟩
    exact ⟨iff_of_true ⟨_, _, _, _, _, rfl⟩ clashing, absurd clashing, nofun⟩
  | unseparated orderly stands unseparated =>
    exact ⟨iff_of_false (by simp) orderly,
      fun _ => iff_of_true ⟨_, rfl⟩ ⟨_, stands, unseparated⟩, nofun⟩
  | made table separated =>
    refine ⟨iff_of_false (by simp) table.not_clashing, fun _ => iff_of_false (by simp) ?_, ?_⟩
    · rintro ⟨builder, stands, unseparated⟩
      exact separated builder stands unseparated
    · rintro v ⟨⟩
      refine ⟨rfl, fun name => find?_standing name declared, fun name w => lookup_eq_some_iff rfl,
        ?_, table⟩
      rw [declareAll_eq]
      exact congrArg _ (funext fun name => (find?_standing name declared).symm)

end Vocabulary

end Turnstile
