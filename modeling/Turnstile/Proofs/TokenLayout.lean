import Turnstile.Proofs.Lexing

/-!
# Where tokens stand

A text is laid out as tokens with blanks between them: every token is spelled where it stands, and
nothing but blanks stands between one token and the next. An identifier is as long as it can be, and
so is a token of another kind. A text is cut into the tokens that it is laid out as, or only its
beginning is laid out so, and the character that comes after it is no blank and begins no token.

The place of a token is that of the text before it. It is found by going over the text character by
character, but it can be told from the text before it as a whole: its size in bytes, the number of
its line ends, and the number of characters after the last of these.
-/

namespace Turnstile

/-! ## Places -/

namespace Position

/-- The place after a text: how many bytes the text has, one more than it has line ends, and one
more than the number of characters after the last line end. -/
def afterText (before : List Char) : Position where
  offset := (String.ofList before).utf8ByteSize
  line := 1 + before.count '\n'
  column := 1 + (before.reverse.takeWhile (· ≠ '\n')).length

/-- The position after a text and one more character. -/
theorem afterText_concat (before : List Char) (c : Char) :
    afterText (before ++ [c]) = (afterText before).after c := by
  have size : (String.ofList (before ++ [c])).utf8ByteSize =
      (String.ofList before).utf8ByteSize + c.utf8Size := by
    rw [String.ofList_append, String.utf8ByteSize_append]
    simp
  rw [after]
  split
  next ends =>
    subst ends
    exact Position.mk.injEq .. ▸ ⟨size, by simp [afterText, Nat.add_assoc], by simp⟩
  next inside =>
    have other : c ≠ '\n' := inside
    exact Position.mk.injEq .. ▸ ⟨size, by simp [afterText, other, List.count_append],
      by simp [afterText, other, Nat.add_assoc]⟩

/-- Going over some more characters leads to the place after them. -/
theorem afterAll_afterText (cs : List Char) : ∀ before,
    (afterText before).afterAll cs = afterText (before ++ cs) := by
  induction cs with
  | nil => exact fun before => by rw [List.append_nil]; rfl
  | cons c rest ih =>
    intro before
    rw [List.append_cons, ← ih, afterText_concat]
    rfl

end Position

namespace Formula

/-! ## Layouts -/

/-- What begins with a token of a kind: its spelling, and what follows it. -/
inductive Front : TokenKind → List Char → List Char → Prop
  /-- An identifier that nothing continues. -/
  | identifier {c : Char} {parts rest : List Char} (begins : isNameStart c = true)
    (continues : ∀ d ∈ parts, isNamePart d = true) (ends : Apart rest) :
    Front .identifier (c :: parts) rest
  /-- A token with a fixed spelling, the longest that there is. -/
  | fixed {kind : TokenKind} {spelling rest : List Char} (listed : (spelling, kind) ∈ punctuation)
    (longest : ∀ entry ∈ punctuation, entry.1 <+: spelling ++ rest →
      entry.1.length ≤ spelling.length) :
    Front kind spelling rest

/-- Neither a blank nor a token begins with a character. -/
structure Unknown (c : Char) (rest : List Char) : Prop where
  /-- It is no blank. -/
  solid : Text.isBlank c = false
  /-- It does not begin an identifier. -/
  nameless : isNameStart c = false
  /-- It does not begin a token with a fixed spelling. -/
  unlisted : ∀ entry ∈ punctuation, ¬entry.1 <+: c :: rest

/-- After some text, a text is laid out as tokens with blanks before and between them, up to a place
where other text begins. -/
inductive Lays : (before text : List Char) → List Token → (before' rest : List Char) → Prop
  /-- There are blanks only. -/
  | blanks {before gap rest : List Char} (blank : ∀ c ∈ gap, Text.isBlank c = true) :
    Lays before (gap ++ rest) [] (before ++ gap) rest
  /-- A token comes after blanks. -/
  | token {before gap spelling rest before' rest' : List Char} {kind : TokenKind}
    {tokens : List Token} (blank : ∀ c ∈ gap, Text.isBlank c = true)
    (front : Front kind spelling rest)
    (later : Lays (before ++ gap ++ spelling) rest tokens before' rest') :
    Lays before (gap ++ (spelling ++ rest))
      (⟨kind, String.ofList spelling, .afterText (before ++ gap)⟩ :: tokens) before' rest'

variable {c : Char} {before before' text rest rest' spelling : List Char} {kind : TokenKind}
  {ts : List Token}

/-- No tokens lie between a place and itself. -/
theorem lays_nil (before rest : List Char) : Lays before rest [] before rest := by
  have lays : Lays before ([] ++ rest) [] (before ++ []) rest := .blanks (by simp)
  rwa [List.append_nil] at lays

/-- Blanks in front change nothing. -/
theorem Lays.blank (lays : Lays (before ++ [c]) text ts before' rest)
    (blank : Text.isBlank c = true) : Lays before (c :: text) ts before' rest := by
  cases lays with
  | @blanks _ gap _ all =>
    have more : Lays before (c :: gap ++ rest) [] (before ++ c :: gap) rest :=
      .blanks (by simpa [blank])
    simpa using more
  | @token _ gap spelling rest _ _ kind ts all front later =>
    have more : Lays before (c :: gap ++ (spelling ++ rest))
        (⟨kind, String.ofList spelling, .afterText (before ++ c :: gap)⟩ :: ts) before' _ :=
      .token (by simpa [blank]) front (by simpa using later)
    simpa using more

/-- What is laid out is a text that is passed over. -/
theorem Lays.passes (lays : Lays before text ts before' rest) :
    before ++ text = before' ++ rest := by
  induction lays with
  | blanks blank => simp
  | token blank front later ih => simpa using ih

/-- Every token is spelled where it stands, after the text before it. -/
theorem Lays.located (lays : Lays before text ts before' rest) : ∀ token ∈ ts,
    ∃ front back, before ++ text = front ++ (token.text.toList ++ back) ∧
      token.position = .afterText front := by
  induction lays with
  | blanks blank => simp
  | @token before gap spelling rest _ _ kind ts blank front later ih =>
    refine List.forall_mem_cons.mpr ⟨⟨before ++ gap, rest, by simp, rfl⟩, fun token inside => ?_⟩
    obtain ⟨start, back, whole, place⟩ := ih token inside
    exact ⟨start, back, by simpa using whole, place⟩

/-- A token at the front is not the end of the input. -/
theorem Front.kind_ne (front : Front kind spelling rest) : kind ≠ .endOfInput := by
  cases front with
  | identifier => exact TokenKind.noConfusion
  | fixed listed =>
    have kinds : ∀ entry ∈ punctuation, entry.2 ≠ .endOfInput := by decide
    exact kinds _ listed

/-- No token in the text marks its end. -/
theorem Lays.kind_ne (lays : Lays before text ts before' rest) :
    ∀ token ∈ ts, token.kind ≠ .endOfInput := by
  induction lays with
  | blanks blank => simp
  | token blank front later ih => exact List.forall_mem_cons.mpr ⟨front.kind_ne, ih⟩

/-! ## What a text begins with -/

/-- What is left after dropping the characters of a name stands apart from it. -/
theorem apart_dropWhile (cs : List Char) : Apart (cs.dropWhile isNamePart) := by
  intro c first
  have last := List.head?_dropWhile_not isNamePart cs
  rw [Option.mem_def.mp first] at last
  exact last

/-- The spellings stand in such an order that the first one that fits is the longest. -/
theorem punctuation_longest :
    punctuation.Pairwise fun entry entry' => entry'.1.length ≤ entry.1.length := by
  decide

/-- What is found at the front of a text is a token at its front. -/
theorem frontToken?_front {cs : List Char} (found : frontToken? cs = some (kind, spelling)) :
    ∃ rest, cs = spelling ++ rest ∧ Front kind spelling rest := by
  cases cs with
  | nil => cases found
  | cons c cs =>
    rw [frontToken?] at found
    split at found
    next begins =>
      cases found
      refine ⟨cs.dropWhile isNamePart, ?_, .identifier begins ?_ (apart_dropWhile cs)⟩
      · rw [List.cons_append, List.takeWhile_append_dropWhile]
      · exact fun d inside => List.all_eq_true.mp List.all_takeWhile d inside
    next =>
      obtain ⟨⟨spelling, kind⟩, first, is⟩ := Option.map_eq_some_iff.mp found
      cases is
      obtain ⟨fits, earlier, later, all, none⟩ := List.find?_eq_some_iff_append.mp first
      obtain ⟨rest, whole⟩ := List.isPrefixOf_iff_prefix.mp fits
      refine ⟨rest, whole.symm, .fixed (by simp [all]) fun entry listed begins => ?_⟩
      rw [whole] at begins
      have order := punctuation_longest
      rw [all] at order listed
      rcases List.mem_append.mp listed with before | after
      · have unfit := none entry before
        rw [List.isPrefixOf_iff_prefix.mpr begins] at unfit
        cases unfit
      · rcases List.mem_cons.mp after with rfl | after
        · exact Nat.le_refl _
        · exact (List.pairwise_cons.mp (List.pairwise_append.mp order).2.1).1 entry after

/-- Where nothing is found at the front, the character is unknown. -/
theorem frontToken?_unknown {cs : List Char} (solid : Text.isBlank c = false)
    (none : frontToken? (c :: cs) = none) : Unknown c cs := by
  rw [frontToken?] at none
  split at none
  next => cases none
  next nameless =>
    refine ⟨solid, by simpa using nameless, fun entry listed begins => ?_⟩
    have unfit := List.find?_eq_none.mp (Option.map_eq_none_iff.mp none) entry listed
    exact unfit (List.isPrefixOf_iff_prefix.mpr begins)

/-! ## Cutting a text -/

/-- What cutting a text after some other text comes to: the tokens that it is laid out as and one
for its end, or the place of a character that begins nothing, where the text before it is laid out
as tokens. -/
inductive Cutting (before text : List Char) : Except Failure (List Token) → Prop
  | whole {ts : List Token} (lays : Lays before text ts (before ++ text) []) :
    Cutting before text (.ok (ts ++ [⟨.endOfInput, "", .afterText (before ++ text)⟩]))
  | stuck {ts : List Token} {before' rest : List Char} {c : Char}
    (lays : Lays before text ts before' (c :: rest)) (unknown : Unknown c rest) :
    Cutting before text (.error (.malformed (.afterText before') (.unexpectedChar c)))

/-- A blank is passed over. -/
theorem Cutting.blank {result : Except Failure (List Token)}
    (cutting : Cutting (before ++ [c]) text result) (blank : Text.isBlank c = true) :
    Cutting before (c :: text) result := by
  cases cutting with
  | whole lays =>
    rw [← List.append_cons] at lays ⊢
    exact .whole (lays.blank blank)
  | stuck lays unknown => exact .stuck (lays.blank blank) unknown

/-- A token is cut off. -/
theorem Cutting.token {result : Except Failure (List Token)}
    (cutting : Cutting (before ++ spelling) rest result) (front : Front kind spelling rest) :
    Cutting before (spelling ++ rest)
      ((⟨kind, String.ofList spelling, .afterText before⟩ :: ·) <$> result) := by
  have lays : ∀ {ts before' rest'}, Lays (before ++ spelling) rest ts before' rest' →
      Lays before (spelling ++ rest)
        (⟨kind, String.ofList spelling, .afterText before⟩ :: ts) before' rest' := by
    intro ts before' rest' later
    have more : Lays before ([] ++ (spelling ++ rest))
        (⟨kind, String.ofList spelling, .afterText (before ++ [])⟩ :: ts) before' rest' :=
      .token (by simp) front (by simpa using later)
    simpa using more
  cases cutting with
  | whole later =>
    rw [List.append_assoc] at later ⊢
    exact .whole (lays later)
  | stuck later unknown => exact .stuck (lays later) unknown

/-- A token at the front begins with the first character. -/
theorem Front.cons {cs : List Char} (front : Front kind spelling rest)
    (whole : c :: cs = spelling ++ rest) : ∃ parts, spelling = c :: parts ∧ cs = parts ++ rest := by
  have some : spelling ≠ [] := by
    cases front with
    | identifier => simp
    | fixed listed =>
      have spelled : ∀ entry ∈ punctuation, entry.1 ≠ [] := by decide
      exact spelled _ listed
  obtain ⟨first, parts, rfl⟩ := List.exists_cons_of_ne_nil some
  obtain ⟨rfl, rfl⟩ := List.cons.inj whole
  exact ⟨parts, rfl, rfl⟩

/-- Cutting what comes after some text comes to one of these. -/
theorem tokensFrom_cutting : ∀ text before : List Char,
    Cutting before text (tokensFrom 0 (.afterText before) text)
  | [], before => by
    have lays := lays_nil before []
    rw [← List.append_nil before] at lays
    have whole : Cutting before [] (.ok ([] ++ [_])) := .whole (by simpa using lays)
    simpa [tokensFrom] using whole
  | c :: cs, before => by
    rw [tokensFrom]
    split
    next blank =>
      rw [← Position.afterText_concat]
      exact (tokensFrom_cutting cs (before ++ [c])).blank blank
    next solid =>
      split
      next none =>
        exact .stuck (lays_nil before _) (frontToken?_unknown (by simpa using solid) none)
      next kind spelling found =>
        obtain ⟨rest, whole, front⟩ := frontToken?_front found
        obtain ⟨parts, is, split⟩ := front.cons whole
        have shorter : rest.length < (c :: cs).length := by
          rw [split, List.length_cons, List.length_append]
          omega
        have later := (tokensFrom_cutting rest (before ++ spelling)).token front
        rw [← Position.afterAll_afterText] at later
        subst is split
        rw [List.length_cons, Nat.add_sub_cancel, tokensFrom_skip]
        exact later
  termination_by text => text.length

/-- Either a text is cut into tokens and one more that marks its end: the text is laid out as these
tokens, and each is spelled in the text where it stands. Or the text is laid out as tokens only up
to a character that is no blank and begins no token, and this character and its place are reported.
The place of a token, of the end and of the character is the place after the text before it. -/
theorem tokens_exact (text : String) :
    (∃ ts, tokens text = .ok (ts ++ [⟨.endOfInput, "", .afterText text.toList⟩]) ∧
      (∀ token ∈ ts, token.kind ≠ .endOfInput) ∧
      (∀ token ∈ ts, ∃ front back, text.toList = front ++ (token.text.toList ++ back) ∧
        token.position = .afterText front) ∧
      Lays [] text.toList ts text.toList []) ∨
    ∃ before c rest ts, tokens text =
        .error (.malformed (.afterText before) (.unexpectedChar c)) ∧
      text.toList = before ++ c :: rest ∧ Unknown c rest ∧
      Lays [] text.toList ts before (c :: rest) := by
  have cutting : Cutting [] text.toList (tokens text) := tokensFrom_cutting text.toList []
  generalize tokens text = result at cutting
  cases cutting with
  | whole lays => exact .inl ⟨_, rfl, lays.kind_ne, lays.located, lays⟩
  | stuck lays unknown => exact .inr ⟨_, _, _, _, rfl, lays.passes, unknown, lays⟩

end Formula

end Turnstile
