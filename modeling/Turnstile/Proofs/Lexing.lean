import Mathlib.Data.List.Forall2
import Turnstile.Proofs.Reading

/-!
# Cutting what was written

A text that was put together from tokens is cut into these tokens again, provided that nothing comes
after an identifier that would continue it. Where tokens stand does not matter here: a token without
its position is a piece.
-/

namespace Turnstile

/-- A token without its position. -/
abbrev Piece := TokenKind × String

/-- A token's kind and spelling. -/
def Token.piece (token : Token) : Piece := (token.kind, token.text)

namespace Formula

/-- A name that is one identifier: the equality sign, or a letter or an underscore followed by
letters, digits and underscores. -/
def Identifier (name : String) : Prop :=
  name = "=" ∨ ∃ c rest, name.toList = c :: rest ∧ isNameStart c = true ∧
    ∀ d ∈ rest, isNamePart d = true

instance : DecidablePred Identifier := fun name =>
  decidable_of_iff (name = "=" ∨ name.toList.head?.any isNameStart = true ∧
      name.toList.tail.all isNamePart = true) <| by
    rw [Identifier]
    cases name.toList <;> simp

/-- The rest of a text does not continue an identifier. -/
def Apart (rest : List Char) : Prop := ∀ c ∈ rest.head?, isNamePart c = false

/-- Whatever follows that is fit to follow, the text before it is cut into these pieces. -/
def Cuts (fit : List Char → Prop) (cs : List Char) (pieces : List Piece) : Prop :=
  ∀ p rest, fit rest → ∃ ts q, ts.map Token.piece = pieces ∧
    tokensFrom 0 p (cs ++ rest) = (ts ++ ·) <$> tokensFrom 0 q rest

/-- Anything may follow. -/
def Anything (_ : List Char) : Prop := True

variable {fit fit' : List Char → Prop} {cs cs' : List Char} {pieces pieces' : List Piece}
  {c : Char}

/-- What begins with another character stands apart from a name. -/
theorem apart_cons (foreign : isNamePart c = false) (rest : List Char) : Apart (c :: rest) := by
  intro d first
  obtain rfl : c = d := by simpa using first
  exact foreign

/-- If one text is cut into pieces before what the other begins with, then both texts together are
cut into the pieces of both. -/
theorem Cuts.append (first : Cuts fit cs pieces) (second : Cuts fit' cs' pieces')
    (meets : ∀ rest, fit' rest → fit (cs' ++ rest)) :
    Cuts fit' (cs ++ cs') (pieces ++ pieces') := by
  intro p rest follows
  obtain ⟨ts, q, here, cut⟩ := first p (cs' ++ rest) (meets rest follows)
  obtain ⟨ts', q', there, cut'⟩ := second q rest follows
  refine ⟨ts ++ ts', q', by rw [List.map_append, here, there], ?_⟩
  rw [List.append_assoc, cut, cut']
  cases tokensFrom 0 q' rest with
  | error failure => rfl
  | ok more => exact congrArg Except.ok (List.append_assoc ts ts' more).symm

/-- What is cut whatever follows is cut before what stands apart from a name. -/
theorem Cuts.strict (cuts : Cuts Anything cs pieces) : Cuts Apart cs pieces :=
  fun p rest _ => cuts p rest trivial

/-- A text that is cut whatever follows may stand before any other. -/
theorem Cuts.join (first : Cuts Anything cs pieces) (second : Cuts fit' cs' pieces') :
    Cuts fit' (cs ++ cs') (pieces ++ pieces') :=
  first.append second fun _ _ => trivial

/-! ## Pieces -/

/-- Nothing is cut into no pieces. -/
theorem cuts_nil : Cuts Anything [] [] := by
  intro p rest _
  refine ⟨[], p, rfl, ?_⟩
  rw [List.nil_append]
  cases tokensFrom 0 p rest <;> rfl

/-- A blank separates pieces and is none. -/
theorem cuts_blank : Cuts Anything [' '] [] := by
  intro p rest _
  refine ⟨[], p.after ' ', rfl, ?_⟩
  have blank : Text.isBlank ' ' = true := by decide
  rw [List.singleton_append, tokensFrom, if_pos blank]
  cases tokensFrom 0 (p.after ' ') rest <;> rfl

/-- The characters of a token after its first one are passed over. -/
theorem tokensFrom_skip (cs rest : List Char) :
    ∀ p, tokensFrom cs.length p (cs ++ rest) = tokensFrom 0 (p.afterAll cs) rest := by
  induction cs with
  | nil => exact fun p => rfl
  | cons c cs ih =>
    intro p
    rw [List.length_cons, List.cons_append, tokensFrom, ih]
    rfl

/-- What the front of a text is recognised as is cut off it. -/
theorem cuts_front {kind : TokenKind} (solid : Text.isBlank c = false)
    (front : ∀ rest, fit rest → frontToken? (c :: cs ++ rest) = some (kind, c :: cs)) :
    Cuts fit (c :: cs) [(kind, String.ofList (c :: cs))] := by
  intro p rest follows
  refine ⟨[⟨kind, String.ofList (c :: cs), p⟩], (p.after c).afterAll cs, rfl, ?_⟩
  have found := front rest follows
  rw [List.cons_append] at found ⊢
  rw [tokensFrom, if_neg (by simp [solid]), found]
  simp only [List.length_cons, Nat.add_sub_cancel, tokensFrom_skip]
  cases tokensFrom 0 ((p.after c).afterAll cs) rest <;> rfl

/-- An opening parenthesis is a token. -/
theorem cuts_leftParen : Cuts Anything ['('] [(.leftParen, "(")] :=
  cuts_front (by decide) fun _ _ => rfl

/-- A closing parenthesis is a token. -/
theorem cuts_rightParen : Cuts Anything [')'] [(.rightParen, ")")] :=
  cuts_front (by decide) fun _ _ => rfl

/-- An opening brace is a token. -/
theorem cuts_leftBrace : Cuts Anything ['\x7b'] [(.leftBrace, "\x7b")] :=
  cuts_front (by decide) fun _ _ => rfl

/-- A closing brace is a token. -/
theorem cuts_rightBrace : Cuts Anything ['\x7d'] [(.rightBrace, "\x7d")] :=
  cuts_front (by decide) fun _ _ => rfl

/-- A comma is a token. -/
theorem cuts_comma : Cuts Anything [','] [(.comma, ",")] :=
  cuts_front (by decide) fun _ _ => rfl

/-- A dot is a token. -/
theorem cuts_dot : Cuts Anything ['.'] [(.dot, ".")] :=
  cuts_front (by decide) fun _ _ => rfl

/-- A backslash is a token. -/
theorem cuts_backslash : Cuts Anything ['\\'] [(.backslash, "\\")] :=
  cuts_front (by decide) fun _ _ => rfl

/-- A bar is one if it does not begin a turnstile. -/
theorem cuts_bar : Cuts Anything ['|', ' '] [(.bar, "|")] := by
  have bar : Cuts (fun rest => rest.head? = some ' ') ['|'] [(.bar, "|")] := by
    refine cuts_front (by decide) fun rest follows => ?_
    obtain ⟨rest', rfl⟩ : ∃ rest', rest = ' ' :: rest' := by
      cases rest with
      | nil => cases follows
      | cons c rest' => exact ⟨rest', by rw [Option.some.inj follows]⟩
    rfl
  exact bar.append cuts_blank fun _ _ => rfl

/-- The turnstile is a token of two characters. -/
theorem cuts_turnstile : Cuts Anything ['|', '-'] [(.turnstile, "|-")] :=
  cuts_front (by decide) fun _ _ => rfl

/-- A question mark is a token. -/
theorem cuts_question : Cuts Anything ['?'] [(.question, "?")] :=
  cuts_front (by decide) fun _ _ => rfl

/-- An arrow is a token of two characters. -/
theorem cuts_arrow : Cuts Anything ['-', '>'] [(.arrow, "->")] :=
  cuts_front (by decide) fun _ _ => rfl

/-! ## Identifiers -/

/-- The characters of a name are taken up to what stands apart from it. -/
theorem takeWhile_parts {parts rest : List Char} (all : ∀ d ∈ parts, isNamePart d = true)
    (apart : Apart rest) : (parts ++ rest).takeWhile isNamePart = parts := by
  rw [List.takeWhile_append_of_pos all]
  cases rest with
  | nil => simp
  | cons c rest => simp [apart c rfl]

/-- No character is both a letter and a blank. -/
theorem letters_not_blank : Text.letterSpans.all (fun letters => Text.blankSpans.all fun blanks =>
    decide (letters.2 < blanks.1 ∨ blanks.2 < letters.1)) = true := by
  decide +kernel

/-- Letters are the characters of the letter spans. -/
theorem covers_of_isLetter (letter : Text.isLetter c = true) :
    Text.covers Text.letterSpans c.toNat = true := by
  rw [Text.isLetter] at letter
  split at letter
  next =>
    rcases Bool.or_eq_true_iff.mp letter with upper | lower
    · obtain ⟨low, high⟩ : 'A'.val ≤ c.val ∧ c.val ≤ 'Z'.val := of_decide_eq_true upper
      rw [UInt32.le_iff_toNat_le] at low high
      exact Text.covers_iff.mpr ⟨(0x41, 0x5a), List.mem_cons_self, low, high⟩
    · obtain ⟨low, high⟩ : decide ('a'.val ≤ c.val) = true ∧ decide (c.val ≤ 'z'.val) = true :=
        Bool.and_eq_true_iff.mp lower
      rw [decide_eq_true_iff, UInt32.le_iff_toNat_le] at low high
      exact Text.covers_iff.mpr
        ⟨(0x61, 0x7a), List.mem_cons_of_mem _ List.mem_cons_self, low, high⟩
  next => exact letter

/-- No blank begins a name. -/
theorem solid_of_isNameStart (start : isNameStart c = true) : Text.isBlank c = false := by
  rw [Bool.eq_false_iff]
  intro blank
  rcases Bool.or_eq_true_iff.mp start with underscore | letter
  · obtain rfl := of_decide_eq_true underscore
    exact absurd blank (by decide)
  · obtain ⟨letters, listed, low, high⟩ := Text.covers_iff.mp (covers_of_isLetter letter)
    obtain ⟨blanks, listed', low', high'⟩ := Text.covers_iff.mp blank
    have apart := of_decide_eq_true (List.all_eq_true.mp
      (List.all_eq_true.mp letters_not_blank letters listed) blanks listed')
    omega

/-- An identifier is a plain name. -/
theorem Identifier.plain {name : String} (identifier : Identifier name) : isPlain name = true := by
  rcases identifier with rfl | ⟨c, parts, spelled, start, all⟩
  · decide
  · have first : isNamePart c = true := by simp [isNamePart, start]
    rw [isPlain, spelled, List.all_eq_true]
    intro d inside
    rcases List.mem_cons.mp inside with rfl | later
    · simp [first]
    · simp [all d later]

/-- An identifier is one token where what follows stands apart from it. -/
theorem cuts_identifier {name : String} (identifier : Identifier name) :
    Cuts Apart name.toList [(.identifier, name)] := by
  rcases identifier with rfl | ⟨c, parts, spelled, start, all⟩
  · exact cuts_front (by decide) fun _ _ => rfl
  · have same : name = String.ofList (c :: parts) := by rw [← spelled, String.ofList_toList]
    have cut : Cuts Apart (c :: parts) [(.identifier, String.ofList (c :: parts))] :=
      cuts_front (solid_of_isNameStart start) fun rest apart => by
        rw [List.cons_append, frontToken?, if_pos start, takeWhile_parts all apart]
    rwa [← spelled, String.ofList_toList] at cut

/-- Identifiers that were cut off a text are identifiers. -/
theorem frontToken?_identifier {cs spelling : List Char} {kind : TokenKind}
    (found : frontToken? cs = some (kind, spelling)) (is : kind = .identifier) :
    Identifier (String.ofList spelling) := by
  cases cs with
  | nil => cases found
  | cons c rest =>
    rw [frontToken?] at found
    split at found
    next start =>
      obtain ⟨-, rfl⟩ := Prod.ext_iff.mp (Option.some.inj found)
      refine .inr ⟨c, _, String.toList_ofList .., start, fun d inside => ?_⟩
      exact List.all_eq_true.mp List.all_takeWhile d inside
    next =>
      obtain ⟨entry, listed, same⟩ := Option.map_eq_some_iff.mp found
      have known := List.mem_of_find?_eq_some listed
      cases same
      simp only [punctuation, List.mem_cons, List.not_mem_nil, or_false] at known
      rcases known with rfl | rfl | rfl | rfl | rfl | rfl | rfl | rfl | rfl | rfl | rfl | rfl | rfl
      all_goals first | exact .inl rfl | cases is

/-- The identifiers among the tokens of a text are identifiers. -/
theorem tokensFrom_identifiers {cs : List Char} : ∀ {skip : Nat} {p : Position}
    {tokens : List Token}, tokensFrom skip p cs = .ok tokens →
      Spelled ⟨Identifier, True⟩ tokens := by
  induction cs with
  | nil =>
    intro skip p tokens read
    have last : tokens = [⟨.endOfInput, "", p⟩] := by
      cases skip <;> (rw [tokensFrom] at read; cases read; rfl)
    rw [last]
    intro token member
    rw [List.mem_singleton.mp member]
    refine ⟨fun is => ?_, fun _ => trivial⟩
    cases is
  | cons c rest ih =>
    intro skip p tokens read
    cases skip with
    | succ skip =>
      rw [tokensFrom] at read
      exact ih read
    | zero =>
      rw [tokensFrom] at read
      split at read
      · exact ih read
      · split at read
        next => cases read
        next kind spelling found =>
          obtain ⟨others, further, read⟩ := bind_ok read
          cases read
          intro token member
          rcases List.mem_cons.mp member with rfl | inside
          · exact ⟨frontToken?_identifier found, fun _ => trivial⟩
          · exact ih further token inside

/-- A text that was put together from pieces is cut into these, with the end of the text after
them. -/
theorem tokens_of_cuts {text : String} (cuts : Cuts Apart text.toList pieces) :
    ∃ ts p, ts.map Token.piece = pieces ∧ tokens text = .ok (ts ++ [⟨.endOfInput, "", p⟩]) := by
  have nothing : Apart [] := by simp [Apart]
  obtain ⟨ts, q, here, cut⟩ := cuts Position.start [] nothing
  rw [List.append_nil] at cut
  exact ⟨ts, q, here, cut⟩

/-! ## Separated parts -/

/-- Pieces with commas between them. -/
def commas : List (List Piece) → List Piece
  | [] => []
  | [first] => first
  | first :: rest => first ++ (.comma, ",") :: commas rest

/-- Texts that are cut are cut when they are joined by commas. -/
theorem cuts_commas {texts : List String} {parts : List (List Piece)}
    (cuts : List.Forall₂ (fun text pieces => Cuts Apart text.toList pieces) texts parts) :
    Cuts Apart (", ".intercalate texts).toList (commas parts) := by
  induction cuts with
  | nil => exact cuts_nil.strict
  | @cons text pieces texts parts first rest ih =>
    cases rest with
    | nil => rwa [String.intercalate_singleton]
    | cons second rest =>
      rw [String.intercalate_cons_cons, String.toList_append, String.toList_append]
      have separator := (cuts_comma.join cuts_blank).join ih
      rw [List.append_assoc]
      exact first.append separator fun rest' _ => apart_cons (by decide) _

end Formula

end Turnstile
