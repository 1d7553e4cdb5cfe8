import Turnstile.Proofs.PlanGrammar
import Turnstile.Proofs.Quoting

/-!
# Cutting what was written of a plan

A phrase is written as text: its literals as they are spelled, its calls as names with the arguments
between parentheses, separated by commas and blanks. The tokens of that text are those that the
phrase is written with, provided that its names are names, that each of its literals is one token
where a comma or a parenthesis follows, and that no null character occurs. Where tokens stand does
not matter, so that a token without its place is a piece here.
-/

namespace Turnstile.PlanText

open Text

/-- A token without its place. -/
abbrev Piece := Kind × String

/-- A token's kind and spelling. -/
def Token.piece (token : Token) : Piece := (token.kind, token.text)

/-- Whatever follows that is fit to follow, the text before it is cut into these pieces without a
complaint. Rounds are counted by the characters that are left. -/
def Scans (fit : List Char → Prop) (cs : List Char) (pieces : List Piece) : Prop :=
  ∀ rounds p rest, fit rest → '\x00' ∉ cs ++ rest → (cs ++ rest).length < rounds →
    ∃ ts rounds' q, ts.map Token.piece = pieces ∧ (∀ t ∈ ts, t.misspelling = none) ∧
      rest.length < rounds' ∧
      tokensFrom rounds none p (cs ++ rest) = ts ++ tokensFrom rounds' none q rest

/-- Anything may follow. -/
def Anything (_ : List Char) : Prop := True

/-- A comma or a closing parenthesis follows. -/
def Delimited (rest : List Char) : Prop :=
  ∃ c rest', rest = c :: rest' ∧ (c = ',' ∨ c = ')')

variable {fit fit' : List Char → Prop} {cs cs' : List Char} {pieces pieces' : List Piece} {c : Char}

/-- Nothing is scanned as no pieces. -/
theorem scans_nil : Scans Anything [] [] := by
  intro rounds p rest _ _ enough
  exact ⟨[], rounds, p, rfl, List.forall_mem_nil _, enough, rfl⟩

/-- If one text is scanned before what the other begins with, then both texts together are scanned
as the pieces of both. -/
theorem Scans.append (first : Scans fit cs pieces) (second : Scans fit' cs' pieces')
    (meets : ∀ rest, fit' rest → fit (cs' ++ rest)) :
    Scans fit' (cs ++ cs') (pieces ++ pieces') := by
  intro rounds p rest follows unwritten enough
  rw [List.append_assoc] at unwritten enough ⊢
  obtain ⟨ts, rounds₁, q, here, spelled, left, cut⟩ :=
    first rounds p (cs' ++ rest) (meets rest follows) unwritten enough
  obtain ⟨ts', rounds₂, q', there, spelled', left', cut'⟩ :=
    second rounds₁ q rest follows (fun inside => unwritten (List.mem_append_right _ inside)) left
  refine ⟨ts ++ ts', rounds₂, q', by rw [List.map_append, here, there],
    List.forall_mem_append.mpr ⟨spelled, spelled'⟩, left', ?_⟩
  rw [cut, cut', List.append_assoc]

/-- What is scanned whatever follows may stand before any other text. -/
theorem Scans.join (first : Scans Anything cs pieces) (second : Scans fit' cs' pieces') :
    Scans fit' (cs ++ cs') (pieces ++ pieces') :=
  first.append second fun _ _ => trivial

/-- What is scanned before some texts is scanned before fewer. -/
theorem Scans.mono (scans : Scans fit cs pieces) (stricter : ∀ rest, fit' rest → fit rest) :
    Scans fit' cs pieces := fun rounds p rest follows =>
  scans rounds p rest (stricter rest follows)

/-! ## Pieces -/

/-- A text without null characters has none to complain about. -/
theorem nulls_eq_nil (unwritten : '\x00' ∉ cs) (count : Nat) : nulls count cs = [] := by
  rw [nulls, List.filterMap_eq_nil_iff]
  rintro ⟨d, i⟩ inside
  have listed := List.mem_zipIdx (List.mem_of_mem_drop inside)
  have member : d ∈ cs := by
    rw [listed.2.2]
    exact List.mem_of_mem_take (List.getElem_mem _)
  have other : d ≠ '\x00' := by
    rintro rfl
    exact unwritten member
  simp [other]

/-- Without an earlier problem the first one counts. -/
theorem earliest_nil (problems : List (Nat × String)) : earliest [] problems = problems.head? := by
  cases problems <;> rfl

/-- A blank in front of a text without null characters only moves the tokens. -/
theorem tokensFrom_blank (unwritten : '\x00' ∉ cs) (rounds : Nat) (known : Option Misspelling)
    (p : Position) : tokensFrom (rounds + 1) known p (' ' :: cs) =
      tokensFrom (rounds + 1) known (p.after ' ') cs := by
  have unwritten' : '\x00' ∉ ' ' :: cs := by simp [unwritten]
  have gap : (' ' :: cs).takeWhile isGap = ' ' :: cs.takeWhile isGap :=
    List.takeWhile_cons_of_pos rfl
  rw [tokensFrom, tokensFrom]
  simp only [gap, List.length_cons, List.drop_succ_cons, nulls_eq_nil unwritten,
    nulls_eq_nil unwritten', earliest_nil, List.head?_map, Option.map_map]
  cases cs.drop (cs.takeWhile isGap).length with
  | nil => rfl
  | cons c rest =>
    have noticed : ∀ i, p.afterAll ((' ' :: cs).take ((cs.takeWhile isGap).length + 1 + i)) =
        (p.after ' ').afterAll (cs.take ((cs.takeWhile isGap).length + i)) := by
      intro i
      rw [Nat.add_right_comm, List.take_succ_cons]
      rfl
    simp only [Function.comp_def, noticed]
    rfl

/-- A blank separates pieces and is none. -/
theorem scans_blank : Scans Anything [' '] [] := by
  intro rounds p rest _ unwritten enough
  obtain ⟨rounds, rfl⟩ : ∃ n, rounds = n + 1 := ⟨rounds - 1, by omega⟩
  have unwritten : '\x00' ∉ rest := fun inside => unwritten (List.mem_append_right _ inside)
  exact ⟨[], rounds + 1, p.after ' ', rfl, List.forall_mem_nil _, Nat.lt_of_succ_lt enough,
    tokensFrom_blank unwritten rounds none p⟩

/-- What the extent of the front of a text is, is cut off it. -/
theorem scans_front {kind : Kind} (solid : isGap c = false)
    (front : ∀ rest, fit rest → extent c (cs ++ rest) = ⟨kind, cs.length + 1, []⟩) :
    Scans fit (c :: cs) [(kind, String.ofList (c :: cs))] := by
  intro rounds p rest follows unwritten enough
  obtain ⟨rounds, rfl⟩ : ∃ n, rounds = n + 1 := ⟨rounds - 1, by omega⟩
  rw [List.cons_append] at unwritten enough ⊢
  have gap : (c :: (cs ++ rest)).takeWhile isGap = [] :=
    List.takeWhile_cons_of_neg (by simp [solid])
  have cut : tokensFrom (rounds + 1) none p (c :: (cs ++ rest)) =
      ⟨kind, String.ofList (c :: cs), p.line, p.column, none⟩ ::
        tokensFrom rounds none (p.afterAll (c :: cs)) rest := by
    rw [tokensFrom]
    simp [gap, front rest follows, nulls_eq_nil unwritten, earliest_nil, Position.afterAll]
  refine ⟨_, rounds, _, rfl, List.forall_mem_singleton.mpr rfl, ?_, cut⟩
  simp at enough
  omega

/-- Any other character is a token of its own. -/
theorem scans_char (solid : isGap c = false) (start : isNameStart c = false)
    (digit : c.isDigit = false) (apart : c ≠ '"' ∧ c ≠ '\x60') :
    Scans Anything [c] [(.char c, String.ofList [c])] := by
  refine scans_front solid fun rest _ => ?_
  simp [extent, start, digit, apart]

/-- An opening parenthesis is a token. -/
theorem scans_open : Scans Anything ['('] [(.char '(', "(")] :=
  scans_char (by decide) (by decide) (by decide) (by decide)

/-- A closing parenthesis is a token. -/
theorem scans_close : Scans Anything [')'] [(.char ')', ")")] :=
  scans_char (by decide) (by decide) (by decide) (by decide)

/-- A comma is a token. -/
theorem scans_comma : Scans Anything [','] [(.char ',', ",")] :=
  scans_char (by decide) (by decide) (by decide) (by decide)

/-! ## Names -/

/-- A name of plan text. -/
def Named (name : String) : Prop :=
  ∃ c rest, name.toList = c :: rest ∧ isNameStart c = true ∧ ∀ d ∈ rest, isNamePart d = true

instance : DecidablePred Named := fun name =>
  decidable_of_iff (name.toList.head?.any isNameStart = true ∧
      name.toList.tail.all isNamePart = true) <| by
    rw [Named]
    cases name.toList <;> simp

/-- A name is a token where a parenthesis follows. -/
theorem scans_name {name : String} (named : Named name) :
    Scans (fun rest => rest.head? = some '(') name.toList [(.name, name)] := by
  obtain ⟨c, parts, spelled, start, all⟩ := named
  have scans : Scans (fun rest => rest.head? = some '(') (c :: parts)
      [(.name, String.ofList (c :: parts))] := by
    refine scans_front ?_ fun rest follows => ?_
    · rw [Bool.eq_false_iff]
      intro gap
      have gap : ((c = '\t' ∨ c = '\n') ∨ c = '\r') ∨ c = ' ' := by simpa [isGap] using gap
      rcases gap with ((rfl | rfl) | rfl) | rfl <;> exact absurd start (by decide)
    · obtain ⟨after, rfl⟩ := List.head?_eq_some_iff.mp follows
      have ends : isNamePart '(' = false := by decide
      rw [extent, if_pos start, List.takeWhile_append_of_pos all,
        List.takeWhile_cons_of_neg (by simp [ends]), List.append_nil, Nat.add_comm]
  rwa [← spelled, String.ofList_toList] at scans

/-! ## Numbers -/

/-- A decimal digit stands for a number below ten. -/
theorem digit_of_isDigit (digit : c.isDigit = true) : ∃ k < 10, c = Nat.digitChar k := by
  have bounds : 48 ≤ c.toNat ∧ c.toNat ≤ 57 := by
    simpa [Char.isDigit, UInt32.le_iff_toNat_le] using digit
  refine ⟨c.toNat - 48, by omega, ?_⟩
  have each : ∀ k < 10, (Nat.digitChar k).toNat = 48 + k := by decide
  rw [← Char.toNat_inj, each _ (by omega)]
  omega

/-- The characters of a number in plan text. -/
structure Digit (c : Char) : Prop where
  /-- They are digits. -/
  digit : c.isDigit = true
  /-- They do not begin names. -/
  start : isNameStart c = false
  /-- They do not separate tokens. -/
  solid : isGap c = false
  /-- They have a value. -/
  value : (digitValue? 10 c).isSome = true
  /-- They do not separate digits. -/
  other : c ≠ '_'

/-- A number is written in digits. -/
theorem digit_of_mem_toString {n : Nat} (inside : c ∈ (toString n).toList) : Digit c := by
  have all : ∀ k < 10, (Nat.digitChar k).isDigit = true ∧ isNameStart (Nat.digitChar k) = false ∧
      isGap (Nat.digitChar k) = false ∧ (digitValue? 10 (Nat.digitChar k)).isSome = true ∧
      Nat.digitChar k ≠ '_' := by decide
  obtain ⟨k, small, rfl⟩ := digit_of_isDigit (isDigit_of_mem_repr inside)
  obtain ⟨digit, start, solid, value, other⟩ := all k small
  exact ⟨digit, start, solid, value, other⟩

/-- Only zero is written with a leading zero. -/
theorem head_toDigits (n : Nat) : (Nat.toDigits 10 n).head? = some '0' → n = 0 := by
  induction n using Nat.strongRecOn with
  | ind n ih =>
    intro leading
    rw [Nat.toDigits_eq_if (by decide)] at leading
    split at leading
    next small =>
      have apart : ∀ k < 10, Nat.digitChar k = '0' → k = 0 := by decide
      exact apart n small (Option.some.inj leading)
    next large =>
      rw [List.head?_append_of_ne_nil _ Nat.toDigits_ne_nil] at leading
      have smaller := ih (n / 10) (by omega) leading
      omega

/-- A zero before what delimits a number is a number. -/
theorem numberExtent_zero {rest : List Char} (follows : Delimited rest) :
    numberExtent '0' rest = ⟨.int, 1, []⟩ := by
  obtain ⟨d, rest, rfl, rfl | rfl⟩ := follows <;>
    simp +decide [numberExtent, Radix.announced, Radix.takes]

/-- Digits that do not begin with zero extend to what delimits them. -/
theorem numberExtent_digits {ds rest : List Char} (digits : ∀ d ∈ c :: ds, Digit d)
    (leading : c ≠ '0') (follows : Delimited rest) :
    numberExtent c (ds ++ rest) = ⟨.int, ds.length + 1, []⟩ := by
  have body : (c :: (ds ++ rest)).takeWhile (Radix.takes .decimal) = c :: ds := by
    obtain ⟨d, after, rfl, ends⟩ := follows
    have foreign : Radix.takes .decimal d = false := by rcases ends with rfl | rfl <;> decide
    rw [← List.cons_append, List.takeWhile_append_of_pos,
      List.takeWhile_cons_of_neg (by simp [foreign]),
      List.append_nil]
    exact fun e inside => by simp [Radix.takes, (digits e inside).digit]
  have plain : '_' ∉ c :: ds := fun inside => (digits _ inside).other rfl
  have right : (c :: ds).find? (fun c => c ≠ '_' && (Text.digitValue? 10 c).isNone) = none := by
    rw [List.find?_eq_none]
    exact fun e inside => by simp [Option.isSome_iff_ne_none.mp (digits e inside).value]
  have first := (digits c List.mem_cons_self).other
  rw [numberExtent, Radix.announced, if_pos leading]
  simp only [List.drop_zero, body, Radix.base, right]
  simp [plain, first]

/-- Digits are a token where they are delimited. -/
theorem scans_digits {ds : List Char} (digits : ∀ d ∈ c :: ds, Digit d)
    (leading : c = '0' → ds = []) : Scans Delimited (c :: ds)
      [(.int, String.ofList (c :: ds))] := by
  have first := digits c List.mem_cons_self
  refine scans_front first.solid fun rest follows => ?_
  rw [extent, if_neg (by simp [first.start]), if_pos first.digit]
  by_cases zero : c = '0'
  · obtain rfl := leading zero
    obtain rfl := zero
    exact numberExtent_zero follows
  · exact numberExtent_digits digits zero follows

/-- A written number is a token where it is delimited. -/
theorem scans_number (n : Nat) : Scans Delimited (toString n).toList [(.int, toString n)] := by
  have digits : ∀ d ∈ (toString n).toList, Digit d := fun d inside => digit_of_mem_toString inside
  have leading : (toString n).toList.head? = some '0' → n = 0 := by
    intro first
    rw [show toString n = n.repr from rfl, Nat.toList_repr] at first
    exact head_toDigits n first
  have spelled := String.ofList_toList (s := toString n)
  cases cut : (toString n).toList with
  | nil => 
    rw [show toString n = n.repr from rfl, Nat.toList_repr] at cut
    exact absurd cut Nat.toDigits_ne_nil
  | cons c ds =>
    rw [cut] at digits leading spelled
    rw [← spelled]
    refine scans_digits digits fun zero => ?_
    obtain rfl := leading (congrArg some zero)
    exact (List.cons.inj cut).2.symm

/-- More digits do not make a number smaller. -/
theorem le_ofDigitChars (ds : List Char) : ∀ value, value ≤ Nat.ofDigitChars 10 ds value := by
  induction ds with
  | nil => exact fun value => Nat.le_refl value
  | cons d ds ih =>
    intro value
    rw [Nat.ofDigitChars_cons]
    exact Nat.le_trans (by omega) (ih _)

/-- Digits are read as the number that they stand for if it fits into a word. -/
theorem decimal_ofDigitChars {ds : List Char} : (∀ d ∈ ds, d.isDigit = true) → ∀ {value : Nat},
    Word.fits (Nat.ofDigitChars 10 ds value) = true →
      decimal value ds = .ok (Nat.ofDigitChars 10 ds value) := by
  induction ds with
  | nil => exact fun _ value fits => if_pos fits
  | cons d ds ih =>
    intro digits value fits
    obtain ⟨digit, digits⟩ := List.forall_mem_cons.mp digits
    rw [Nat.ofDigitChars_cons] at fits ⊢
    have small : 10 * value + (d.toNat - '0'.toNat) < 18446744073709551616 := by
      have whole := (Word.fits_iff.mp fits).2
      have below := le_ofDigitChars ds (10 * value + (d.toNat - '0'.toNat))
      rw [Word.largest] at whole
      omega
    rw [decimal, if_pos digit, Nat.mul_comm value 10]
    dsimp only
    rw [if_pos small, ih digits fits]

/-- A number that fits into a word is read as it is written. -/
theorem decimal_toString (n : Nat) (fits : Word.fits n = true) :
    decimal 0 (toString n).toList = .ok n := by
  have number : Nat.ofDigitChars 10 (toString n).toList 0 = n := by
    rw [show toString n = n.repr from rfl, Nat.toList_repr, Nat.ofDigitChars_ten_toDigits]
  have digits : ∀ d ∈ (toString n).toList, d.isDigit = true := fun d inside =>
    isDigit_of_mem_repr inside
  have read := decimal_ofDigitChars digits (number.symm ▸ fits)
  rwa [number] at read

/-! ## Strings and terms -/

/-- A quoted string is a token. -/
theorem scans_string (octets : Octets) :
    Scans Anything (quoteOctets octets).toList [(.string, quoteOctets octets)] := by
  have scans : Scans Anything ('"' :: (octets.glyphs.flatMap escapeGlyph ++ ['"']))
      [(.string, quoteOctets octets)] := by
    refine scans_front (by decide) fun rest _ => ?_
    have quote : isNameStart '"' = false := by decide
    have digit : '"'.isDigit = false := by decide
    rw [List.append_assoc, List.singleton_append, extent]
    simp only [quote, digit, stringExtent_glyphs]
    simp
    omega
  have spelled : (quoteOctets octets).toList =
      '"' :: (octets.glyphs.flatMap escapeGlyph ++ ['"']) := by
    rw [quoteOctets, String.toList_ofList, List.cons_append]
  rwa [spelled]

variable {text : String}

/-- The characters of a text between backquotes. -/
theorem toList_backquoted (text : String) :
    ("`" ++ text ++ "`").toList = '\x60' :: (text.toList ++ ['\x60']) := by
  simp

/-- A text without backquotes between backquotes. -/
theorem scans_backquoted (unquoted : '\x60' ∉ text.toList) :
    Scans Anything ("`" ++ text ++ "`").toList [(.backquoted, "`" ++ text ++ "`")] := by
  have scans : Scans Anything ('\x60' :: (text.toList ++ ['\x60']))
      [(.backquoted, String.ofList ('\x60' :: (text.toList ++ ['\x60'])))] := by
    refine scans_front (by decide) fun rest _ => ?_
    have start : isNameStart '\x60' = false := by decide
    have digit : '\x60'.isDigit = false := by decide
    have body : (text.toList ++ '\x60' :: rest).takeWhile (· ≠ '\x60') = text.toList := by
      rw [List.takeWhile_append_of_pos, List.takeWhile_cons_of_neg (by simp), List.append_nil]
      exact fun d inside => by simpa using fun is : d = '\x60' => unquoted (is ▸ inside)
    rw [List.append_assoc, List.singleton_append, extent, if_neg (by simp [start]),
      if_neg (by simp [digit]), if_neg (by decide), if_pos rfl, backquotedExtent]
    simp only [body]
    rw [if_pos (by simp), List.length_append, List.length_singleton]
  rwa [← toList_backquoted, String.ofList_toList] at scans

/-- A text without backquotes comes out from between them. -/
theorem unbackquoted_quoted (unquoted : '\x60' ∉ text.toList) :
    unbackquoted ("`" ++ text ++ "`") = text := by
  have kept : ∀ {cs : List Char}, '\x60' ∉ cs → cs.dropWhile (· = '\x60') = cs := by
    intro cs apart
    cases cs with
    | nil => rfl
    | cons d cs =>
      have first : d ≠ '\x60' := fun is => apart (is ▸ List.mem_cons_self)
      exact List.dropWhile_cons_of_neg (by simpa using first)
  rw [unbackquoted, toList_backquoted, List.dropWhile_cons_of_pos (by simp)]
  cases spelled : text.toList with
  | nil =>
    obtain rfl : text = "" := String.toList_inj.mp spelled
    rfl
  | cons d cs =>
    rw [spelled] at unquoted
    have first : d ≠ '\x60' := fun is => unquoted (is ▸ List.mem_cons_self)
    have last : '\x60' ∉ (d :: cs).reverse := by rwa [List.mem_reverse]
    rw [List.cons_append, List.dropWhile_cons_of_neg (by simpa using first), ← List.cons_append,
      List.reverse_append, List.reverse_singleton, List.singleton_append,
      List.dropWhile_cons_of_pos (by simp), kept last, List.reverse_reverse, ← spelled,
      String.ofList_toList]

/-! ## Phrases -/

mutual

/-- A phrase as text. -/
def Phrase.text : Phrase → String
  | .literal _ text => text
  | .call name args => name ++ "(" ++ ", ".intercalate (textAll args) ++ ")"

/-- Phrases as texts. -/
def textAll : List Phrase → List String
  | [] => []
  | a :: rest => a.text :: textAll rest

end

mutual

/-- Names are names, and literals are single tokens. -/
def Phrase.Clean : Phrase → Prop
  | .literal kind text =>
    kind.IsLiteral ∧ '\x00' ∉ text.toList ∧ Scans Delimited text.toList [(kind, text)]
  | .call name args => Named name ∧ CleanAll args

/-- Names are names, and literals are single tokens. -/
def CleanAll : List Phrase → Prop
  | [] => True
  | a :: rest => a.Clean ∧ CleanAll rest

end

variable {ts : List Token} {kind : Kind} {word name : String} {more : List Piece}
  {phrase : Phrase} {args : List Phrase}

/-- Tokens whose pieces begin with a piece begin with a token of it. -/
theorem map_piece_eq_cons : ts.map Token.piece = (kind, word) :: more ↔
    ∃ token ts', ts = token :: ts' ∧ token.kind = kind ∧ token.text = word ∧
      ts'.map Token.piece = more := by
  rw [List.map_eq_cons_iff]
  constructor
  · rintro ⟨token, ts', rfl, same, rfl⟩
    exact ⟨token, ts', rfl, congrArg Prod.fst same, congrArg Prod.snd same, rfl⟩
  · rintro ⟨token, ts', rfl, rfl, rfl, rfl⟩
    exact ⟨token, ts', rfl, rfl, rfl⟩

/-- Tokens of one piece are one token. -/
theorem map_piece_eq_singleton : ts.map Token.piece = [(kind, word)] ↔
    ∃ token, ts = [token] ∧ token.kind = kind ∧ token.text = word := by
  rw [map_piece_eq_cons]
  constructor
  · rintro ⟨token, ts', rfl, is, spelled, none⟩
    exact ⟨token, by rw [List.map_eq_nil_iff.mp none], is, spelled⟩
  · rintro ⟨token, rfl, is, spelled⟩
    exact ⟨token, [], rfl, is, spelled, rfl⟩

/-- The tokens of a name with arguments are those of the arguments with the name and parentheses
around them. -/
theorem scans_call {inside : List Char} (named : Named name) (cut : Scans Delimited inside pieces) :
    Scans Anything (name.toList ++ '(' :: (inside ++ [')']))
      ((.name, name) :: (.char '(', "(") :: (pieces ++ [(.char ')', ")")])) := by
  have closed : Scans Anything (inside ++ [')']) (pieces ++ [(.char ')', ")")]) :=
    cut.append scans_close fun rest _ => ⟨')', rest, rfl, .inr rfl⟩
  exact (scans_name named).append (scans_open.join closed) fun rest _ => rfl

mutual

/-- The text of a phrase is cut into the tokens that the phrase is written with. -/
theorem Phrase.Clean.cut : ∀ {phrase : Phrase}, phrase.Clean →
    ∃ pieces, Scans Delimited phrase.text.toList pieces ∧
      ∀ ts : List Token, ts.map Token.piece = pieces → phrase.Written False ts
  | .literal kind text, clean => by
    rw [Phrase.Clean] at clean
    refine ⟨[(kind, text)], by rw [Phrase.text]; exact clean.2.2, fun ts same => ?_⟩
    obtain ⟨token, rfl, is, spelled⟩ := map_piece_eq_singleton.mp same
    exact .of_literal is spelled clean.1
  | .call name args, clean => by
    obtain ⟨pieces, cut, written⟩ := CleanAll.cut_call clean
    exact ⟨pieces, cut.mono fun _ _ => trivial, written⟩

/-- The text of a call is cut into its tokens whatever follows. -/
theorem CleanAll.cut_call {name : String} {args : List Phrase}
    (clean : (Phrase.call name args).Clean) :
    ∃ pieces, Scans Anything (Phrase.call name args).text.toList pieces ∧
      ∀ ts : List Token, ts.map Token.piece = pieces →
        (Phrase.call name args).Written False ts := by
  rw [Phrase.Clean] at clean
  obtain ⟨pieces, cut, written⟩ := CleanAll.cut clean.2
  refine ⟨_, by simpa [Phrase.text] using scans_call clean.1 cut, fun ts same => ?_⟩
  obtain ⟨token, ts, rfl, is, rfl, same₁⟩ := map_piece_eq_cons.mp same
  obtain ⟨opening, ts, rfl, opens, -, same₂⟩ := map_piece_eq_cons.mp same₁
  obtain ⟨inner, ts, rfl, inside, last⟩ := List.map_eq_append_iff.mp same₂
  obtain ⟨closing, rfl, closes, -⟩ := map_piece_eq_singleton.mp last
  exact .call is opens (written inner inside) closes

/-- The texts of phrases, separated by commas, are cut into the tokens of arguments. -/
theorem CleanAll.cut : ∀ {args : List Phrase}, CleanAll args →
    ∃ pieces, Scans Delimited (", ".intercalate (textAll args)).toList pieces ∧
      ∀ ts : List Token, ts.map Token.piece = pieces → WrittenAll False args ts
  | [], _ => by
    refine ⟨[], scans_nil.mono fun _ _ => trivial, fun ts same => ?_⟩
    rw [List.map_eq_nil_iff.mp same]
    exact .none
  | [a], clean => by
    obtain ⟨pieces, cut, written⟩ := Phrase.Clean.cut clean.1
    refine ⟨pieces, ?_, fun ts same => .last (written ts same)⟩
    simpa [textAll] using cut
  | a :: b :: rest, clean => by
    rw [CleanAll] at clean
    obtain ⟨pieces, cut, written⟩ := Phrase.Clean.cut clean.1
    obtain ⟨pieces', cut', written'⟩ := CleanAll.cut clean.2
    refine ⟨pieces ++ (.char ',', ",") :: pieces', ?_, fun ts same => ?_⟩
    · rw [textAll, textAll, String.intercalate_cons_cons, ← textAll, String.toList_append,
        String.toList_append, List.append_assoc]
      exact cut.append (scans_comma.join (scans_blank.join cut')) fun rest _ =>
        ⟨',', _, rfl, .inl rfl⟩
    · obtain ⟨first, ts, rfl, here, same⟩ := List.map_eq_append_iff.mp same
      obtain ⟨comma, ts, rfl, separates, -, same⟩ := map_piece_eq_cons.mp same
      exact .more (written first here) separates (written' ts same) fun none => nomatch none

end

/-! ## Whole texts -/

/-- A name has no null character. -/
theorem Named.null_not_mem (named : Named name) : '\x00' ∉ name.toList := by
  obtain ⟨c, rest, spelled, start, all⟩ := named
  rw [spelled]
  intro inside
  rcases List.mem_cons.mp inside with rfl | later
  · exact absurd start (by decide)
  · exact absurd (all _ later) (by decide)

/-- Texts without null characters are joined without any. -/
theorem null_not_mem_intercalate {texts : List String} (each : ∀ text ∈ texts,
      '\x00' ∉ text.toList) :
    '\x00' ∉ (", ".intercalate texts).toList := by
  induction texts with
  | nil => simp
  | cons text texts ih =>
    obtain ⟨here, later⟩ := List.forall_mem_cons.mp each
    cases texts with
    | nil => simpa using here
    | cons next texts =>
      simp only [String.intercalate_cons_cons, String.toList_append, List.mem_append, not_or]
      exact ⟨⟨here, by decide⟩, ih later⟩

mutual

/-- A clean phrase has no null character. -/
theorem Phrase.Clean.null_not_mem : ∀ {phrase : Phrase}, phrase.Clean → '\x00' ∉ phrase.text.toList
  | .literal kind text, clean => by
    rw [Phrase.Clean] at clean
    rw [Phrase.text]
    exact clean.2.1
  | .call name args, clean => by
    rw [Phrase.Clean] at clean
    have inside := null_not_mem_intercalate (CleanAll.null_not_mem clean.2)
    simp only [Phrase.text, String.toList_append, List.mem_append, not_or]
    exact ⟨⟨⟨clean.1.null_not_mem, by decide⟩, inside⟩, by decide⟩

/-- Clean arguments have no null character. -/
theorem CleanAll.null_not_mem : ∀ {args : List Phrase}, CleanAll args →
    ∀ text ∈ textAll args, '\x00' ∉ text.toList
  | [], _ => List.forall_mem_nil _
  | a :: rest, clean => by
    rw [CleanAll] at clean
    rw [textAll]
    exact List.forall_mem_cons.mpr
      ⟨Phrase.Clean.null_not_mem clean.1, CleanAll.null_not_mem clean.2⟩

end

/-- A text that begins like a name and is cut into pieces whatever follows has these pieces as its
tokens. -/
theorem tokens_of_scans {text : String} {cs : List Char} (spelled : text.toList = c :: cs)
    (start : isNameStart c = true) (unwritten : '\x00' ∉ text.toList)
    (scans : Scans Anything text.toList pieces) :
    ∃ ts stop, ts.map Token.piece = pieces ∧ tokens text = ts ++ [stop] ∧
      stop.kind = .endOfInput ∧ stop.misspelling = none := by
  obtain ⟨ts, rounds, q, same, -, left, cut⟩ :=
    scans (cs.length + 2) .start [] trivial (by simpa using unwritten) (by simp [spelled])
  obtain ⟨rounds, rfl⟩ : ∃ n, rounds = n + 1 := ⟨rounds - 1, by omega⟩
  refine ⟨ts, ⟨.endOfInput, "", q.line, q.column, none⟩, same, ?_, rfl, rfl⟩
  have mark : c ≠ '\ufeff' := by
    rintro rfl
    exact absurd start (by decide +kernel)
  have null : c ≠ '\x00' := by
    rintro rfl
    exact absurd start (by decide)
  rw [List.append_nil, spelled] at cut
  rw [tokens, spelled]
  simp only [mark, if_false, tokens.firstNull, null]
  exact cut

/-- The tokens of a written call are those that the call is written with. -/
theorem tokens_of_clean (clean : (Phrase.call name args).Clean) :
    ∃ ts stop, tokens (Phrase.call name args).text = ts ++ [stop] ∧ stop.kind = .endOfInput ∧
      stop.misspelling = none ∧ (Phrase.call name args).Written False ts := by
  obtain ⟨pieces, cut, written⟩ := CleanAll.cut_call clean
  have unwritten := clean.null_not_mem
  rw [Phrase.Clean] at clean
  obtain ⟨c, rest, spelled, start, -⟩ := clean.1
  obtain ⟨cs, begins⟩ : ∃ cs, (Phrase.call name args).text.toList = c :: cs := by
    simp only [Phrase.text, String.toList_append, spelled, List.cons_append]
    exact ⟨_, rfl⟩
  obtain ⟨ts, stop, same, whole, ends, spelled⟩ := tokens_of_scans begins start unwritten cut
  exact ⟨ts, stop, whole, ends, spelled, written ts same⟩

end Turnstile.PlanText
