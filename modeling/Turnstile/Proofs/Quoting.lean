import Mathlib.Tactic.Ring
import Turnstile.PlanText.Reader
import Turnstile.Proofs.Reports

/-!
# Quoted octet strings

An octet string is written as glyphs between double quotes, each glyph being one character that
stands for itself or one escape. What is written is read back as the same bytes, also where they are
no text; and the lexer of plan text, which only looks for the closing quote, finds the end of it
without a complaint.
-/

namespace Turnstile.Text

/-! ## Bytes and glyphs -/

namespace Octets

variable {first : UInt8} {rest : List UInt8} {c : Char} {n : Nat}

/-- The encoding of a character in bytes. -/
theorem ofChar_eq (c : Char) : ofChar c = String.utf8EncodeChar c := by
  have encoded : (String.singleton c).toUTF8 = (String.utf8EncodeChar c).toByteArray :=
    String.toByteArray_singleton.trans List.utf8Encode_singleton
  rw [ofChar, encoded, ByteArray.toList, toList_loop]
  simp

/-- The number of a valid character is the one that it was made of. -/
theorem val_ofNat (valid : n.isValidChar) : (Char.ofNat n).val.toNat = n := by
  rw [Char.ofNat, dif_pos valid]
  rfl

/-- A byte is made of its number. -/
theorem byte_eq {b : UInt8} (same : n = b.toNat) : UInt8.ofNat n = b := by
  rw [same, UInt8.ofNat_toNat]

/-- Characters below 0x80 are one byte. -/
theorem ofChar_one (small : n < 0x80) : ofChar (Char.ofNat n) = [UInt8.ofNat n] := by
  rw [ofChar_eq, String.utf8EncodeChar, val_ofNat (.inl (by omega)), if_pos (by omega)]

/-- Characters below 0x800 are two bytes. -/
theorem ofChar_two (low : 0x80 ≤ n) (high : n < 0x800) : ofChar (Char.ofNat n) =
    [UInt8.ofNat (n / 64 % 32 + 192), UInt8.ofNat (n % 64 + 128)] := by
  rw [ofChar_eq, String.utf8EncodeChar, val_ofNat (.inl (by omega)), if_neg (by omega),
    if_pos (by omega)]

/-- Other characters below 0x10000 are three bytes. -/
theorem ofChar_three (valid : n.isValidChar) (low : 0x800 ≤ n) (high : n < 0x10000) :
    ofChar (Char.ofNat n) = [UInt8.ofNat (n / 4096 % 16 + 224), UInt8.ofNat (n / 64 % 64 + 128),
      UInt8.ofNat (n % 64 + 128)] := by
  rw [ofChar_eq, String.utf8EncodeChar, val_ofNat valid, if_neg (by omega), if_neg (by omega),
    if_pos (by omega)]

/-- All others are four bytes. -/
theorem ofChar_four (low : 0x10000 ≤ n) (high : n < 0x110000) : ofChar (Char.ofNat n) =
    [UInt8.ofNat (n / 262144 % 8 + 240), UInt8.ofNat (n / 4096 % 64 + 128),
      UInt8.ofNat (n / 64 % 64 + 128), UInt8.ofNat (n % 64 + 128)] := by
  rw [ofChar_eq, String.utf8EncodeChar, val_ofNat (.inr ⟨by omega, by omega⟩), if_neg (by omega),
    if_neg (by omega), if_neg (by omega)]

/-- The bytes that go on a character lie from 0x80 to 0xbf. -/
theorem isContinuation_iff {b : UInt8} :
    isContinuation b = true ↔ 0x80 ≤ b.toNat ∧ b.toNat ≤ 0xbf := by
  simp [isContinuation, UInt8.le_iff_toNat_le]

/-- The second byte of three is bounded further after 0xe0 and 0xed. -/
theorem secondOfThree_bounds {b : UInt8} (allowed : secondOfThree first b = true) :
    (0x80 ≤ b.toNat ∧ b.toNat ≤ 0xbf) ∧ (first.toNat = 0xe0 → 0xa0 ≤ b.toNat) ∧
      (first.toNat = 0xed → b.toNat ≤ 0x9f) := by
  rw [secondOfThree] at allowed
  split at allowed
  next is =>
    obtain rfl := eq_of_beq is
    simp [UInt8.le_iff_toNat_le] at allowed ⊢
    omega
  next other =>
    split at allowed
    next is =>
      obtain rfl := eq_of_beq is
      simp [UInt8.le_iff_toNat_le] at allowed ⊢
      omega
    next other' =>
      rw [beq_iff_eq, ← UInt8.toNat_inj] at other other'
      exact ⟨isContinuation_iff.mp allowed, fun is => absurd is other, fun is => absurd is other'⟩

/-- The second byte of four is bounded further after 0xf0 and 0xf4. -/
theorem secondOfFour_bounds {b : UInt8} (allowed : secondOfFour first b = true) :
    (0x80 ≤ b.toNat ∧ b.toNat ≤ 0xbf) ∧ (first.toNat = 0xf0 → 0x90 ≤ b.toNat) ∧
      (first.toNat = 0xf4 → b.toNat ≤ 0x8f) := by
  rw [secondOfFour] at allowed
  split at allowed
  next is =>
    obtain rfl := eq_of_beq is
    simp [UInt8.le_iff_toNat_le] at allowed ⊢
    omega
  next other =>
    split at allowed
    next is =>
      obtain rfl := eq_of_beq is
      simp [UInt8.le_iff_toNat_le] at allowed ⊢
      omega
    next other' =>
      rw [beq_iff_eq, ← UInt8.toNat_inj] at other other'
      exact ⟨isContinuation_iff.mp allowed, fun is => absurd is other, fun is => absurd is other'⟩

end Octets

/-- The bytes of a glyph. -/
def Glyph.bytes : Glyph → List UInt8
  | .char c => Octets.ofChar c
  | .stray byte => [byte]

namespace Octets

/-- A glyph stands for the bytes that it was read from. -/
theorem front_bytes (first : UInt8) (rest : List UInt8) :
    (front first rest).1.bytes = first :: rest.take (front first rest).2 := by
  fun_cases front first rest with
  | case1 =>
    rename_i small
    rw [UInt8.lt_iff_toNat_lt] at small
    change ofChar _ = _
    rw [ofChar_one small, UInt8.ofNat_toNat]
    rfl
  | case2 =>
    rename_i two b _ continues
    simp only [Bool.and_eq_true, decide_eq_true_eq, UInt8.le_iff_toNat_le, UInt8.reduceToNat]
      at two
    have ⟨low, high⟩ := isContinuation_iff.mp continues
    change ofChar _ = [first, b]
    rw [payload, ofChar_two (by omega) (by omega)]
    simp only [List.cons.injEq, and_true]
    exact ⟨byte_eq (by omega), byte_eq (by omega)⟩
  | case5 =>
    rename_i three b c _ continue_
    simp only [Bool.and_eq_true, decide_eq_true_eq, UInt8.le_iff_toNat_le, UInt8.reduceToNat]
      at three continue_
    have ⟨⟨low, high⟩, short, surrogate⟩ := secondOfThree_bounds continue_.1
    have ⟨low', high'⟩ := isContinuation_iff.mp continue_.2
    change ofChar _ = [first, b, c]
    rw [payload, payload, ofChar_three (by rw [Nat.isValidChar]; omega) (by omega) (by omega)]
    simp only [List.cons.injEq, and_true]
    exact ⟨byte_eq (by omega), byte_eq (by omega), byte_eq (by omega)⟩
  | case8 =>
    rename_i four b c d _ continue_
    simp only [Bool.and_eq_true, decide_eq_true_eq, UInt8.le_iff_toNat_le, UInt8.reduceToNat]
      at four continue_
    have ⟨⟨low, high⟩, short, long⟩ := secondOfFour_bounds continue_.1.1
    have ⟨low', high'⟩ := isContinuation_iff.mp continue_.1.2
    have ⟨low'', high''⟩ := isContinuation_iff.mp continue_.2
    change ofChar _ = [first, b, c, d]
    rw [payload, payload, payload, ofChar_four (by omega) (by omega)]
    simp only [List.cons.injEq, and_true]
    exact ⟨byte_eq (by omega), byte_eq (by omega), byte_eq (by omega), byte_eq (by omega)⟩
  | case3 | case4 | case6 | case7 | case9 | case10 | case11 => rfl

/-- The glyphs of some bytes are made of these bytes. -/
theorem glyphsAfter_bytes (bytes : List UInt8) :
    ∀ skip, (glyphsAfter skip bytes).flatMap Glyph.bytes = bytes.drop skip := by
  induction bytes with
  | nil => simp [glyphsAfter]
  | cons first rest ih =>
    rintro (_ | skip)
    · rw [glyphsAfter, List.flatMap_cons, ih, front_bytes, List.cons_append,
        List.take_append_drop, List.drop_zero]
    · rw [glyphsAfter, ih, List.drop_succ_cons]

/-- The glyphs of an octet string stand for its bytes. -/
theorem glyphs_bytes (octets : Octets) : octets.glyphs.flatMap Glyph.bytes = octets.bytes :=
  glyphsAfter_bytes octets.bytes 0

end Octets

/-! ## Escapes -/

variable {c quote : Char} {rest : List Char} {n width rounds : Nat}

/-- Digits to base sixteen stand for their values. -/
theorem digitValue?_digitChar : ∀ digit < 16,
    digitValue? 16 (Nat.digitChar digit) = some digit := by
  decide

/-- So many hexadecimal digits are written as were asked for. -/
theorem length_hexDigits (width n : Nat) : (hexDigits width n).length = width := by
  induction width generalizing n with
  | zero => rfl
  | succ width ih => rw [hexDigits, List.length_append, ih, List.length_singleton]

/-- They are digits to base sixteen. -/
theorem digits_hexDigits : ∀ d ∈ hexDigits width n, ∃ digit < 16, d = Nat.digitChar digit := by
  induction width generalizing n with
  | zero => exact List.forall_mem_nil _
  | succ width ih =>
    intro d inside
    rcases List.mem_append.mp inside with earlier | last
    · exact ih d earlier
    · exact ⟨n % 16, Nat.mod_lt _ (by decide), List.mem_singleton.mp last⟩

/-- Reading goes on with the number that the digits spell after those before them. -/
theorem takeDigits?_hexDigits (width : Nat) : ∀ (n more value : Nat) (rest : List Char),
    takeDigits? 16 (width + more) value (hexDigits width n ++ rest) =
      takeDigits? 16 more (value * 16 ^ width + n % 16 ^ width) rest := by
  induction width with
  | zero => simp [hexDigits, Nat.mod_one]
  | succ width ih =>
    intro n more value rest
    have digit := digitValue?_digitChar (n % 16) (Nat.mod_lt _ (by decide))
    have number : (value * 16 ^ width + n / 16 % 16 ^ width) * 16 + n % 16 =
        value * 16 ^ (width + 1) + n % 16 ^ (width + 1) := by
      rw [Nat.pow_succ, Nat.mul_comm (16 ^ width) 16, Nat.mod_mul]
      ring
    rw [hexDigits, List.append_assoc, List.singleton_append, Nat.add_right_comm, Nat.add_assoc, ih,
      takeDigits?, digit, Option.bind_some, number]

/-- They are read as the number that they were written for. -/
theorem takeDigits?_number (small : n < 16 ^ width) (rest : List Char) :
    takeDigits? 16 width 0 (hexDigits width n ++ rest) = some (n, rest) := by
  have read := takeDigits?_hexDigits width n 0 0 rest
  rwa [Nat.add_zero, Nat.zero_mul, Nat.zero_add, Nat.mod_eq_of_lt small, takeDigits?] at read

/-! ## Reading back -/

/-- Characters that are read as one escape or character, which stands for some bytes. -/
def Spells (cs : List Char) (bytes : List UInt8) : Prop :=
  ∀ rounds rest, unquoteInside? (rounds + 1) (cs ++ rest) =
    (unquoteInside? rounds rest).map (bytes ++ ·)

/-- A backslash and what it escapes spell the escaped bytes. -/
theorem spells_escape {escape : List Char} {bytes : List UInt8}
    (reads : ∀ rest, escaped? (escape ++ rest) = some (bytes, rest)) :
    Spells ('\\' :: escape) bytes := by
  intro rounds rest
  rw [List.cons_append, unquoteInside?]
  simp [reads]

/-- An ordinary character spells its bytes. -/
theorem spells_self (apart : c ≠ '"' ∧ c ≠ '\n' ∧ c ≠ '\\') : Spells [c] (Octets.ofChar c) := by
  intro rounds rest
  simp [unquoteInside?, apart]

/-- The encoding of a character below 128. -/
theorem ofChar_ascii (ascii : c.toNat < 0x80) : Octets.ofChar c = [UInt8.ofNat c.toNat] := by
  rw [← Octets.ofChar_one ascii, Char.ofNat_toNat]

/-- The letter of a control character spells it after a backslash. -/
theorem spells_control {letter : Char} (control : controlLetter? c = some letter) :
    Spells ['\\', letter] (Octets.ofChar c) := by
  rw [controlLetter?] at control
  split at control <;> cases control
  all_goals
    rename_i is
    rw [ofChar_ascii (by rw [is]; decide), is]
    exact spells_escape fun _ => rfl

/-- A code point in as many digits as `escaped?` looks for. -/
theorem scalar_number (c : Char) (small : c.toNat < 16 ^ width) (rest : List Char) :
    (takeDigits? 16 width 0 (hexDigits width c.toNat ++ rest)).bind escaped?.scalar =
      some (Octets.ofChar c, rest) := by
  rw [takeDigits?_number small, Option.bind_some, escaped?.scalar,
    if_pos (show c.toNat.isValidChar from c.valid), Char.ofNat_toNat]

/-- Two hexadecimal digits spell a byte. -/
theorem spells_byte (byte : UInt8) : Spells ('\\' :: 'x' :: hexDigits 2 byte.toNat) [byte] := by
  refine spells_escape fun rest => ?_
  have small : byte.toNat < 16 ^ 2 := byte.toNat_lt
  change (takeDigits? 16 2 0 (hexDigits 2 byte.toNat ++ rest)).map _ = _
  rw [takeDigits?_number small]
  exact congrArg (fun byte => some ([byte], rest)) UInt8.ofNat_toNat

/-- A character that is escaped where necessary spells its bytes. -/
theorem spells_escapeChar (c : Char) : Spells (escapeChar '"' c) (Octets.ofChar c) := by
  fun_cases escapeChar '"' c with
  | case1 =>
    rename_i special
    have special : c = '"' ∨ c = '\\' := by simpa using special
    rcases special with rfl | rfl <;> rw [ofChar_ascii (by decide)] <;>
      exact spells_escape fun _ => rfl
  | case2 =>
    rename_i plain printable
    have plain : c ≠ '"' ∧ c ≠ '\\' := by simpa using plain
    refine spells_self ⟨plain.1, ?_, plain.2⟩
    rintro rfl
    exact absurd printable (by decide)
  | case3 =>
    rename_i control
    exact spells_control control
  | case4 =>
    rename_i low
    have low : c.toNat < 0x20 ∨ c.toNat = 0x7f := by simpa using low
    have byte := spells_byte (UInt8.ofNat c.toNat)
    rw [UInt8.toNat_ofNat_of_lt' (show c.toNat < 256 by omega)] at byte
    rwa [ofChar_ascii (by omega)]
  | case5 =>
    rename_i small
    exact spells_escape fun rest => scalar_number c small rest
  | case6 =>
    have bound := c.val.toNat_lt
    exact spells_escape fun rest => scalar_number c bound rest

/-- A glyph that is escaped where necessary spells its bytes. -/
theorem spells_escapeGlyph (glyph : Glyph) : Spells (escapeGlyph glyph) glyph.bytes := by
  cases glyph with
  | char c => exact spells_escapeChar c
  | stray byte => exact spells_byte byte

/-- Every glyph is written with some character. -/
theorem length_escapeGlyph (glyph : Glyph) : 0 < (escapeGlyph glyph).length := by
  cases glyph with
  | char c =>
    change 0 < (escapeChar '"' c).length
    fun_cases escapeChar '"' c <;> exact Nat.succ_pos _
  | stray byte => exact Nat.succ_pos _

/-- Glyphs are written with at least one character each. -/
theorem length_glyphs (glyphs : List Glyph) :
    glyphs.length ≤ (glyphs.flatMap escapeGlyph).length := by
  induction glyphs with
  | nil => exact Nat.le_refl 0
  | cons glyph glyphs ih =>
    have some := length_escapeGlyph glyph
    rw [List.flatMap_cons, List.length_append, List.length_cons]
    omega

/-- Escaped glyphs up to a closing quote are read as their bytes. -/
theorem unquoteInside?_glyphs (glyphs : List Glyph) : ∀ rounds, glyphs.length < rounds →
    unquoteInside? rounds (glyphs.flatMap escapeGlyph ++ ['"']) =
      some (glyphs.flatMap Glyph.bytes) := by
  induction glyphs with
  | nil =>
    intro rounds enough
    obtain ⟨rounds, rfl⟩ : ∃ n, rounds = n + 1 := ⟨rounds - 1, by omega⟩
    rfl
  | cons glyph glyphs ih =>
    intro rounds enough
    rw [List.length_cons] at enough
    obtain ⟨rounds, rfl⟩ : ∃ n, rounds = n + 1 := ⟨rounds - 1, by omega⟩
    rw [List.flatMap_cons, List.append_assoc, spells_escapeGlyph, ih rounds (by omega)]
    rfl

/-- What is quoted is read back. -/
theorem unquote?_quoteOctets (octets : Octets) : unquote? (quoteOctets octets) = some octets := by
  have inside : octets.glyphs.length < (octets.glyphs.flatMap escapeGlyph ++ ['"']).length := by
    rw [List.length_append]
    exact Nat.lt_succ_of_le (length_glyphs octets.glyphs)
  rw [unquote?, quoteOctets, String.toList_ofList]
  simp only [List.cons_append]
  rw [unquoteInside?_glyphs _ _ inside, Octets.glyphs_bytes]
  rfl

end Turnstile.Text

namespace Turnstile.PlanText

open Text

/-! ## Finding the closing quote -/

variable {c : Char} {passed width n : Nat}

/-- Characters that a string goes on after without a complaint. -/
def Inside (cs : List Char) : Prop := ∀ passed rest,
  stringExtent passed .plain (cs ++ rest) = stringExtent (passed + cs.length) .plain rest

/-- After its last digit an escape is over. -/
theorem stringExtent_digits_zero (base passed : Nat) (cs : List Char) :
    stringExtent passed (.digits base 0) cs = stringExtent passed .plain cs := by
  cases cs <;> rfl

/-- A character that breaks nothing off and is no complaint is passed over. -/
theorem stringExtent_proceed {state state' : StringState}
    (moves : stringMove state c = (false, .proceed state')) (passed : Nat) (rest : List Char) :
    stringExtent passed state (c :: rest) = stringExtent (passed + 1) state' rest := by
  rw [stringExtent, moves]
  rfl

/-- A backslash in a string begins an escape. -/
theorem stringExtent_backslash (passed : Nat) (rest : List Char) :
    stringExtent passed .plain ('\\' :: rest) = stringExtent (passed + 1) .escape rest :=
  stringExtent_proceed rfl passed rest

/-- Digits of an escape are passed over. -/
theorem stringExtent_digits (ds : List Char) (digits : ∀ d ∈ ds, (digitValue? 16 d).isSome = true) :
    ∀ passed rest, stringExtent passed (.digits 16 ds.length) (ds ++ rest) =
      stringExtent (passed + ds.length) .plain rest := by
  induction ds with
  | nil => exact fun passed rest => stringExtent_digits_zero 16 passed rest
  | cons d ds ih =>
    intro passed rest
    obtain ⟨digit, digits⟩ := List.forall_mem_cons.mp digits
    have moves : stringMove (.digits 16 (ds.length + 1)) d =
        (false, .proceed (.digits 16 ds.length)) := if_pos digit
    rw [List.cons_append, List.length_cons, stringExtent_proceed moves, ih digits, Nat.add_assoc,
      Nat.add_comm 1]

/-- A letter that announces hexadecimal digits and the digits after it stay inside of a string. -/
theorem inside_hexDigits {letter : Char} (announces : stringMove .escape letter =
    (false, .proceed (.digits 16 width))) (n : Nat) :
    Inside ('\\' :: letter :: hexDigits width n) := by
  intro passed rest
  have digits : ∀ d ∈ hexDigits width n, (digitValue? 16 d).isSome = true := by
    intro d inside
    obtain ⟨digit, small, rfl⟩ := digits_hexDigits d inside
    rw [digitValue?_digitChar digit small, Option.isSome_some]
  have read := stringExtent_digits _ digits (passed + 1 + 1) rest
  rw [length_hexDigits] at read
  rw [List.cons_append, List.cons_append, stringExtent_backslash,
    stringExtent_proceed announces, read, List.length_cons, List.length_cons, length_hexDigits]
  congr 1
  omega

/-- A letter that is escaped alone stays inside of a string. -/
theorem inside_escape {letter : Char}
    (named : stringMove .escape letter = (false, .proceed .plain)) : Inside ['\\', letter] := by
  intro passed rest
  rw [List.cons_append, List.cons_append, stringExtent_backslash,
    stringExtent_proceed named]
  rfl

/-- A character that is escaped where necessary stays inside of a string. -/
theorem inside_escapeChar (c : Char) : Inside (escapeChar '"' c) := by
  fun_cases escapeChar '"' c with
  | case1 =>
    rename_i special
    have special : c = '"' ∨ c = '\\' := by simpa using special
    rcases special with rfl | rfl <;> exact inside_escape rfl
  | case2 =>
    rename_i plain printable
    have plain : c ≠ '"' ∧ c ≠ '\\' := by simpa using plain
    have line : c ≠ '\n' := by
      rintro rfl
      exact absurd printable (by decide)
    have moves : stringMove .plain c = (false, .proceed .plain) := by
      simp [stringMove, plainMove, plain, line]
    exact fun passed rest => stringExtent_proceed moves passed rest
  | case3 =>
    rename_i control
    refine inside_escape ?_
    rw [controlLetter?] at control
    split at control <;> cases control <;> rfl
  | case4 => exact inside_hexDigits rfl c.toNat
  | case5 => exact inside_hexDigits rfl c.toNat
  | case6 => exact inside_hexDigits rfl c.toNat

/-- So does a glyph. -/
theorem inside_escapeGlyph (glyph : Glyph) : Inside (escapeGlyph glyph) := by
  cases glyph with
  | char c => exact inside_escapeChar c
  | stray byte => exact inside_hexDigits rfl byte.toNat

/-- The end of escaped glyphs is found, and there is nothing to complain about. -/
theorem stringExtent_glyphs (glyphs : List Glyph) (rest : List Char) : ∀ passed,
    stringExtent passed .plain (glyphs.flatMap escapeGlyph ++ '"' :: rest) =
      (passed + (glyphs.flatMap escapeGlyph).length + 1, []) := by
  induction glyphs with
  | nil => exact fun passed => rfl
  | cons glyph glyphs ih =>
    intro passed
    rw [List.flatMap_cons, List.append_assoc, inside_escapeGlyph, ih, List.length_append,
      Nat.add_assoc passed]

/-- No hexadecimal digit is the null character. -/
theorem null_not_mem_hexDigits (width n : Nat) : '\x00' ∉ hexDigits width n := by
  intro inside
  obtain ⟨digit, small, is⟩ := digits_hexDigits _ inside
  have apart : ∀ digit < 16, '\x00' ≠ Nat.digitChar digit := by decide
  exact apart digit small is

/-- No character is escaped with the null character. -/
theorem null_not_mem_escapeChar (c : Char) : '\x00' ∉ escapeChar '"' c := by
  fun_cases escapeChar '"' c with
  | case1 =>
    rename_i special
    have special : c = '"' ∨ c = '\\' := by simpa using special
    rcases special with rfl | rfl <;> decide
  | case2 =>
    rename_i printable
    intro inside
    obtain rfl := List.mem_singleton.mp inside
    exact absurd printable (by decide)
  | case3 =>
    rename_i control
    rw [controlLetter?] at control
    split at control <;> cases control <;> decide
  | case4 => simp [null_not_mem_hexDigits]
  | case5 => simp [null_not_mem_hexDigits]
  | case6 => simp [null_not_mem_hexDigits]

/-- No null character is written. -/
theorem null_not_mem_quoteOctets (octets : Octets) : '\x00' ∉ (quoteOctets octets).toList := by
  have each : ∀ glyph, '\x00' ∉ escapeGlyph glyph := by
    rintro (c | byte)
    · exact null_not_mem_escapeChar c
    · simp [escapeGlyph, null_not_mem_hexDigits]
  simp [quoteOctets, List.mem_flatMap, each]

end Turnstile.PlanText
