/-!
# Octet strings

A quoted string in a plan can spell any bytes, also such that are no text. An octet string keeps
the bytes; `Octets.glyphs` reads them as text, telling a character from a byte that belongs to
none, and `Octets.text` shows the latter as the replacement character.
-/

namespace Turnstile.Text

/-- A string of bytes, usually but not always the encoding of a text. -/
structure Octets where
  /-- The bytes in order. -/
  bytes : List UInt8
  deriving DecidableEq, Repr, Inhabited

/-- One step of reading bytes as text. -/
inductive Glyph where
  /-- A character, from its shortest encoding. -/
  | char (c : Char)
  /-- A byte that belongs to no character. -/
  | stray (byte : UInt8)
  deriving DecidableEq, Repr

namespace Octets

/-- The encoding of a text. -/
def ofString (text : String) : Octets := ⟨text.toUTF8.toList⟩

/-- The encoding of one character. -/
def ofChar (c : Char) : List UInt8 := (String.singleton c).toUTF8.toList

/-- Whether a byte continues a character that began earlier. -/
def isContinuation (byte : UInt8) : Bool := 0x80 ≤ byte && byte ≤ 0xbf

/-- The payload of a continuation byte. -/
def payload (byte : UInt8) : Nat := byte.toNat % 0x40

/-- The second bytes that may follow a first byte of a three-byte character: neither a longer
spelling of a shorter character nor a surrogate. -/
def secondOfThree (first second : UInt8) : Bool :=
  if first == 0xe0 then 0xa0 ≤ second && second ≤ 0xbf
  else if first == 0xed then 0x80 ≤ second && second ≤ 0x9f
  else isContinuation second

/-- The second bytes that may follow a first byte of a four-byte character. -/
def secondOfFour (first second : UInt8) : Bool :=
  if first == 0xf0 then 0x90 ≤ second && second ≤ 0xbf
  else if first == 0xf4 then 0x80 ≤ second && second ≤ 0x8f
  else isContinuation second

/-- The glyph at the front of a byte string that starts with `first`, with the number of bytes
after `first` that it takes. -/
def front (first : UInt8) (rest : List UInt8) : Glyph × Nat :=
  if first < 0x80 then (.char (Char.ofNat first.toNat), 0)
  else if 0xc2 ≤ first && first ≤ 0xdf then
    match rest with
    | b :: _ =>
      if isContinuation b then
        (.char (Char.ofNat ((first.toNat % 0x20) * 0x40 + payload b)), 1)
      else (.stray first, 0)
    | _ => (.stray first, 0)
  else if 0xe0 ≤ first && first ≤ 0xef then
    match rest with
    | b :: c :: _ =>
      if secondOfThree first b && isContinuation c then
        (.char (Char.ofNat ((first.toNat % 0x10) * 0x1000 + payload b * 0x40 + payload c)), 2)
      else (.stray first, 0)
    | _ => (.stray first, 0)
  else if 0xf0 ≤ first && first ≤ 0xf4 then
    match rest with
    | b :: c :: d :: _ =>
      if secondOfFour first b && isContinuation c && isContinuation d then
        (.char (Char.ofNat ((first.toNat % 0x08) * 0x40000 + payload b * 0x1000
          + payload c * 0x40 + payload d)), 3)
      else (.stray first, 0)
    | _ => (.stray first, 0)
  else (.stray first, 0)

/-- Read bytes as glyphs, passing over the first `skip` of them. -/
def glyphsAfter : Nat → List UInt8 → List Glyph
  | _, [] => []
  | skip + 1, _ :: rest => glyphsAfter skip rest
  | 0, first :: rest =>
    let (glyph, taken) := front first rest
    glyph :: glyphsAfter taken rest

/-- The glyphs of an octet string. -/
def glyphs (octets : Octets) : List Glyph := glyphsAfter 0 octets.bytes

/-- The text of an octet string, with the replacement character for every stray byte. -/
def text (octets : Octets) : String :=
  String.ofList (octets.glyphs.map fun
    | .char c => c
    | .stray _ => '\ufffd')

end Octets

end Turnstile.Text
