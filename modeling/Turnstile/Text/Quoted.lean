import Turnstile.Text.Octets
import Turnstile.Text.Printable

/-!
# Quoted text

Texts in messages and string arguments in plans are written between double quotes, single
characters between single quotes. Printable characters stand for themselves; the quote, the
backslash and everything else is written as an escape. `unquote?` reads the double-quoted form
back: `quoteOctets` writes only what it accepts.
-/

namespace Turnstile.Text

/-- The low `width` hexadecimal digits of a number, in lower case. -/
def hexDigits : (width n : Nat) → List Char
  | 0, _ => []
  | width + 1, n => hexDigits width (n / 16) ++ [Nat.digitChar (n % 16)]

/-- The letter that names a control character after a backslash, if it has one. -/
def controlLetter? (c : Char) : Option Char :=
  match c.toNat with
  | 0x07 => some 'a'
  | 0x08 => some 'b'
  | 0x0c => some 'f'
  | 0x0a => some 'n'
  | 0x0d => some 'r'
  | 0x09 => some 't'
  | 0x0b => some 'v'
  | _ => none

/-- A character as it stands between quotes. -/
def escapeChar (quote c : Char) : List Char :=
  if c = quote || c = '\\' then ['\\', c]
  else if isPrintable c then [c]
  else match controlLetter? c with
    | some letter => ['\\', letter]
    | none =>
      if c.toNat < 0x20 || c.toNat = 0x7f then '\\' :: 'x' :: hexDigits 2 c.toNat
      else if c.toNat < 0x10000 then '\\' :: 'u' :: hexDigits 4 c.toNat
      else '\\' :: 'U' :: hexDigits 8 c.toNat

/-- A glyph as it stands between double quotes. -/
def escapeGlyph : Glyph → List Char
  | .char c => escapeChar '"' c
  | .stray byte => '\\' :: 'x' :: hexDigits 2 byte.toNat

/-- An octet string between double quotes. -/
def quoteOctets (octets : Octets) : String :=
  String.ofList ('"' :: octets.glyphs.flatMap escapeGlyph ++ ['"'])

/-- A text between double quotes. -/
def quote (text : String) : String :=
  String.ofList ('"' :: text.toList.flatMap (escapeChar '"') ++ ['"'])

/-- A character between single quotes. -/
def quoteChar (c : Char) : String :=
  String.ofList ('\x27' :: escapeChar '\x27' c ++ ['\x27'])

/-- The value of a digit in a base up to sixteen. -/
def digitValue? (base : Nat) (c : Char) : Option Nat :=
  let value :=
    if '0' ≤ c && c ≤ '9' then c.toNat - 0x30
    else if 'a' ≤ c && c ≤ 'f' then c.toNat - 0x57
    else if 'A' ≤ c && c ≤ 'F' then c.toNat - 0x37
    else 16
  if value < base then some value else none

/-- The number that the first `count` characters spell in a base, with what follows them. -/
def takeDigits? (base : Nat) : (count value : Nat) → List Char → Option (Nat × List Char)
  | 0, value, rest => some (value, rest)
  | _ + 1, _, [] => none
  | count + 1, value, c :: rest =>
    (digitValue? base c).bind fun digit => takeDigits? base count (value * base + digit) rest

/-- The bytes that an escape stands for, given what follows its backslash. -/
def escaped? : List Char → Option (List UInt8 × List Char)
  | [] => none
  | c :: rest =>
    match c with
    | 'a' => some ([0x07], rest)
    | 'b' => some ([0x08], rest)
    | 'f' => some ([0x0c], rest)
    | 'n' => some ([0x0a], rest)
    | 'r' => some ([0x0d], rest)
    | 't' => some ([0x09], rest)
    | 'v' => some ([0x0b], rest)
    | '\\' => some ([0x5c], rest)
    | '"' => some ([0x22], rest)
    | 'x' => (takeDigits? 16 2 0 rest).map fun (n, rest) => ([n.toUInt8], rest)
    | 'u' => (takeDigits? 16 4 0 rest).bind scalar
    | 'U' => (takeDigits? 16 8 0 rest).bind scalar
    | _ => (takeDigits? 8 3 0 (c :: rest)).bind fun (n, rest) =>
        if n ≤ 0xff then some ([n.toUInt8], rest) else none
where
  /-- The encoding of a code point that is a character. -/
  scalar : Nat × List Char → Option (List UInt8 × List Char)
    | (n, rest) => if n.isValidChar then some (Octets.ofChar (Char.ofNat n), rest) else none

/-- Read the inside of a quoted string up to its closing quote, which must end the input. Each
round takes at least one character, so the length of the input bounds the rounds. -/
def unquoteInside? : (rounds : Nat) → List Char → Option (List UInt8)
  | 0, _ => none
  | _ + 1, [] => none
  | rounds + 1, c :: rest =>
    if c = '"' then if rest.isEmpty then some [] else none
    else if c = '\n' then none
    else if c = '\\' then
      (escaped? rest).bind fun (bytes, rest) => (unquoteInside? rounds rest).map (bytes ++ ·)
    else (unquoteInside? rounds rest).map (Octets.ofChar c ++ ·)

/-- The octet string that a double-quoted text spells, if it is well formed. -/
def unquote? (text : String) : Option Octets :=
  match text.toList with
  | '"' :: rest => (unquoteInside? rest.length rest).map Octets.mk
  | _ => none

end Turnstile.Text
