import Turnstile.Text.Quoted
import Turnstile.Word

/-!
# Numbers in documents

A plain text counts as a whole number if it is written like one, in any of the usual bases and
with underscores anywhere. A number with a fraction or exponent counts as its whole part.
-/

namespace Turnstile.Document

/-- The value of digits in a base, if there are any and nothing else. -/
def digits? (base : Nat) (cs : List Char) : Option Nat :=
  if cs.isEmpty then none
  else cs.foldl (fun value c => value.bind fun n =>
    (Text.digitValue? base c).map fun d => n * base + d) (some 0)

/-- The value of an unsigned whole number; a leading zero announces the base eight. -/
def unsigned? : List Char → Option Nat
  | '0' :: c :: rest =>
    match c.toLower with
    | 'x' => digits? 16 rest
    | 'o' => digits? 8 rest
    | 'b' => digits? 2 rest
    | _ => digits? 8 (c :: rest)
  | cs => digits? 10 cs

/-- The value of an exponent with its letter; no exponent counts as zero. -/
def exponent? : List Char → Option Int
  | [] => some 0
  | e :: rest =>
    if e = 'e' || e = 'E' then
      match rest with
      | '-' :: more => (digits? 10 more).map fun n => -(n : Int)
      | '+' :: more => (digits? 10 more).map fun n => (n : Int)
      | _ => (digits? 10 rest).map fun n => (n : Int)
    else none

/-- The whole part of an unsigned number with a fraction or exponent. A number of a thousand
digits or more is out of the range of all numbers. -/
def wholePart? (cs : List Char) : Option Nat := do
  let whole := cs.takeWhile Char.isDigit
  let rest := cs.drop whole.length
  let fraction := match rest with
    | '.' :: more => more.takeWhile Char.isDigit
    | _ => []
  let rest := match rest with
    | '.' :: more => more.drop fraction.length
    | _ => rest
  if whole.isEmpty && fraction.isEmpty then none
  else
    let exponent ← exponent? rest
    if exponent > 1000 then none
    else
      let mantissa := (digits? 10 (whole ++ fraction)).getD 0
      let shift := exponent - fraction.length
      if shift ≥ 0 then return mantissa * Nat.pow 10 shift.toNat
      else if -shift > 2000 then return 0
      else return mantissa / Nat.pow 10 (-shift).toNat

/-- The whole number that a plain text counts as, if it fits a signed word of 64 bits. -/
def int? (text : String) : Option Int := do
  let cs := text.toList.filter (· ≠ '_')
  let (negative, cs) := match cs with
    | '-' :: rest => (true, rest)
    | '+' :: rest => (false, rest)
    | _ => (false, cs)
  let magnitude ← unsigned? cs <|> wholePart? cs
  let value : Int := if negative then -magnitude else magnitude
  if Word.fits value then return value else none

end Turnstile.Document
