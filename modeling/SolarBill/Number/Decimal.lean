import SolarBill.Text.Digit

/-!
# Decimal numerals

A numeral is read in two steps.  `Numeral.leading?` cuts the longest numeral off the front of a
text, by shape alone; `Numeral.toDecimal?` gives the exact value it writes, a whole number times a
power of ten.  Only `Decimal.toFloat` rounds, once, to the nearest double: what a text means and
how it is stored are kept apart, so that statements about numbers can speak of the exact value.

Shape of a numeral: an optional sign, digits with an optional point and further digits (or a point
followed by digits), and an optional exponent.  An `e` that no digit follows is not part of it.
-/

namespace SolarBill

open Text

/-- The exact value `± mantissa * 10 ^ exponent`. -/
structure Decimal where
  negative : Bool
  mantissa : Nat
  exponent : Int
  deriving DecidableEq, Repr

namespace Decimal

/-- The double nearest to the exact value, ties to even; beyond the largest double, an infinity.
The sign is kept, also of zero. -/
def toFloat (d : Decimal) : Float :=
  let magnitude : Float := OfScientific.ofScientific d.mantissa (d.exponent < 0) d.exponent.natAbs
  if d.negative then -magnitude else magnitude

end Decimal

/-- The parts of a written numeral, each part as it stands in the text. -/
structure Numeral where
  negative : Bool
  whole : List Char
  fraction : List Char
  /-- Sign and digits behind an `e`. -/
  scale : Option (Bool × List Char)
  deriving DecidableEq, Repr

namespace Numeral

/-- Take a leading sign. -/
def takeSign : List Char → Bool × List Char
  | '+' :: r => (false, r)
  | '-' :: r => (true, r)
  | r => (false, r)

/-- Take the digits at the front. -/
def takeDigits (cs : List Char) : List Char × List Char :=
  (cs.takeWhile isDigit, cs.dropWhile isDigit)

/-- Take an exponent: an `e`, an optional sign and at least one digit. -/
def takeScale (cs : List Char) : Option (Bool × List Char) × List Char :=
  match cs with
  | [] => (none, [])
  | c :: r =>
    if c == 'e' || c == 'E' then
      let (negative, r') := takeSign r
      match takeDigits r' with
      | ([], _) => (none, cs)
      | (ds, rest) => (some (negative, ds), rest)
    else
      (none, cs)

/-- Take the digits before and after the point; at least one of the two rows is not empty. -/
def takeMantissa (cs : List Char) : Option ((List Char × List Char) × List Char) :=
  match takeDigits cs with
  | ([], '.' :: r) =>
    match takeDigits r with
    | ([], _) => none
    | (fraction, rest) => some (([], fraction), rest)
  | ([], _) => none
  | (whole, '.' :: r) =>
    let (fraction, rest) := takeDigits r
    some ((whole, fraction), rest)
  | (whole, rest) => some ((whole, []), rest)

/-- The numeral at the front of a text, and what follows it. -/
def leading? (cs : List Char) : Option (Numeral × List Char) := do
  let (negative, r) := takeSign cs
  let ((whole, fraction), r) ← takeMantissa r
  let (scale, rest) := takeScale r
  return (⟨negative, whole, fraction, scale⟩, rest)

/-- The exact value; none when a digit is not an ASCII digit. -/
def toDecimal? (n : Numeral) : Option Decimal := do
  let mantissa ← digitsValue? (n.whole ++ n.fraction)
  let scale ← match n.scale with
    | none => some (0 : Int)
    | some (negative, ds) => (digitsValue? ds).map fun v => if negative then -(v : Int) else v
  return ⟨n.negative, mantissa, scale - n.fraction.length⟩

end Numeral

/-- The value of a text that is one numeral from end to end. -/
def Decimal.ofChars? (cs : List Char) : Option Decimal :=
  match Numeral.leading? cs with
  | some (n, []) => n.toDecimal?
  | _ => none

/-- Read a whole text as a double: a numeral, or a spelled infinity or not-a-number in any case. -/
def readFloat? (s : String) : Option Float :=
  let (negative, body) := Numeral.takeSign s.toList
  let signed (x : Float) : Float := if negative then -x else x
  match lowerAscii (String.ofList body) with
  | "inf" | "infinity" => some (signed (1.0 / 0.0))
  | "nan" => some (0.0 / 0.0)
  | _ => (Decimal.ofChars? s.toList).map Decimal.toFloat

/-- Read a whole text as an integer in the given base: an optional sign and at least one digit. -/
def readInt? (base : Nat) (s : String) : Option Int :=
  let value? (c : Char) : Option Nat :=
    let n := c.toNat
    let v := if 48 ≤ n ∧ n ≤ 57 then n - 48
      else if 97 ≤ n ∧ n ≤ 102 then n - 87
      else if 65 ≤ n ∧ n ≤ 70 then n - 55
      else base
    if v < base then some v else none
  match Numeral.takeSign s.toList with
  | (_, []) => none
  | (negative, ds) =>
    (ds.foldl (fun acc c => acc.bind fun v => (value? c).map (base * v + ·)) (some 0)).map
      fun v => if negative then -(v : Int) else v

end SolarBill
