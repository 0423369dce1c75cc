import SolarBill.Number.Double

/-!
# Shortest digits of a double

The text of a double has the fewest digits that still read back as the same double.  Every real
number in an interval around the double rounds to it; the ends belong to the interval exactly when
the double's own mantissa is even.  The shortest digits are found on the coarsest decimal grid that
has a point in the interval, and of two such points the nearer one is taken.

* `Digits.ofFloat` finds the digits, in exact natural-number arithmetic;
* `plain` writes them without an exponent, for messages;
* `compact` writes them with a point always and an exponent for very large and very small values,
  for files.
-/

namespace SolarBill

/-- A positive decimal number `digits * 10 ^ exponent`. -/
structure Digits where
  digits : Nat
  exponent : Int
  deriving DecidableEq, Repr

namespace Digits

/-- A value and the two ends of its rounding interval over one common denominator. -/
structure Interval where
  value : Nat
  low : Nat
  high : Nat
  denominator : Nat
  closed : Bool

/-- The reals that round to the double `m * 2 ^ q`.  Below a power of two the doubles lie twice as
dense, so the lower half of the interval is half as wide there. -/
def Interval.of (m : Nat) (q : Int) : Interval :=
  let scale := Nat.pow 2 q.toNat
  let narrow := m = 0x10000000000000 ∧ -1074 < q
  { value := 4 * m * scale
    low := (4 * m - if narrow then 1 else 2) * scale
    high := (4 * m + 2) * scale
    denominator := 4 * Nat.pow 2 (-q).toNat
    closed := m % 2 = 0 }

/-- Does `n / d` round to the double? -/
def Interval.contains (i : Interval) (n d : Nat) : Bool :=
  let x := n * i.denominator
  if i.closed then i.low * d ≤ x && x ≤ i.high * d else i.low * d < x && x < i.high * d

/-- The point of the grid of multiples of `10 ^ k` that lies in the interval, nearest the value. -/
def Interval.gridPoint? (i : Interval) (k : Int) : Option Nat :=
  let up := Nat.pow 10 k.toNat
  let down := Nat.pow 10 (-k).toNat
  let floor := i.value * down / (i.denominator * up)
  let rest := i.value * down - floor * (i.denominator * up)
  let below := 0 < floor && i.contains (floor * up) down
  let above := i.contains ((floor + 1) * up) down
  match below, above with
  | true, true => some (if 2 * rest ≤ i.denominator * up then floor else floor + 1)
  | true, false => some floor
  | false, true => some (floor + 1)
  | false, false => none

/-- Search the grids `10 ^ k`, `10 ^ (k - 1)`, … -/
def search (i : Interval) : Nat → Int → Option Digits
  | 0, _ => none
  | steps + 1, k =>
    match i.gridPoint? k with
    | some d => some ⟨d, k⟩
    | none => search i steps (k - 1)

/-- The shortest digits of `|x|`, for a finite `x` other than zero.  A power of ten above `|x|` is
too coarse, and seventeen digits always suffice, so twenty-one grids hold the answer. -/
def ofFloat (x : Float) : Digits :=
  let (m, q) := Double.magnitude x
  let above : Int := ((m.log2 : Int) + 1 + q) * 30103 / 100000 + 1
  (search (.of m q) 21 above).getD ⟨m, q⟩

end Digits

namespace Double

/-- The digits of a whole number in base ten. -/
def decimalChars (n : Nat) : List Char :=
  Nat.toDigits 10 n

/-- Write digits with a decimal point where needed and no exponent: `0.001`, `12.5`, `1000`. -/
def positional (d : Digits) : String :=
  let ds := decimalChars d.digits
  if 0 ≤ d.exponent then
    String.ofList (ds ++ List.replicate d.exponent.toNat '0')
  else
    let places := d.exponent.natAbs
    let padded := List.replicate (places + 1 - ds.length) '0' ++ ds
    String.ofList (padded.take (padded.length - places) ++ '.' :: padded.drop (padded.length - places))

/-- Text of a double in messages: shortest digits, never an exponent, whole numbers without a
point. -/
def plain (x : Float) : String :=
  if x.isNaN then "NaN"
  else
    let sign := if isNegative x then "-" else ""
    if x.isInf then sign ++ "inf"
    else if x == 0.0 then sign ++ "0"
    else sign ++ positional (.ofFloat x)

/-- Text of a double in a data file: shortest digits, always with a point or an exponent.  The
value is written with an exponent from `10 ^ 16` on and below `10 ^ -5`. -/
def compact (x : Float) : String :=
  if x.isNaN then ".nan"
  else
    let sign := if isNegative x then "-" else ""
    if x.isInf then sign ++ ".inf"
    else if x == 0.0 then sign ++ "0.0"
    else
      let d := Digits.ofFloat x
      let ds := decimalChars d.digits
      let point : Int := ds.length + d.exponent
      let text :=
        if 0 ≤ d.exponent && point ≤ 16 then positional d ++ ".0"
        else if -5 < point && point ≤ 16 then positional d
        else
          let mantissa := match ds with
            | [] => ""
            | [c] => String.ofList [c]
            | c :: rest => String.ofList (c :: '.' :: rest)
          mantissa ++ "e" ++ toString (point - 1)
      sign ++ text

end Double

end SolarBill
