/-!
# Doubles by their fields

A double is a sign, a biased exponent and a fraction.  Rounding up, ordering and shortest printing
are decided here on those three numbers, in exact arithmetic on natural numbers:

* `magnitude` — a finite double is `± m * 2 ^ q`;
* `roundUp` — the least whole number not below a double;
* `orderKey` — the total order: a double is placed by its bit pattern, so `-0.0` stands before
  `0.0` and not-a-number after infinity;
* `sum` — addition from left to right.
-/

namespace SolarBill.Double

/-- The sign bit. -/
def isNegative (x : Float) : Bool :=
  0x8000000000000000 ≤ x.toBits.toNat

/-- The eleven exponent bits. -/
def biasedExponent (x : Float) : Nat :=
  x.toBits.toNat / 0x10000000000000 % 0x800

/-- The fifty-two fraction bits. -/
def fraction (x : Float) : Nat :=
  x.toBits.toNat % 0x10000000000000

/-- Whole number `m` and exponent `q` with `|x| = m * 2 ^ q`, for a finite `x`. -/
def magnitude (x : Float) : Nat × Int :=
  if biasedExponent x = 0 then (fraction x, -1074)
  else (0x10000000000000 + fraction x, (biasedExponent x : Int) - 1075)

/-- The least whole number that is not below `x`; the sign is kept, so what lies strictly between
`-1` and `0` becomes `-0.0`.  Infinities and not-a-number stay. -/
def roundUp (x : Float) : Float :=
  if 1075 ≤ biasedExponent x then
    x
  else
    let (m, q) := magnitude x
    let unit := Nat.pow 2 q.natAbs
    if m % unit = 0 then
      x
    else if isNegative x then
      -(Float.ofNat (m / unit))
    else
      Float.ofNat (m / unit + 1)

/-- Place of a double in the total order. -/
def orderKey (x : Float) : Int :=
  let bits := x.toBits.toNat
  if isNegative x then 0x7FFFFFFFFFFFFFFF - (bits : Int) else bits

/-- Sort by total order; equal doubles keep their places. -/
def sort (xs : List Float) : List Float :=
  xs.mergeSort fun a b => orderKey a ≤ orderKey b

/-- Add from left to right.  The empty sum is `-0.0`, which changes no addend. -/
def sum (xs : List Float) : Float :=
  xs.foldl (· + ·) (-0.0)

/-- The greater of two doubles; not-a-number counts as no number at all. -/
def max (a b : Float) : Float :=
  if a.isNaN then b else if b.isNaN then a else if a < b then b else a

/-- Finite and above zero. -/
def isPositive (x : Float) : Bool :=
  x.isFinite && 0.0 < x

end SolarBill.Double
