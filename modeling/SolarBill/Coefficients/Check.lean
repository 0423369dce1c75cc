import SolarBill.Coefficients
import SolarBill.Number.Shortest

/-!
# Checking coefficients

A coefficient set is usable when every number in it is finite and not negative, the ampacity table
has a bucket, every bucket's numbers are above zero, and no two buckets have one ampacity.
`Coefficients.fault?` names the first fault in a fixed order; `Coefficients.checked` also puts the
table into ascending order of ampacity.
-/

namespace SolarBill

/-- What makes a coefficient set unusable. -/
inductive CoefficientFault where
  | invalidCoefficient (field : String) (value : Float)
  | emptySizingTable
  | invalidBucket (index : Nat) (field : String) (value : Float)
  | duplicateAmpacity (value : Float)
  deriving DecidableEq, Repr

/-- The fault in words. -/
def CoefficientFault.message : CoefficientFault → String
  | .invalidCoefficient field value =>
    "Coefficient " ++ field ++ " must be finite and non-negative, got " ++ Double.plain value
  | .emptySizingTable => "Sizing table is empty"
  | .invalidBucket index field value =>
    "Sizing bucket " ++ toString index ++ " is invalid: " ++ field ++ " must be positive, got " ++
      Double.plain value
  | .duplicateAmpacity value => "Duplicate sizing threshold " ++ Double.plain value ++ " A"

namespace Bucket

/-- The numbers of a bucket by name. -/
def numbers (b : Bucket) : List (String × Float) :=
  [("cross_section_mm2", b.crossSection), ("max_ampacity_a", b.maxAmpacity),
    ("breaker_rating_a", b.breakerRating)]

end Bucket

namespace Coefficients

/-- The numbers outside the ampacity table, by path, in the order in which they are checked. -/
def scalars (c : Coefficients) : List (String × Float) :=
  [("mounting.ratio", c.mountingRatio),
    ("dc.connector_pairs_per_string", c.dc.connectorPairsPerString),
    ("dc.cable_length_per_string_m", c.dc.cableLengthPerString),
    ("ac.cable_length_per_device_m", c.ac.cableLengthPerDevice),
    ("grounding.multiplier", c.grounding.multiplier),
    ("labels.quantity", c.labels.quantity)] ++
  Consumable.all.map fun k =>
    ("consumables." ++ k.name ++ ".quantity", (c.consumables k).quantity)

/-- Finite and not below zero. -/
def isNonNegative (x : Float) : Bool :=
  x.isFinite && 0.0 ≤ x

/-- The first fault among the numbers outside the table. -/
def scalarFault? (c : Coefficients) : Option CoefficientFault :=
  (c.scalars.find? fun s => !isNonNegative s.2).map fun s => .invalidCoefficient s.1 s.2

/-- The first fault of the table from bucket `index` on, given the ampacities before it. -/
def bucketFault? (index : Nat) (seen : List Float) : List Bucket → Option CoefficientFault
  | [] => none
  | b :: rest =>
    match b.numbers.find? fun n => !Double.isPositive n.2 with
    | some (field, value) => some (.invalidBucket index field value)
    | none =>
      if seen.contains b.maxAmpacity then some (.duplicateAmpacity b.maxAmpacity)
      else bucketFault? (index + 1) (b.maxAmpacity :: seen) rest

/-- The first fault of a coefficient set. -/
def fault? (c : Coefficients) : Option CoefficientFault :=
  c.scalarFault?.orElse fun _ =>
    if c.sizing.isEmpty then some .emptySizingTable else bucketFault? 0 [] c.sizing

/-- Ascending by ampacity, in total order; equal ampacities keep their places. -/
def sortBuckets (bs : List Bucket) : List Bucket :=
  bs.mergeSort fun a b => Double.orderKey a.maxAmpacity ≤ Double.orderKey b.maxAmpacity

/-- The coefficient set with its table in ascending order, or its first fault. -/
def checked (c : Coefficients) : Except CoefficientFault Coefficients :=
  match c.fault? with
  | some fault => .error fault
  | none => .ok { c with sizing := sortBuckets c.sizing }

end Coefficients

end SolarBill
