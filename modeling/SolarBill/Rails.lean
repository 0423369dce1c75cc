import SolarBill.Plan
import SolarBill.Catalog.Attribute
import SolarBill.Number.Count

/-!
# Rail profiles

On a tile roof every row of modules lies on two rails.  A row's rail length is the edges of its
modules along both rails, a gap at each of the four rail ends, four end clamps and two mid clamps
between neighbouring modules.  It is packed into whole profiles, so the profiles cover at least the
length, and two connectors join each profile to the next.

The arithmetic is written over any kind of number that can be added, multiplied, divided and
rounded up to a count (`RailNumber`).  The bill computes with doubles.
-/

namespace SolarBill

/-- What rail sizing needs of numbers. -/
class RailNumber (α : Type) extends Add α, Mul α, Div α where
  /-- A count as a number. -/
  ofCount : UInt64 → α
  /-- Above zero. -/
  isPositive : α → Bool
  /-- The least count that is not below a number, at most the largest word. -/
  ceilCount : α → UInt64

/-- Doubles: a count beyond the largest word stops there, and not-a-number counts nothing. -/
instance : RailNumber Float where
  ofCount := UInt64.toFloat
  isPositive x := 0.0 < x
  ceilCount x := (Double.roundUp x).toUInt64

/-- Dimensions behind the profile calculation, in millimetres. -/
structure RailDimensions (α : Type) where
  moduleLength : α
  moduleWidth : α
  profileLength : α
  endClampWidth : α
  midClampWidth : α
  deriving DecidableEq, Repr

namespace RailDimensions

/-- The dimensions that the catalogue gives for a plan's materials. -/
def ofCatalog (plan : Plan) (catalog : Catalog) : RailDimensions Float where
  moduleLength := numberOf (catalog.find? plan.module) .moduleLength
  moduleWidth := numberOf (catalog.find? plan.module) .moduleWidth
  profileLength := numberOf (catalog.find? plan.mounting.profile) .profileLength
  endClampWidth := numberOf (catalog.find? plan.mounting.endClamp) .clampWidth
  midClampWidth := numberOf (catalog.find? plan.mounting.midClamp) .clampWidth

/-- The module edge that lies along the rails. -/
def alongRail {α : Type} (d : RailDimensions α) : Orientation → α
  | .landscape => d.moduleLength
  | .portrait => d.moduleWidth

end RailDimensions

/-- Quantities of one row. -/
structure RowGeometry (α : Type) where
  endClamps : UInt64
  midClamps : UInt64
  railLength : α
  profiles : UInt64
  connectors : UInt64
  deriving DecidableEq, Repr

/-- Profiles and connectors of all rows. -/
structure RailTotals where
  profiles : UInt64
  connectors : UInt64
  deriving DecidableEq, Repr

namespace Rails

variable {α : Type} [RailNumber α]

/-- End clamps of a row: two rails with two ends each. -/
def endClampsPerRow : UInt64 := 4

/-- Two mid clamps between neighbouring modules. -/
def midClampsOf (modules : UInt32) : UInt64 :=
  Count.mul (Count.sub modules.toUInt64 1) 2

/-- Rail length of a row: both rails, four end gaps of 50 mm, and all clamps. -/
def lengthOf (modules : UInt32) (edge : α) (d : RailDimensions α) : α :=
  let count : UInt64 → α := RailNumber.ofCount
  count modules.toUInt64 * edge * count 2 + count endClampsPerRow * count 50 +
    count endClampsPerRow * d.endClampWidth + count (midClampsOf modules) * d.midClampWidth

/-- Profiles that cover a rail length; none without a length to cover or to cover it with. -/
def profilesFor (length : α) (d : RailDimensions α) : UInt64 :=
  if RailNumber.isPositive d.profileLength && RailNumber.isPositive length then
    RailNumber.ceilCount (length / d.profileLength)
  else
    0

/-- Connectors between profiles: two for each profile after the first. -/
def connectorsFor (profiles : UInt64) : UInt64 :=
  Count.mul (Count.sub profiles 1) 2

/-- Geometry of a row whose modules have the given edge along the rails. -/
def rowGeometry (modules : UInt32) (edge : α) (d : RailDimensions α) : RowGeometry α :=
  let length := lengthOf modules edge d
  let profiles := profilesFor length d
  { endClamps := endClampsPerRow
    midClamps := midClampsOf modules
    railLength := length
    profiles := profiles
    connectors := connectorsFor profiles }

/-- Profiles and connectors of all populated rows. -/
def totals (layout : Layout) (d : RailDimensions α) : RailTotals :=
  (layout.populated.map fun row => rowGeometry row.2 (d.alongRail row.1) d).foldl
    (fun acc row => ⟨Count.add acc.profiles row.profiles, Count.add acc.connectors row.connectors⟩)
    ⟨0, 0⟩

end Rails

end SolarBill
