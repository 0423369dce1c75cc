import SolarBill.Coefficients

/-!
# The ampacity table

Protection devices come from a table of buckets in ascending order of ampacity: the first bucket
that carries a current is taken, and a current above every bucket takes the last one.
-/

namespace SolarBill

open Text

/-- The buckets in ascending order of ampacity. -/
structure SizingTable where
  entries : List Bucket
  deriving DecidableEq, Repr

namespace SizingTable

/-- Sort buckets by ampacity, in total order; equal ampacities keep their places. -/
def ofBuckets (bs : List Bucket) : SizingTable :=
  ⟨bs.mergeSort fun a b => Double.orderKey a.maxAmpacity ≤ Double.orderKey b.maxAmpacity⟩

/-- A bucket without blank material identifiers. -/
def namedOnly (b : Bucket) : Bucket :=
  { b with breaker := nonBlank? b.breaker, cable := nonBlank? b.cable }

/-- The table of a coefficient set; a blank material is none. -/
def ofCoefficients (c : Coefficients) : SizingTable :=
  .ofBuckets (c.sizing.map namedOnly)

/-- The first bucket that carries a current, or else the last bucket. -/
def pick? (t : SizingTable) (current : Float) : Option Bucket :=
  (t.entries.find? fun b => b.maxAmpacity ≥ current).orElse fun _ => t.entries.getLast?

end SizingTable

end SolarBill
