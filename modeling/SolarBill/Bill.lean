import SolarBill.Catalog

/-!
# Bill of materials

A line is a quantity of one material, with the description and category that the catalogue gives
it.  A line is *configured* when the installer or a recommendation put it there, *manual* when it
was added by hand in the review, and otherwise a flat-rate line.
-/

namespace SolarBill

open Text

/-- A line of the bill. -/
structure Line where
  materialId : String
  quantity : Float
  description : String := ""
  category : String := ""
  isConfigured : Bool := false
  isManual : Bool := false
  deriving BEq, DecidableEq, Repr

namespace Line

/-- Description of a material: its own where there is one, else its identifier. -/
def describe (id : String) (m : Option Material) : String :=
  match m with
  | some m => if isBlank m.description then id else m.description
  | none => id

/-- Line of a derived quantity. -/
def derived (id : String) (quantity : Float) (catalog : Catalog) : Line where
  materialId := id
  quantity := quantity
  description := describe id (catalog.get? id)
  category := ((catalog.get? id).map Material.category).getD ""

/-- Line of a selection or a recommended device. -/
def configured (id : String) (quantity : Float) (catalog : Catalog) : Line :=
  { derived id quantity catalog with isConfigured := true }

/-- Line added by hand. -/
def manual (id : String) (quantity : Float) (catalog : Catalog) : Line :=
  { derived id quantity catalog with isManual := true }

/-- Neither configured nor manual. -/
def isFlatRate (l : Line) : Bool :=
  !l.isConfigured && !l.isManual

end Line

/-- Lines of a bill and the warnings that keep it from being booked. -/
structure Bill where
  lines : List Line := []
  warnings : List String := []
  deriving BEq, DecidableEq, Repr, Inhabited

namespace Bill

/-- The line of a material. -/
def line? (b : Bill) (id : String) : Option Line :=
  b.lines.find? fun l => l.materialId == id

/-- Quantity of a material; zero when it has no line. -/
def quantityOf (b : Bill) (id : String) : Float :=
  ((b.line? id).map Line.quantity).getD 0.0

/-- Are there warnings? -/
def hasWarnings (b : Bill) : Bool :=
  !b.warnings.isEmpty

end Bill

end SolarBill
