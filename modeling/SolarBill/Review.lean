import SolarBill.Bill.Consolidate

/-!
# Reviewing a bill

A review is a copy of a compiled bill that is edited by hand before it is booked.  Adding a line
merges it with a line of the same material; a quantity that is not above zero adds nothing, and
setting such a quantity removes the line.  The warnings of the bill stay: only a review without
warnings, and with lines, can be committed.
-/

namespace SolarBill

/-- A bill under review. -/
structure Review where
  lines : List Line := []
  warnings : List String := []
  deriving BEq, DecidableEq, Repr, Inhabited

namespace Review

/-- A review starts as a copy of the bill. -/
def ofBill (b : Bill) : Review :=
  ⟨b.lines, b.warnings⟩

/-- Add a line by hand; ignored unless the quantity is finite and above zero. -/
def addManual (r : Review) (id : String) (quantity : Float) (catalog : Catalog) : Review :=
  if Double.isPositive quantity then
    { r with lines := Bill.consolidate (r.lines ++ [Line.manual id quantity catalog]) }
  else r

/-- Remove the lines of a material. -/
def remove (r : Review) (id : String) : Review :=
  { r with lines := r.lines.filter fun l => l.materialId != id }

/-- Does removing a material change the number of lines? -/
def removes (r : Review) (id : String) : Bool :=
  (r.remove id).lines.length != r.lines.length

/-- Overwrite the quantity of the first line of a material. -/
def overwrite (id : String) (quantity : Float) : List Line → List Line
  | [] => []
  | l :: rest =>
    if l.materialId == id then { l with quantity := quantity } :: rest
    else l :: overwrite id quantity rest

/-- Set the quantity of a line; a quantity that is not above zero removes it. -/
def setQuantity (r : Review) (id : String) (quantity : Float) : Review :=
  if quantity ≤ 0.0 then r.remove id
  else { r with lines := overwrite id quantity r.lines }

/-- Does setting a quantity find a line to change, or to remove? -/
def setsQuantity (r : Review) (id : String) (quantity : Float) : Bool :=
  if quantity ≤ 0.0 then r.removes id
  else (r.lines.find? fun l => l.materialId == id).isSome

/-- Lines to book, and no warnings. -/
def canCommit (r : Review) : Bool :=
  r.warnings.isEmpty && !r.lines.isEmpty

/-- An edit of a review. -/
inductive Edit where
  | addManual (id : String) (quantity : Float)
  | remove (id : String)
  | setQuantity (id : String) (quantity : Float)
  deriving DecidableEq, Repr

/-- The review after an edit. -/
def edit (catalog : Catalog) (r : Review) : Edit → Review
  | .addManual id quantity => r.addManual id quantity catalog
  | .remove id => r.remove id
  | .setQuantity id quantity => r.setQuantity id quantity

/-- What an edit reports: whether lines were removed, or one was changed.  Adding reports nothing. -/
def report (r : Review) : Edit → Option Bool
  | .addManual _ _ => none
  | .remove id => some (r.removes id)
  | .setQuantity id quantity => some (r.setsQuantity id quantity)

/-- The review after a list of edits. -/
def editAll (catalog : Catalog) (r : Review) (edits : List Edit) : Review :=
  edits.foldl (edit catalog) r

/-- The reports of a list of edits, one by one. -/
def reports (catalog : Catalog) (r : Review) : List Edit → List (Option Bool)
  | [] => []
  | e :: rest => r.report e :: reports catalog (edit catalog r e) rest

end Review

end SolarBill
