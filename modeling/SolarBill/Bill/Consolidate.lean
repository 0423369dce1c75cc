import SolarBill.Bill
import SolarBill.Number.Double

/-!
# Consolidating lines

Lines of one material become one line.  It stands where the material first appeared and keeps the
category and the flags of that first line.  Its quantity is the sum of all quantities, added in
ascending order so that the order of the lines does not change the rounding, and its description is
the preferred one: the longest, and of equally long ones the last in text order.
-/

namespace SolarBill.Bill

/-- Is a description to be preferred over another one? -/
def prefers (candidate current : String) : Bool :=
  current.length < candidate.length ||
    (candidate.length == current.length && current < candidate)

/-- The preferred one of two descriptions. -/
def preferred (current candidate : String) : String :=
  if prefers candidate current then candidate else current

/-- One line for all lines of a material, in their order; no line for none. -/
def merge? : List Line → Option Line
  | [] => none
  | first :: rest =>
    some { first with
      quantity := Double.sum (Double.sort ((first :: rest).map Line.quantity))
      description := (rest.map Line.description).foldl preferred first.description }

/-- The materials of a list of lines, each once, in order of first appearance. -/
def materials (lines : List Line) : List String :=
  (lines.map Line.materialId).eraseDups

/-- The lines of one material, in their order. -/
def linesOf (lines : List Line) (id : String) : List Line :=
  lines.filter fun l => l.materialId == id

/-- One line per material, in order of first appearance. -/
def consolidate (lines : List Line) : List Line :=
  (materials lines).filterMap fun id => merge? (linesOf lines id)

end SolarBill.Bill
