/-!
# Data trees

The common form of all stored values: what the files hold, what is read from outside and what is
written.  A tree is a scalar, a list or a record of named fields.  Whole numbers and doubles are
kept apart: a count is a whole number, everything measured is a double.
-/

namespace SolarBill

/-- A data tree. -/
inductive Datum where
  | null
  | flag (value : Bool)
  | whole (value : Int)
  | real (value : Float)
  | text (value : String)
  | list (items : List Datum)
  | record (fields : List (String × Datum))
  deriving Inhabited

namespace Datum

/-- An optional value; none is `null`. -/
def option {α : Type} (write : α → Datum) : Option α → Datum
  | none => .null
  | some a => write a

/-- A list of values. -/
def listOf {α : Type} (write : α → Datum) (items : List α) : Datum :=
  .list (items.map write)

/-- A count. -/
def count (n : UInt32) : Datum :=
  .whole n.toNat

/-- An optional text. -/
def optionText : Option String → Datum :=
  option .text

end Datum

end SolarBill
