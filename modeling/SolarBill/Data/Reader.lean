import SolarBill.Catalog
import SolarBill.Data.Tree

/-!
# Readers

The same records are read from several sources: data trees, the data files, and the layered
coefficient document.  The sources differ in what they accept as a text, a number or an absent
value, but not in the records.  A `Reader` holds a source's answers for scalars, lists and fields;
the records are read once, over any reader.

The rules for fields are the same everywhere: unknown fields are ignored, a required field must be
there, a field with a default may be missing.
-/

namespace SolarBill

/-- How values of a source `ν` are understood. -/
structure Reader (ν : Type) where
  /-- Does the value stand for an absent optional value? -/
  isAbsent : ν → Bool
  text? : ν → Option String
  flag? : ν → Option Bool
  real? : ν → Option Float
  count? : ν → Option UInt32
  /-- A flag, number or text, whichever the value is. -/
  scalar? : ν → Option AttributeValue
  /-- One of the given names. -/
  choice? : List String → ν → Option String
  items? : ν → Option (List ν)
  /-- Entries under any names, each name once. -/
  entries? : ν → Option (List (String × ν))
  /-- Fields of a record, given the names that the record knows. -/
  fields? : List String → ν → Option (List (String × ν))

namespace Reader

variable {ν α : Type}

/-- A field that must be there. -/
def required (fields : List (String × ν)) (name : String) (read : ν → Option α) : Option α :=
  (fields.lookup name).bind read

/-- A field that may be missing. -/
def withDefault (fields : List (String × ν)) (name : String) (default : α)
    (read : ν → Option α) : Option α :=
  match fields.lookup name with
  | none => some default
  | some v => read v

/-- An optional value. -/
def optional (r : Reader ν) (read : ν → Option α) (v : ν) : Option (Option α) :=
  if r.isAbsent v then some none else (read v).map some

/-- A list of values. -/
def listOf (r : Reader ν) (read : ν → Option α) (v : ν) : Option (List α) :=
  (r.items? v).bind fun items => items.mapM read

/-- An optional text field; none when it is missing. -/
def optionalText (r : Reader ν) (fields : List (String × ν)) (name : String) :
    Option (Option String) :=
  withDefault fields name none (r.optional r.text?)

/-- Put an entry in the place of the one with its name, or at the end. -/
def setEntry (name : String) (v : ν) : List (String × ν) → List (String × ν)
  | [] => [(name, v)]
  | e :: rest => if e.1 == name then (name, v) :: rest else e :: setEntry name v rest

/-- Entries with each name once; of two values for one name the later one counts. -/
def distinctEntries (entries : List (String × ν)) : List (String × ν) :=
  entries.foldl (fun acc e => setEntry e.1 e.2 acc) []

end Reader

namespace Datum

/-- Nearest double of a whole number. -/
def wholeToFloat (n : Int) : Float :=
  if n < 0 then -(Float.ofNat n.natAbs) else Float.ofNat n.natAbs

/-- A whole number as a count, if it is one. -/
def wholeToCount? (n : Int) : Option UInt32 :=
  if 0 ≤ n ∧ n ≤ 0xFFFFFFFF then some (.ofNat n.toNat) else none

/-- Data trees are read as they are: a number is no text and a text no number.  A missing list or
record may be written as `null`. -/
def reader : Reader Datum where
  isAbsent
    | .null => true
    | _ => false
  text?
    | .text s => some s
    | _ => none
  flag?
    | .flag b => some b
    | _ => none
  real?
    | .real x => some x
    | .whole n => some (wholeToFloat n)
    | _ => none
  count?
    | .whole n => wholeToCount? n
    | _ => none
  scalar?
    | .flag b => some (.flag b)
    | .real x => some (.number x)
    | .whole n => some (.number (wholeToFloat n))
    | .text s => some (.text s)
    | _ => none
  choice? names
    | .text s => if names.contains s then some s else none
    | _ => none
  items?
    | .list items => some items
    | .null => some []
    | _ => none
  entries?
    | .record fields => some (Reader.distinctEntries fields)
    | .null => some []
    | _ => none
  fields? _
    | .record fields => some fields
    | .null => some []
    | _ => none

end Datum

end SolarBill
