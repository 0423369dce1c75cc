import SolarBill.Data.Reader

/-!
# Paths in settings

A setting is named by a path into a data tree: names with a point between them, and positions of a
list in brackets, as in `sizing[0].max_ampacity_a`.  What a path leads through is created where it
is missing, and replaced where it is something else.  A record that is put on top of a record is
merged into it, field by field; any other value replaces what was there.
-/

namespace SolarBill

/-- A step into a tree. -/
inductive PathStep where
  | field (name : String)
  /-- A place in a list; a negative one counts from the end. -/
  | index (place : Int)
  deriving DecidableEq, Repr

namespace PathStep

/-- A character of a name in a path. -/
def isNameChar (c : Char) : Bool :=
  c.isAlphanum || c == '_' || c == '-'

/-- Read a name, at least one character long. -/
def name? (cs : List Char) : Option (String × List Char) :=
  match cs.takeWhile isNameChar with
  | [] => none
  | name => some (.ofList name, cs.dropWhile isNameChar)

/-- Read a place and the bracket behind it. -/
def place? (cs : List Char) : Option (Int × List Char) :=
  let (negative, ds) := match cs with
    | '-' :: ds => (true, ds)
    | ds => (false, ds)
  match ds.takeWhile Char.isDigit, ds.dropWhile Char.isDigit with
  | [], _ => none
  | digits, ']' :: rest =>
    let n : Nat := digits.foldl (fun n c => 10 * n + (c.toNat - '0'.toNat)) 0
    some (if negative then -n else n, rest)
  | _, _ => none

/-- Read the steps behind the first one.  Every step takes at least one character. -/
def stepsFrom : Nat → List Char → Option (List PathStep)
  | _, [] => some []
  | 0, _ => none
  | fuel + 1, '.' :: cs => do
    let (name, rest) ← name? cs
    return .field name :: (← stepsFrom fuel rest)
  | fuel + 1, '[' :: cs => do
    let (place, rest) ← place? cs
    return .index place :: (← stepsFrom fuel rest)
  | _ + 1, _ => none

/-- Read a path. -/
def ofText? (text : String) : Option (List PathStep) := do
  let (name, rest) ← name? text.toList
  return .field name :: (← stepsFrom rest.length rest)

/-- The path that a name stands for; a text that is no path is the name of a field. -/
def ofName (text : String) : List PathStep :=
  (ofText? text).getD [.field text]

end PathStep

namespace Datum

/-- The value of a field; none for what is no record. -/
def field? (name : String) : Datum → Option Datum
  | .record fields => fields.lookup name
  | _ => none

/-- Set a field; what is no record becomes one. -/
def withField (d : Datum) (name : String) (v : Datum) : Datum :=
  match d with
  | .record fields => .record (Reader.setEntry name v fields)
  | _ => .record [(name, v)]

/-- Change an item; what is no list becomes one, and a list that is too short is filled up. -/
def changeItem (d : Datum) (place : Int) (filler : Datum) (change : Datum → Datum) : Datum :=
  let items := match d with
    | .list items => items
    | _ => []
  let at? : Option Nat :=
    if 0 ≤ place then some place.toNat
    else if place.natAbs ≤ items.length then some (items.length - place.natAbs)
    else none
  match at? with
  | none => .list items
  | some n => .list ((items ++ List.replicate (n + 1 - items.length) filler).modify n change)

mutual

/-- What stands in a place after a value is put on top of what was there. -/
def merge (v : Datum) (old : Option Datum) : Datum :=
  match v with
  | .record fields => mergeFields fields (old.getD (.record []))
  | v => v

/-- Put fields on top of a value, one by one. -/
def mergeFields : List (String × Datum) → Datum → Datum
  | [], old => old
  | (name, v) :: rest, old => mergeFields rest (old.withField name (merge v (old.field? name)))

end

/-- Put a value where a path leads. -/
def put (v : Datum) : List PathStep → Datum → Datum
  | [], _ => v
  | [.field name], d => d.withField name (merge v (d.field? name))
  | [.index place], d => d.changeItem place (.list []) fun _ => v
  | .field name :: rest, d => d.withField name (put v rest ((d.field? name).getD .null))
  | .index place :: rest, d => d.changeItem place (.record []) (put v rest)

end Datum

end SolarBill
