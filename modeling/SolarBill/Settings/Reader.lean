import SolarBill.Data.Reader
import SolarBill.Number.Count
import SolarBill.Number.Decimal
import SolarBill.Number.Shortest
import SolarBill.Text.Digit

/-!
# Reading records from settings

Settings are typed by people and come from sources without types, so scalars are converted: a
number is read where a text stands, and a text is made of a number or a flag.  A list may stand for
a record, with the fields in their order.  Nothing is converted from `null`: it is an absent
optional value and fits nowhere else.
-/

namespace SolarBill.Settings

/-- The words for yes and no. -/
def switchWord? (s : String) : Option Bool :=
  let word := Text.lowerAscii s
  if ["true", "on", "yes"].contains word then some true
  else if ["false", "off", "no"].contains word then some false
  else none

/-- A flag as a number. -/
def oneOrZero (b : Bool) : Nat :=
  if b then 1 else 0

/-- The whole number nearest to a double, halves away from zero, held between zero and the largest
64-bit word; zero for not-a-number. -/
def nearestWord (x : Float) : Nat :=
  if x.isNaN || Double.isNegative x then 0
  else if x.isInf then Count.largest
  else
    let (m, q) := Double.magnitude x
    let unit := Nat.pow 2 q.natAbs
    min (if 0 ≤ q then m * unit else (2 * m + unit) / (2 * unit)) Count.largest

/-- A value as a double. -/
def real? : Datum → Option Float
  | .real x => some x
  | .whole n => some (Datum.wholeToFloat n)
  | .flag b => some (.ofNat (oneOrZero b))
  | .text s =>
    match switchWord? s with
    | some b => some (.ofNat (oneOrZero b))
    | none => readFloat? s
  | _ => none

/-- A value as a whole number that is not negative. -/
def natural? : Datum → Option Nat
  | .real x => some (nearestWord x)
  | .whole n => if 0 ≤ n then some n.toNat else none
  | .flag b => some (oneOrZero b)
  | .text s =>
    match switchWord? s with
    | some b => some (oneOrZero b)
    | none =>
      if s.startsWith "-" then none
      else ((readInt? 10 s).map Int.toNat).filter (· ≤ Count.largest)
  | _ => none

/-- A value as a text. -/
def text? : Datum → Option String
  | .text s => some s
  | .real x => some (Double.plain x)
  | .whole n => some (toString n)
  | .flag b => some (if b then "true" else "false")
  | _ => none

/-- A value as one of the given names; upper and lower case are the same. -/
def choice? (names : List String) (d : Datum) : Option String :=
  let find (s : String) : Option String :=
    names.find? fun name => Text.lowerAscii name == Text.lowerAscii s
  match d with
  | .text s => find s
  | .record [(name, _)] => find name
  | _ => none

/-- Settings as a source of records.  A count keeps the lower 32 bits of a number. -/
def reader : Reader Datum where
  isAbsent
    | .null => true
    | _ => false
  text? := text?
  flag?
    | .flag b => some b
    | .text s => switchWord? s
    | _ => none
  real? := real?
  count? d := (natural? d).map UInt32.ofNat
  scalar?
    | .flag b => some (.flag b)
    | .real x => some (.number x)
    | .whole n => some (.number (Datum.wholeToFloat n))
    | .text s => some (.text s)
    | _ => none
  choice? := choice?
  items?
    | .list items => some items
    | _ => none
  entries?
    | .record fields => some fields
    | _ => none
  fields? names
    | .record fields => some fields
    | .list items => some (names.zip items)
    | _ => none

end SolarBill.Settings
