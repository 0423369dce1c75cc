import SolarBill.Catalog
import SolarBill.Number.Locale
import SolarBill.Number.Shortest

/-!
# Looking up attributes

Data sheets have drifted: one attribute stands under several identifiers, a number is stored as a
number or as text with a decimal comma, and many materials lack an attribute altogether.  A lookup
tries an ordered list of identifiers, takes the first value that is not empty, and degrades to
zero, to an empty text or to *unknown* when there is none.
-/

namespace SolarBill

open Text

/-- The identifiers of one attribute, most current first. -/
abbrev AttributeNames := List String

namespace AttributeNames

/-- Largest alternating current of a device in amperes. -/
def maxCurrent : AttributeNames :=
  ["max_ac_current_a", "max_current_a", "ac_max_current", "imax_ac", "Max. AC-Strom"]

/-- Long edge of a module in millimetres. -/
def moduleLength : AttributeNames := ["module_length_mm", "length_mm", "Länge"]

/-- Short edge of a module in millimetres. -/
def moduleWidth : AttributeNames := ["module_width_mm", "width_mm", "Breite"]

/-- Length of a rail profile in millimetres. -/
def profileLength : AttributeNames := ["profile_length_mm", "length_mm", "Länge"]

/-- Width of a clamp in millimetres. -/
def clampWidth : AttributeNames := ["clamp_width_mm", "width_mm", "Breite"]

/-- Does an inverter already hold the communication dongle? -/
def dongleIntegrated : AttributeNames := ["dongle_integrated", "Dongle integriert"]

/-- Does an energy manager do the dongle's work? -/
def replacesDongle : AttributeNames := ["replaces_dongle", "Ersetzt Dongle"]

end AttributeNames

namespace Material

/-- The first value under one of the names that is not empty. -/
def attribute? (m : Material) (names : AttributeNames) : Option AttributeValue :=
  (names.filterMap fun name => m.attributes.lookup name).find? fun v => !v.isEmpty

end Material

namespace AttributeValue

/-- The value as a finite number; zero when it is none. -/
def toNumber : AttributeValue → Float
  | .number x => if x.isFinite then x else 0.0
  | .text s => (Locale.number? s).getD 0.0
  | .flag _ => 0.0

/-- The value as text: numbers with their shortest digits. -/
def toText : AttributeValue → String
  | .text s => trim s
  | .number x => Double.plain x
  | .flag b => if b then "true" else "false"

/-- The value as a yes or a no; none when it is neither.  A letter outside ASCII never lowers to a
letter of these words, so lowering ASCII alone decides them. -/
def toFlag? : AttributeValue → Option Bool
  | .flag b => some b
  | .number x => some (x != 0.0)
  | .text s =>
    let word := lowerAscii (trim s)
    if ["ja", "yes", "true", "1", "x", "y", "j"].contains word then some true
    else if ["nein", "no", "false", "0", "n", "-"].contains word then some false
    else none

end AttributeValue

/-- Numeric attribute of a material that may be unknown; zero when there is none. -/
def numberOf (m : Option Material) (names : AttributeNames) : Float :=
  ((m.bind (·.attribute? names)).map AttributeValue.toNumber).getD 0.0

/-- Text attribute of a material that may be unknown; empty when there is none. -/
def textOf (m : Option Material) (names : AttributeNames) : String :=
  ((m.bind (·.attribute? names)).map AttributeValue.toText).getD ""

/-- Yes/no attribute of a material that may be unknown; none when there is none. -/
def flagOf? (m : Option Material) (names : AttributeNames) : Option Bool :=
  (m.bind (·.attribute? names)).bind AttributeValue.toFlag?

end SolarBill
