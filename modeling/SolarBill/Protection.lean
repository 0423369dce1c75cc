import SolarBill.Sizing
import SolarBill.Catalog.Attribute

/-!
# Protection of current-drawing subsystems

Inverters, wallboxes and backup boxes each get a breaker and a cable from the ampacity table, and
wallboxes a residual-current device.  The current that counts is the largest among the installed
devices.  The installer's own choice goes first, field by field.
-/

namespace SolarBill

open Text

namespace Protection

/-- Field by field the override where it names something, else the computed device. -/
def choose (computed overrides : Protection) : Protection :=
  let pick (own other : Option String) : Option String := (nonBlank? own).orElse fun _ => other
  { breaker := pick overrides.breaker computed.breaker
    cable := pick overrides.cable computed.cable
    rcd := pick overrides.rcd computed.rcd }

/-- Installed units of a subsystem. -/
def deviceCount (s : Subsystem) (plan : Plan) : UInt64 :=
  match s with
  | .inverter => plan.deviceCounts.inverters
  | .wallbox => plan.deviceCounts.wallboxes
  | .backup => plan.deviceCounts.backups

/-- Largest current of a device; zero when it is not known. -/
def currentOf (catalog : Catalog) (id : String) : Float :=
  numberOf (catalog.find? (some id)) .maxCurrent

/-- Current that a subsystem draws; none when it is not installed. -/
def demand? (s : Subsystem) (plan : Plan) (catalog : Catalog) : Option Float :=
  if deviceCount s plan = 0 then none
  else
    let selected (c : Option Selection) : Float :=
      (c.map fun x => currentOf catalog x.materialId).getD 0.0
    some <| match s with
    | .inverter =>
      ((plan.inverters.filter Inverter.isComplete).map fun i => currentOf catalog i.materialId).foldl
        Double.max 0.0
    | .wallbox => selected plan.options.wallbox
    | .backup => selected plan.options.backup

/-- Protection from the ampacity table alone; nothing for a subsystem that is not installed. -/
def recommended (s : Subsystem) (plan : Plan) (catalog : Catalog) (c : Coefficients) : Protection :=
  match demand? s plan catalog with
  | none => {}
  | some current =>
    let bucket := (SizingTable.ofCoefficients c).pick? current
    { breaker := bucket.bind Bucket.breaker
      cable := bucket.bind Bucket.cable
      rcd := if s = .wallbox then nonBlank? c.ac.wallboxRcd else none }

/-- Protection after the installer's own choice. -/
def chosen (s : Subsystem) (plan : Plan) (catalog : Catalog) (c : Coefficients) : Protection :=
  choose (recommended s plan catalog c) (plan.overrides.get s)

end Protection

end SolarBill
