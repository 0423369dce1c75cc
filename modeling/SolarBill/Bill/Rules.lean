import SolarBill.Bill
import SolarBill.Protection
import SolarBill.Rails

/-!
# Rules of the bill

Every rule turns the plan, the catalogue and the coefficients into lines.  The rules run in a fixed
order and only ever append, so the same inputs give the same lines; two rules, those for the dongle
and for the earth electrodes, look at the lines before them and stay silent when their material is
already listed.  A line is emitted only for a material that is named and for a quantity that is
finite and above zero (`emit`).

There is one warning: the string plans must wire exactly the modules that are laid out.
-/

namespace SolarBill.Rules

open Text

/-- What the rules read. -/
structure Inputs where
  plan : Plan
  catalog : Catalog
  coefficients : Coefficients

/-- Lines and warnings before consolidation. -/
structure Draft where
  lines : List Line
  warnings : List String
  deriving DecidableEq, Repr

/-- Round a quantity up to whole units.  A billionth is taken off first, so that noise of the
arithmetic does not cost a unit. -/
def wholeUnits (x : Float) : Float :=
  if x ≤ 0.0 then 0.0 else Double.roundUp (x - 1e-9)

/-- Wording of the warning about strings and layout. -/
def parityWarning (wired laidOut : UInt64) : String :=
  "String plan wires " ++ toString wired ++ " modules but the layout contains " ++ toString laidOut

/-- The identifier to emit, when both material and quantity are usable. -/
def usable? (id : Option String) (quantity : Float) : Option String :=
  (nonBlank? id).filter fun _ => Double.isPositive quantity

/-- The line of a usable material and quantity, or no line. -/
def emit (make : String → Float → Catalog → Line) (i : Inputs) (id : Option String)
    (quantity : Float) : List Line :=
  ((usable? id quantity).map fun id => make id quantity i.catalog).toList

/-- Line of a selection or recommendation. -/
def configured (i : Inputs) (id : Option String) (quantity : Float) : List Line :=
  emit Line.configured i id quantity

/-- Line of a derived quantity. -/
def derived (i : Inputs) (id : Option String) (quantity : Float) : List Line :=
  emit Line.derived i id quantity

/-- Is a material listed already? -/
def isListed (lines : List Line) (id : String) : Bool :=
  lines.any fun l => l.materialId == id

/-- The modules. -/
def moduleLines (i : Inputs) : List Line :=
  configured i i.plan.module i.plan.totalModules.toFloat

/-- The inverters, entry by entry. -/
def inverterLines (i : Inputs) : List Line :=
  i.plan.inverters.flatMap fun v => configured i (some v.materialId) v.quantity.toFloat

/-- The warning, when the strings do not wire the modules that are laid out. -/
def parityWarnings (i : Inputs) : List String :=
  let wired := i.plan.stringModules
  let laidOut := i.plan.totalModules
  if wired != laidOut then [parityWarning wired laidOut] else []

/-- Mounting systems per module, and two fasteners for each system. -/
def mountingLines (i : Inputs) : List Line :=
  let systems := wholeUnits (i.plan.totalModules.toFloat * i.coefficients.mountingRatio)
  configured i i.plan.mounting.system systems ++
    if (usable? i.plan.mounting.system systems).isSome then
      configured i i.plan.mounting.fastener (systems * 2.0)
    else []

/-- Four end clamps per row and two mid clamps between neighbouring modules. -/
def clampLines (i : Inputs) : List Line :=
  let rows := i.plan.totalRows
  let between := Count.sub i.plan.totalModules rows
  configured i i.plan.mounting.endClamp (Count.mul rows 4).toFloat ++
    configured i i.plan.mounting.midClamp (Count.mul between 2).toFloat

/-- Rail profiles and connectors, on tile roofs with a profile. -/
def railLines (i : Inputs) : List Line :=
  if i.plan.isTileRoof && (nonBlank? i.plan.mounting.profile).isSome then
    let totals := Rails.totals i.plan.layout (.ofCatalog i.plan i.catalog)
    configured i i.plan.mounting.profile totals.profiles.toFloat ++
      configured i i.plan.mounting.profileConnector totals.connectors.toFloat
  else []

/-- Connector pairs and both conductors of every string. -/
def stringLines (i : Inputs) : List Line :=
  let strings := i.plan.totalStrings.toFloat
  let dc := i.coefficients.dc
  derived i dc.connectorMaterial (strings * dc.connectorPairsPerString) ++
    derived i dc.cableMaterial (strings * dc.cableLengthPerString * 2.0)

/-- The complete selections, optional subsystems first. -/
def selections (p : Plan) : List Selection :=
  ((p.options.named ++ p.electrical.named).filterMap Prod.snd).filter Selection.isComplete

/-- The selected components. -/
def selectionLines (i : Inputs) : List Line :=
  (selections i.plan).flatMap fun s => configured i (some s.materialId) s.quantity.toFloat

/-- Does a complete energy manager do the dongle's work? -/
def managerReplacesDongle (i : Inputs) : Bool :=
  match i.plan.options.energyManagement.filter Selection.isComplete with
  | some m => flagOf? (i.catalog.get? m.materialId) .replacesDongle == some true
  | none => false

/-- Units of the inverters that are known to hold no dongle. -/
def donglesNeeded (i : Inputs) : UInt64 :=
  let without (v : Inverter) : Bool :=
    flagOf? (i.catalog.get? v.materialId) .dongleIntegrated == some false
  ((i.plan.inverters.filter without).map fun v => v.quantity.toUInt64).foldl (· + ·) 0

/-- A dongle for every inverter without one, unless a dongle is selected, an energy manager does
its work, or the dongle is listed already. -/
def dongleLines (i : Inputs) (listed : List Line) : List Line :=
  if 0 < selectedUnits i.plan.options.smartDongle || managerReplacesDongle i then []
  else
    match nonBlank? i.coefficients.dongle with
    | none => []
    | some dongle =>
      if isListed listed dongle then [] else derived i (some dongle) (donglesNeeded i).toFloat

/-- Earth electrodes for the grounding rods, unless listed already. -/
def electrodeLines (i : Inputs) (listed : List Line) : List Line :=
  let rods := selectedUnits i.plan.electrical.groundingRod
  if rods = 0 then []
  else
    match nonBlank? i.coefficients.grounding.electrode with
    | none => []
    | some electrode =>
      if isListed listed electrode then []
      else derived i (some electrode) (rods.toFloat * i.coefficients.grounding.multiplier)

/-- Breaker, cable and residual-current device of an installed subsystem. -/
def subsystemLines (i : Inputs) (s : Subsystem) : List Line :=
  let units := Protection.deviceCount s i.plan
  if units = 0 then []
  else
    let chosen := Protection.chosen s i.plan i.catalog i.coefficients
    let count := units.toFloat
    configured i chosen.breaker count ++
      configured i chosen.cable (count * i.coefficients.ac.cableLengthPerDevice) ++
      configured i chosen.rcd count

/-- The protection devices of all subsystems. -/
def protectionLines (i : Inputs) : List Line :=
  Subsystem.all.flatMap (subsystemLines i)

/-- The devices that a per-device consumable is multiplied with; none for a fixed quantity. -/
def basis (d : DeviceCounts) : Consumable → Option UInt64
  | .equalizationWire | .equalizationRail | .uvCableTies | .protectiveConduit | .fireSeal
  | .circuitLabels => none
  | .inverterFeedCable | .junctionBoxes | .heatShrink => some d.inverters
  | .wallboxFeedCable => some d.wallboxes
  | .backupFeedCable => some d.backups
  | .batteryDcCable => some d.batteries
  | .earthingClamps | .installationTube => some (Count.add d.inverters d.batteries)
  | .ethernetCable | .rj45Plugs => some (Count.add d.inverters d.wallboxes)
  | .cableLugs | .neutralEarthTerminals => some (Count.add d.inverters d.backups)
  | .wireFerrules | .dinRailTerminals =>
    some (Count.add (Count.add d.inverters d.wallboxes) d.backups)
  | .cableTies | .grommets | .cableDuct | .screwsAndDowels | .smallParts =>
    some (Count.add (Count.add (Count.add d.inverters d.batteries) d.wallboxes) d.backups)

/-- Quantity of a consumable. -/
def consumableQuantity (i : Inputs) (k : Consumable) : Float :=
  let item := i.coefficients.consumables k
  match basis i.plan.deviceCounts k with
  | none => item.quantity
  | some devices => devices.toFloat * item.quantity

/-- The flat-rate consumables. -/
def consumableLines (i : Inputs) : List Line :=
  Consumable.all.flatMap fun k =>
    derived i (i.coefficients.consumables k).material (consumableQuantity i k)

/-- The warning label: for backup power, else for a battery, else for a plain installation. -/
def labelLines (i : Inputs) : List Line :=
  let labels := i.coefficients.labels
  let devices := i.plan.deviceCounts
  let label :=
    if 0 < devices.backups then labels.backupPower
    else if 0 < devices.batteries then labels.battery
    else labels.pv
  derived i label labels.quantity

/-- Is anything installed that consumables and a label go with? -/
def hasInstallation (p : Plan) : Bool :=
  0 < p.totalModules || 0 < p.inverterUnits

/-- Lines of the rules that look at nothing but the inputs and come first. -/
def selectedLines (i : Inputs) : List Line :=
  moduleLines i ++ inverterLines i ++ mountingLines i ++ clampLines i ++ railLines i ++
    stringLines i ++ selectionLines i

/-- Append what a rule derives from the lines before it. -/
def followedBy (lines : List Line) (rule : List Line → List Line) : List Line :=
  lines ++ rule lines

/-- All lines, in rule order. -/
def lines (i : Inputs) : List Line :=
  followedBy (followedBy (selectedLines i) (dongleLines i)) (electrodeLines i) ++
    protectionLines i ++
    if hasInstallation i.plan then consumableLines i ++ labelLines i else []

/-- Run all rules. -/
def draft (plan : Plan) (catalog : Catalog) (coefficients : Coefficients) : Draft :=
  let i : Inputs := ⟨plan, catalog, coefficients⟩
  ⟨lines i, parityWarnings i⟩

end SolarBill.Rules
