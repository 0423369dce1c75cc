import SolarBill.Text.Blank

/-!
# The planned installation

A plan is what the installer enters: the module and the roof, rows of modules in two orientations,
mounting hardware, inverters with their string plans, optional and electrical components, and the
installer's own choice of protection devices.  Counts that are entered are 32-bit words; totals are
64-bit words.

The totals at the end of the file are what the rules of the bill work with.  An entry without a
material or without units is *incomplete* and counts for nothing.
-/

namespace SolarBill

open Text

/-- Roof that the installation is mounted on. -/
inductive Roof where
  | tile
  | trapezoidal
  | flat
  deriving DecidableEq, Repr

/-- Orientation of a row.  Landscape modules lie with their long edge along the rails, portrait
modules with their short edge. -/
inductive Orientation where
  | portrait
  | landscape
  deriving DecidableEq, Repr

/-- A material with its quantity. -/
structure Selection where
  materialId : String
  quantity : UInt32
  deriving DecidableEq, Repr

/-- A selection is complete when it names a material and at least one unit. -/
def Selection.isComplete (s : Selection) : Bool :=
  !isBlank s.materialId && 0 < s.quantity

/-- Units of an optional selection; none when it is absent or incomplete. -/
def selectedUnits (s : Option Selection) : UInt64 :=
  match s with
  | some s => if s.isComplete then s.quantity.toUInt64 else 0
  | none => 0

/-- Module counts of the rows, by orientation. -/
structure Layout where
  portrait : List UInt32 := []
  landscape : List UInt32 := []
  deriving DecidableEq, Repr

namespace Layout

/-- All rows with their orientation, portrait first. -/
def rows (l : Layout) : List (Orientation × UInt32) :=
  l.portrait.map (Orientation.portrait, ·) ++ l.landscape.map (Orientation.landscape, ·)

/-- The rows that hold modules. -/
def populated (l : Layout) : List (Orientation × UInt32) :=
  l.rows.filter fun row => 0 < row.2

/-- Modules of all rows. -/
def totalModules (l : Layout) : UInt64 :=
  (l.rows.map fun row => row.2.toUInt64).foldl (· + ·) 0

/-- Rows that hold modules, at most the largest word. -/
def totalRows (l : Layout) : UInt64 :=
  .ofNatClamp l.populated.length

end Layout

/-- Mounting hardware.  Quantities are derived, not entered. -/
structure Mounting where
  system : Option String := none
  fastener : Option String := none
  endClamp : Option String := none
  midClamp : Option String := none
  /-- Rail profile, only sized on tile roofs. -/
  profile : Option String := none
  profileConnector : Option String := none
  deriving DecidableEq, Repr

/-- A string of modules on an inverter. -/
structure ModuleString where
  name : String
  moduleCount : UInt32
  deriving DecidableEq, Repr

/-- An inverter model with its units and its string plan, which covers the whole entry. -/
structure Inverter where
  materialId : String
  quantity : UInt32
  strings : List ModuleString := []
  deriving DecidableEq, Repr

namespace Inverter

/-- Names a material and at least one unit. -/
def isComplete (i : Inverter) : Bool :=
  !isBlank i.materialId && 0 < i.quantity

/-- Strings of the entry, at most the largest word. -/
def totalStrings (i : Inverter) : UInt64 :=
  .ofNatClamp i.strings.length

/-- Modules that the string plan wires. -/
def stringModules (i : Inverter) : UInt64 :=
  (i.strings.map fun s => s.moduleCount.toUInt64).foldl (· + ·) 0

end Inverter

/-- Optional subsystems. -/
structure Options where
  optimizer : Option Selection := none
  battery : Option Selection := none
  wallbox : Option Selection := none
  energyManagement : Option Selection := none
  backup : Option Selection := none
  smartDongle : Option Selection := none
  deriving DecidableEq, Repr

/-- The optional subsystems by name, in line order. -/
def Options.named (o : Options) : List (String × Option Selection) :=
  [("optimizer", o.optimizer), ("battery", o.battery), ("wallbox", o.wallbox),
    ("energy_management", o.energyManagement), ("backup", o.backup),
    ("smart_dongle", o.smartDongle)]

/-- Electrical components. -/
structure Electrical where
  surgeArrester : Option Selection := none
  groundingRod : Option Selection := none
  combiner : Option Selection := none
  meterCabinet : Option Selection := none
  connectionBox : Option Selection := none
  auxiliarySupply : Option Selection := none
  deriving DecidableEq, Repr

/-- The electrical components by name, in line order. -/
def Electrical.named (e : Electrical) : List (String × Option Selection) :=
  [("surge_arrester", e.surgeArrester), ("grounding_rod", e.groundingRod),
    ("combiner", e.combiner), ("meter_cabinet", e.meterCabinet),
    ("connection_box", e.connectionBox), ("auxiliary_supply", e.auxiliarySupply)]

/-- Subsystems that draw current and get breaker, cable and residual-current device. -/
inductive Subsystem where
  | inverter
  | wallbox
  | backup
  deriving DecidableEq, Repr

/-- The subsystems in line order. -/
def Subsystem.all : List Subsystem :=
  [.inverter, .wallbox, .backup]

/-- Breaker, cable and residual-current device of one subsystem. -/
structure Protection where
  breaker : Option String := none
  cable : Option String := none
  rcd : Option String := none
  deriving DecidableEq, Repr

/-- Nothing is named. -/
def Protection.isEmpty (p : Protection) : Bool :=
  p.breaker.isNone && p.cable.isNone && p.rcd.isNone

/-- The installer's own protection devices, per subsystem. -/
structure Overrides where
  inverter : Protection := {}
  wallbox : Protection := {}
  backup : Protection := {}
  deriving DecidableEq, Repr

namespace Overrides

/-- The override of a subsystem. -/
def get (o : Overrides) : Subsystem → Protection
  | .inverter => o.inverter
  | .wallbox => o.wallbox
  | .backup => o.backup

/-- Replace the override of a subsystem. -/
def set (o : Overrides) (s : Subsystem) (p : Protection) : Overrides :=
  match s with
  | .inverter => { o with inverter := p }
  | .wallbox => { o with wallbox := p }
  | .backup => { o with backup := p }

/-- Setting one override changes this one only. -/
theorem get_set (o : Overrides) (s t : Subsystem) (p : Protection) :
    (o.set s p).get t = if t = s then p else o.get t := by
  cases s <;> cases t <;> rfl

end Overrides

/-- Installed units of the subsystems that the rules count. -/
structure DeviceCounts where
  inverters : UInt64
  batteries : UInt64
  wallboxes : UInt64
  backups : UInt64
  deriving DecidableEq, Repr

/-- The planned installation. -/
structure Plan where
  module : Option String := none
  roof : Option Roof := none
  layout : Layout := {}
  mounting : Mounting := {}
  inverters : List Inverter := []
  options : Options := {}
  electrical : Electrical := {}
  overrides : Overrides := {}
  deriving DecidableEq, Repr, Inhabited

namespace Plan

/-- Modules of all rows. -/
def totalModules (p : Plan) : UInt64 :=
  p.layout.totalModules

/-- Rows that hold modules. -/
def totalRows (p : Plan) : UInt64 :=
  p.layout.totalRows

/-- Strings of all inverters. -/
def totalStrings (p : Plan) : UInt64 :=
  (p.inverters.map Inverter.totalStrings).foldl (· + ·) 0

/-- Modules that all string plans wire. -/
def stringModules (p : Plan) : UInt64 :=
  (p.inverters.map Inverter.stringModules).foldl (· + ·) 0

/-- Installed inverter units: those of complete entries. -/
def inverterUnits (p : Plan) : UInt64 :=
  ((p.inverters.filter Inverter.isComplete).map fun i => i.quantity.toUInt64).foldl (· + ·) 0

/-- Installed units of the subsystems that the rules count. -/
def deviceCounts (p : Plan) : DeviceCounts where
  inverters := p.inverterUnits
  batteries := selectedUnits p.options.battery
  wallboxes := selectedUnits p.options.wallbox
  backups := selectedUnits p.options.backup

/-- Is the roof a tile roof? -/
def isTileRoof (p : Plan) : Bool :=
  p.roof == some .tile

end Plan

end SolarBill
