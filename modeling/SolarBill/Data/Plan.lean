import SolarBill.Plan
import SolarBill.Wizard
import SolarBill.Data.Reader

/-!
# Plan records

Field names and forms of plans.  Every field of a plan may be missing; the entries of its lists
name their fields in full.
-/

namespace SolarBill

/-- Read one of the values of an enumeration by its name. -/
def decodeChoice {ν α : Type} (r : Reader ν) (values : List α) (name : α → String) (v : ν) :
    Option α :=
  (r.choice? (values.map name) v).bind fun s => values.find? fun a => name a == s

namespace Roof

/-- The roofs. -/
def all : List Roof := [.tile, .trapezoidal, .flat]

/-- Name of a roof in data. -/
def name : Roof → String
  | .tile => "tile"
  | .trapezoidal => "trapezoidal"
  | .flat => "flat"

/-- The roof as a tree. -/
def encode (x : Roof) : Datum := .text x.name

/-- Read a roof. -/
def decode {ν : Type} (r : Reader ν) (v : ν) : Option Roof :=
  decodeChoice r all name v

end Roof

namespace Orientation

/-- Name of an orientation in data. -/
def name : Orientation → String
  | .portrait => "portrait"
  | .landscape => "landscape"

end Orientation

namespace Subsystem

/-- Name of a subsystem in data. -/
def name : Subsystem → String
  | .inverter => "inverter"
  | .wallbox => "wallbox"
  | .backup => "backup"

/-- The subsystem as a tree. -/
def encode (x : Subsystem) : Datum := .text x.name

/-- Read a subsystem. -/
def decode {ν : Type} (r : Reader ν) (v : ν) : Option Subsystem :=
  decodeChoice r all name v

end Subsystem

namespace Stage

/-- The stage as a tree. -/
def encode (x : Stage) : Datum := .text x.name

/-- Read a stage. -/
def decode {ν : Type} (r : Reader ν) (v : ν) : Option Stage :=
  decodeChoice r all name v

end Stage

namespace Selection

/-- The selection as a tree. -/
def encode (s : Selection) : Datum :=
  .record [("material_id", .text s.materialId), ("quantity", .count s.quantity)]

/-- Read a selection. -/
def decode {ν : Type} (r : Reader ν) (v : ν) : Option Selection := do
  let fields ← r.fields? ["material_id", "quantity"] v
  let materialId ← Reader.required fields "material_id" r.text?
  let quantity ← Reader.required fields "quantity" r.count?
  return { materialId, quantity }

/-- A field with an optional selection; none when it is missing. -/
def field {ν : Type} (r : Reader ν) (fields : List (String × ν)) (name : String) :
    Option (Option Selection) :=
  Reader.withDefault fields name none (r.optional (decode r))

end Selection

namespace Layout

/-- A row as a tree. -/
def encodeRow (count : UInt32) : Datum :=
  .record [("module_count", .count count)]

/-- Read a row. -/
def decodeRow {ν : Type} (r : Reader ν) (v : ν) : Option UInt32 := do
  let fields ← r.fields? ["module_count"] v
  Reader.required fields "module_count" r.count?

/-- The layout as a tree. -/
def encode (l : Layout) : Datum :=
  .record
    [("portrait", .listOf encodeRow l.portrait), ("landscape", .listOf encodeRow l.landscape)]

/-- Read a layout. -/
def decode {ν : Type} (r : Reader ν) (v : ν) : Option Layout := do
  let fields ← r.fields? ["portrait", "landscape"] v
  let portrait ← Reader.withDefault fields "portrait" [] (r.listOf (decodeRow r))
  let landscape ← Reader.withDefault fields "landscape" [] (r.listOf (decodeRow r))
  return { portrait, landscape }

end Layout

namespace Mounting

/-- The mounting hardware as a tree. -/
def encode (m : Mounting) : Datum :=
  .record
    [("system", .optionText m.system), ("fastener", .optionText m.fastener),
      ("end_clamp", .optionText m.endClamp), ("mid_clamp", .optionText m.midClamp),
      ("profile", .optionText m.profile), ("profile_connector", .optionText m.profileConnector)]

/-- Read mounting hardware. -/
def decode {ν : Type} (r : Reader ν) (v : ν) : Option Mounting := do
  let fields ← r.fields?
    ["system", "fastener", "end_clamp", "mid_clamp", "profile", "profile_connector"] v
  let system ← r.optionalText fields "system"
  let fastener ← r.optionalText fields "fastener"
  let endClamp ← r.optionalText fields "end_clamp"
  let midClamp ← r.optionalText fields "mid_clamp"
  let profile ← r.optionalText fields "profile"
  let profileConnector ← r.optionalText fields "profile_connector"
  return { system, fastener, endClamp, midClamp, profile, profileConnector }

end Mounting

namespace ModuleString

/-- The string as a tree. -/
def encode (s : ModuleString) : Datum :=
  .record [("name", .text s.name), ("module_count", .count s.moduleCount)]

/-- Read a string. -/
def decode {ν : Type} (r : Reader ν) (v : ν) : Option ModuleString := do
  let fields ← r.fields? ["name", "module_count"] v
  let name ← Reader.required fields "name" r.text?
  let moduleCount ← Reader.required fields "module_count" r.count?
  return { name, moduleCount }

end ModuleString

namespace Inverter

/-- The inverter entry as a tree. -/
def encode (i : Inverter) : Datum :=
  .record
    [("material_id", .text i.materialId), ("quantity", .count i.quantity),
      ("strings", .listOf ModuleString.encode i.strings)]

/-- Read an inverter entry. -/
def decode {ν : Type} (r : Reader ν) (v : ν) : Option Inverter := do
  let fields ← r.fields? ["material_id", "quantity", "strings"] v
  let materialId ← Reader.required fields "material_id" r.text?
  let quantity ← Reader.required fields "quantity" r.count?
  let strings ← Reader.withDefault fields "strings" [] (r.listOf (ModuleString.decode r))
  return { materialId, quantity, strings }

end Inverter

namespace Options

/-- The optional subsystems as a tree. -/
def encode (o : Options) : Datum :=
  .record (o.named.map fun e => (e.1, .option Selection.encode e.2))

/-- Read optional subsystems. -/
def decode {ν : Type} (r : Reader ν) (v : ν) : Option Options := do
  let fields ← r.fields? (named {} |>.map Prod.fst) v
  let optimizer ← Selection.field r fields "optimizer"
  let battery ← Selection.field r fields "battery"
  let wallbox ← Selection.field r fields "wallbox"
  let energyManagement ← Selection.field r fields "energy_management"
  let backup ← Selection.field r fields "backup"
  let smartDongle ← Selection.field r fields "smart_dongle"
  return { optimizer, battery, wallbox, energyManagement, backup, smartDongle }

end Options

namespace Electrical

/-- The electrical components as a tree. -/
def encode (e : Electrical) : Datum :=
  .record (e.named.map fun e => (e.1, .option Selection.encode e.2))

/-- Read electrical components. -/
def decode {ν : Type} (r : Reader ν) (v : ν) : Option Electrical := do
  let fields ← r.fields? (named {} |>.map Prod.fst) v
  let surgeArrester ← Selection.field r fields "surge_arrester"
  let groundingRod ← Selection.field r fields "grounding_rod"
  let combiner ← Selection.field r fields "combiner"
  let meterCabinet ← Selection.field r fields "meter_cabinet"
  let connectionBox ← Selection.field r fields "connection_box"
  let auxiliarySupply ← Selection.field r fields "auxiliary_supply"
  return { surgeArrester, groundingRod, combiner, meterCabinet, connectionBox, auxiliarySupply }

end Electrical

namespace Protection

/-- The protection devices as a tree. -/
def encode (p : Protection) : Datum :=
  .record
    [("breaker_id", .optionText p.breaker), ("cable_id", .optionText p.cable),
      ("rcd_id", .optionText p.rcd)]

/-- Read protection devices. -/
def decode {ν : Type} (r : Reader ν) (v : ν) : Option Protection := do
  let fields ← r.fields? ["breaker_id", "cable_id", "rcd_id"] v
  let breaker ← r.optionalText fields "breaker_id"
  let cable ← r.optionalText fields "cable_id"
  let rcd ← r.optionalText fields "rcd_id"
  return { breaker, cable, rcd }

end Protection

namespace Overrides

/-- The overrides as a tree. -/
def encode (o : Overrides) : Datum :=
  .record (Subsystem.all.map fun s => (s.name, (o.get s).encode))

/-- Read overrides. -/
def decode {ν : Type} (r : Reader ν) (v : ν) : Option Overrides := do
  let fields ← r.fields? ["inverter", "wallbox", "backup"] v
  let inverter ← Reader.withDefault fields "inverter" {} (Protection.decode r)
  let wallbox ← Reader.withDefault fields "wallbox" {} (Protection.decode r)
  let backup ← Reader.withDefault fields "backup" {} (Protection.decode r)
  return { inverter, wallbox, backup }

end Overrides

namespace Plan

/-- The plan as a tree. -/
def encode (p : Plan) : Datum :=
  .record
    [("module", .optionText p.module), ("roof", .option Roof.encode p.roof),
      ("layout", p.layout.encode), ("mounting", p.mounting.encode),
      ("inverters", .listOf Inverter.encode p.inverters), ("options", p.options.encode),
      ("electrical", p.electrical.encode), ("overrides", p.overrides.encode)]

/-- Read a plan. -/
def decode {ν : Type} (r : Reader ν) (v : ν) : Option Plan := do
  let fields ← r.fields?
    ["module", "roof", "layout", "mounting", "inverters", "options", "electrical", "overrides"] v
  let module ← r.optionalText fields "module"
  let roof ← Reader.withDefault fields "roof" none (r.optional (Roof.decode r))
  let layout ← Reader.withDefault fields "layout" {} (Layout.decode r)
  let mounting ← Reader.withDefault fields "mounting" {} (Mounting.decode r)
  let inverters ← Reader.withDefault fields "inverters" [] (r.listOf (Inverter.decode r))
  let options ← Reader.withDefault fields "options" {} (Options.decode r)
  let electrical ← Reader.withDefault fields "electrical" {} (Electrical.decode r)
  let overrides ← Reader.withDefault fields "overrides" {} (Overrides.decode r)
  return { module, roof, layout, mounting, inverters, options, electrical, overrides }

end Plan

end SolarBill
