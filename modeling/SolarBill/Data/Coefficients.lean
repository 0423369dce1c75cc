import SolarBill.Coefficients
import SolarBill.Data.Plan

/-!
# Coefficient records

Field names and forms of coefficient sets.
-/

namespace SolarBill

namespace StringWiring

/-- The string wiring as a tree. -/
def encode (w : StringWiring) : Datum :=
  .record
    [("connector_material", .optionText w.connectorMaterial),
      ("connector_pairs_per_string", .real w.connectorPairsPerString),
      ("cable_material", .optionText w.cableMaterial),
      ("cable_length_per_string_m", .real w.cableLengthPerString)]

/-- Read string wiring. -/
def decode {ν : Type} (r : Reader ν) (v : ν) : Option StringWiring := do
  let fields ← r.fields? ["connector_material", "connector_pairs_per_string", "cable_material",
    "cable_length_per_string_m"] v
  let connectorMaterial ← r.optionalText fields "connector_material"
  let connectorPairsPerString ← Reader.required fields "connector_pairs_per_string" r.real?
  let cableMaterial ← r.optionalText fields "cable_material"
  let cableLengthPerString ← Reader.required fields "cable_length_per_string_m" r.real?
  return { connectorMaterial, connectorPairsPerString, cableMaterial, cableLengthPerString }

end StringWiring

namespace DeviceWiring

/-- The device wiring as a tree. -/
def encode (w : DeviceWiring) : Datum :=
  .record
    [("cable_length_per_device_m", .real w.cableLengthPerDevice),
      ("wallbox_rcd_material", .optionText w.wallboxRcd)]

/-- Read device wiring. -/
def decode {ν : Type} (r : Reader ν) (v : ν) : Option DeviceWiring := do
  let fields ← r.fields? ["cable_length_per_device_m", "wallbox_rcd_material"] v
  let cableLengthPerDevice ← Reader.required fields "cable_length_per_device_m" r.real?
  let wallboxRcd ← r.optionalText fields "wallbox_rcd_material"
  return { cableLengthPerDevice, wallboxRcd }

end DeviceWiring

namespace Bucket

/-- The bucket as a tree. -/
def encode (b : Bucket) : Datum :=
  .record
    [("cross_section_mm2", .real b.crossSection), ("max_ampacity_a", .real b.maxAmpacity),
      ("breaker_rating_a", .real b.breakerRating), ("breaker_material", .optionText b.breaker),
      ("cable_material", .optionText b.cable)]

/-- Read a bucket. -/
def decode {ν : Type} (r : Reader ν) (v : ν) : Option Bucket := do
  let fields ← r.fields? ["cross_section_mm2", "max_ampacity_a", "breaker_rating_a",
    "breaker_material", "cable_material"] v
  let crossSection ← Reader.required fields "cross_section_mm2" r.real?
  let maxAmpacity ← Reader.required fields "max_ampacity_a" r.real?
  let breakerRating ← Reader.required fields "breaker_rating_a" r.real?
  let breaker ← r.optionalText fields "breaker_material"
  let cable ← r.optionalText fields "cable_material"
  return { crossSection, maxAmpacity, breakerRating, breaker, cable }

end Bucket

namespace Grounding

/-- The grounding coefficients as a tree. -/
def encode (g : Grounding) : Datum :=
  .record
    [("electrode_material", .optionText g.electrode), ("multiplier", .real g.multiplier)]

/-- Read grounding coefficients. -/
def decode {ν : Type} (r : Reader ν) (v : ν) : Option Grounding := do
  let fields ← r.fields? ["electrode_material", "multiplier"] v
  let electrode ← r.optionalText fields "electrode_material"
  let multiplier ← Reader.required fields "multiplier" r.real?
  return { electrode, multiplier }

end Grounding

namespace Labels

/-- The labels as a tree. -/
def encode (l : Labels) : Datum :=
  .record
    [("backup_power", .optionText l.backupPower), ("battery", .optionText l.battery),
      ("pv", .optionText l.pv), ("quantity", .real l.quantity)]

/-- Read labels. -/
def decode {ν : Type} (r : Reader ν) (v : ν) : Option Labels := do
  let fields ← r.fields? ["backup_power", "battery", "pv", "quantity"] v
  let backupPower ← r.optionalText fields "backup_power"
  let battery ← r.optionalText fields "battery"
  let pv ← r.optionalText fields "pv"
  let quantity ← Reader.required fields "quantity" r.real?
  return { backupPower, battery, pv, quantity }

end Labels

namespace FlatRate

/-- The item as a tree. -/
def encode (f : FlatRate) : Datum :=
  .record [("material", .optionText f.material), ("quantity", .real f.quantity)]

/-- Read an item. -/
def decode {ν : Type} (r : Reader ν) (v : ν) : Option FlatRate := do
  let fields ← r.fields? ["material", "quantity"] v
  let material ← r.optionalText fields "material"
  let quantity ← Reader.withDefault fields "quantity" 0.0 r.real?
  return { material, quantity }

end FlatRate

namespace Consumable

/-- The items of all kinds as a tree. -/
def encodeItems (items : Consumable → FlatRate) : Datum :=
  .record (all.map fun k => (k.name, (items k).encode))

/-- Read the items of all kinds; a kind that is missing has an empty item. -/
def decodeItems {ν : Type} (r : Reader ν) (v : ν) : Option (Consumable → FlatRate) := do
  let fields ← r.fields? (all.map name) v
  let items ← all.mapM fun k =>
    (Reader.withDefault fields k.name {} (FlatRate.decode r)).map fun item => (k, item)
  return fun k => (items.lookup k).getD {}

end Consumable

namespace Presets

/-- The presets as a tree. -/
def encode (p : Presets) : Datum :=
  .record
    [("module", .optionText p.module), ("roof", .option Roof.encode p.roof),
      ("mounting_system", .optionText p.mounting.system),
      ("fastener", .optionText p.mounting.fastener),
      ("end_clamp", .optionText p.mounting.endClamp),
      ("mid_clamp", .optionText p.mounting.midClamp),
      ("profile", .optionText p.mounting.profile),
      ("profile_connector", .optionText p.mounting.profileConnector),
      ("surge_arrester", .option Selection.encode p.surgeArrester),
      ("grounding_rod", .option Selection.encode p.groundingRod),
      ("meter_cabinet", .option Selection.encode p.meterCabinet)]

/-- Read presets. -/
def decode {ν : Type} (r : Reader ν) (v : ν) : Option Presets := do
  let fields ← r.fields? ["module", "roof", "mounting_system", "fastener", "end_clamp",
    "mid_clamp", "profile", "profile_connector", "surge_arrester", "grounding_rod",
    "meter_cabinet"] v
  let module ← r.optionalText fields "module"
  let roof ← Reader.withDefault fields "roof" none (r.optional (Roof.decode r))
  let system ← r.optionalText fields "mounting_system"
  let fastener ← r.optionalText fields "fastener"
  let endClamp ← r.optionalText fields "end_clamp"
  let midClamp ← r.optionalText fields "mid_clamp"
  let profile ← r.optionalText fields "profile"
  let profileConnector ← r.optionalText fields "profile_connector"
  let surgeArrester ← Selection.field r fields "surge_arrester"
  let groundingRod ← Selection.field r fields "grounding_rod"
  let meterCabinet ← Selection.field r fields "meter_cabinet"
  let mounting : Mounting := { system, fastener, endClamp, midClamp, profile, profileConnector }
  return { module, roof, mounting, surgeArrester, groundingRod, meterCabinet }

end Presets

namespace Coefficients

/-- The coefficient set as a tree. -/
def encode (c : Coefficients) : Datum :=
  .record
    [("version", .text c.version),
      ("mounting", .record [("ratio", .real c.mountingRatio)]),
      ("dc", c.dc.encode), ("ac", c.ac.encode), ("sizing", .listOf Bucket.encode c.sizing),
      ("dongle", .record [("default_material", .optionText c.dongle)]),
      ("grounding", c.grounding.encode), ("labels", c.labels.encode),
      ("consumables", Consumable.encodeItems c.consumables), ("defaults", c.presets.encode)]

/-- Read the mounting ratio from its record. -/
def decodeRatio {ν : Type} (r : Reader ν) (v : ν) : Option Float := do
  let fields ← r.fields? ["ratio"] v
  Reader.required fields "ratio" r.real?

/-- Read the dongle from its record. -/
def decodeDongle {ν : Type} (r : Reader ν) (v : ν) : Option (Option String) := do
  let fields ← r.fields? ["default_material"] v
  r.optionalText fields "default_material"

/-- Read a coefficient set. -/
def decode {ν : Type} (r : Reader ν) (v : ν) : Option Coefficients := do
  let fields ← r.fields? ["version", "mounting", "dc", "ac", "sizing", "dongle", "grounding",
    "labels", "consumables", "defaults"] v
  let version ← Reader.required fields "version" r.text?
  let mountingRatio ← Reader.required fields "mounting" (decodeRatio r)
  let dc ← Reader.required fields "dc" (StringWiring.decode r)
  let ac ← Reader.required fields "ac" (DeviceWiring.decode r)
  let sizing ← Reader.required fields "sizing" (r.listOf (Bucket.decode r))
  let dongle ← Reader.withDefault fields "dongle" none (decodeDongle r)
  let grounding ← Reader.required fields "grounding" (Grounding.decode r)
  let labels ← Reader.required fields "labels" (Labels.decode r)
  let consumables ← Reader.withDefault fields "consumables" (fun _ => {}) (Consumable.decodeItems r)
  let presets ← Reader.withDefault fields "defaults" {} (Presets.decode r)
  return { version, mountingRatio, dc, ac, sizing, dongle, grounding, labels, consumables, presets }

end Coefficients

end SolarBill
