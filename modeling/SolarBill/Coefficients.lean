import SolarBill.Plan
import SolarBill.Number.Double

/-!
# Coefficients

The constants and standard materials behind the bill: mounting ratio, connectors and cable runs,
the ampacity table, the dongle, grounding, warning labels, the flat-rate consumables, and the
selections that a new plan starts with.  The rules only read them.

The twenty-five consumables are a function from their kinds: every kind has an item, and nothing
else has one.
-/

namespace SolarBill

open Text

/-- Connectors and cabling of the strings. -/
structure StringWiring where
  connectorMaterial : Option String := none
  connectorPairsPerString : Float
  cableMaterial : Option String := none
  /-- Run of one conductor per string in metres; plus and minus are added. -/
  cableLengthPerString : Float
  deriving DecidableEq, Repr

/-- Cable runs and fixed protection on the alternating-current side. -/
structure DeviceWiring where
  /-- Cable per current-drawing device in metres. -/
  cableLengthPerDevice : Float
  wallboxRcd : Option String := none
  deriving DecidableEq, Repr

/-- One bucket of the ampacity table. -/
structure Bucket where
  crossSection : Float
  maxAmpacity : Float
  breakerRating : Float
  breaker : Option String := none
  cable : Option String := none
  deriving DecidableEq, Repr

/-- Earth electrodes per grounding rod. -/
structure Grounding where
  electrode : Option String := none
  multiplier : Float
  deriving DecidableEq, Repr

/-- Warning labels: one for installations with backup power, one for those with a battery, one for
all others. -/
structure Labels where
  backupPower : Option String := none
  battery : Option String := none
  pv : Option String := none
  quantity : Float
  deriving DecidableEq, Repr

/-- A flat-rate item: a material and a quantity, in total or per device. -/
structure FlatRate where
  material : Option String := none
  quantity : Float := 0.0
  deriving DecidableEq, Repr, Inhabited

/-- The kinds of flat-rate consumables. -/
inductive Consumable where
  | equalizationWire
  | equalizationRail
  | earthingClamps
  | cableTies
  | uvCableTies
  | grommets
  | cableLugs
  | wireFerrules
  | inverterFeedCable
  | wallboxFeedCable
  | backupFeedCable
  | batteryDcCable
  | cableDuct
  | screwsAndDowels
  | junctionBoxes
  | dinRailTerminals
  | neutralEarthTerminals
  | protectiveConduit
  | installationTube
  | fireSeal
  | ethernetCable
  | rj45Plugs
  | heatShrink
  | circuitLabels
  | smallParts
  deriving DecidableEq, Repr

namespace Consumable

/-- All kinds, in line order. -/
def all : List Consumable :=
  [.equalizationWire, .equalizationRail, .earthingClamps, .cableTies, .uvCableTies,
    .grommets, .cableLugs, .wireFerrules, .inverterFeedCable, .wallboxFeedCable,
    .backupFeedCable, .batteryDcCable, .cableDuct, .screwsAndDowels, .junctionBoxes,
    .dinRailTerminals, .neutralEarthTerminals, .protectiveConduit, .installationTube,
    .fireSeal, .ethernetCable, .rj45Plugs, .heatShrink, .circuitLabels, .smallParts]

/-- Name of a kind in the coefficient file. -/
def name : Consumable → String
  | .equalizationWire => "equalization_wire"
  | .equalizationRail => "equalization_rail"
  | .earthingClamps => "earthing_clamps"
  | .cableTies => "cable_ties"
  | .uvCableTies => "uv_cable_ties"
  | .grommets => "grommets"
  | .cableLugs => "cable_lugs"
  | .wireFerrules => "wire_ferrules"
  | .inverterFeedCable => "inverter_feed_cable"
  | .wallboxFeedCable => "wallbox_feed_cable"
  | .backupFeedCable => "backup_feed_cable"
  | .batteryDcCable => "battery_dc_cable"
  | .cableDuct => "cable_duct"
  | .screwsAndDowels => "screws_and_dowels"
  | .junctionBoxes => "junction_boxes"
  | .dinRailTerminals => "din_rail_terminals"
  | .neutralEarthTerminals => "neutral_earth_terminals"
  | .protectiveConduit => "protective_conduit"
  | .installationTube => "installation_tube"
  | .fireSeal => "fire_seal"
  | .ethernetCable => "ethernet_cable"
  | .rj45Plugs => "rj45_plugs"
  | .heatShrink => "heat_shrink"
  | .circuitLabels => "circuit_labels"
  | .smallParts => "small_parts"

/-- There are no other consumables. -/
theorem mem_all (k : Consumable) : k ∈ all := by
  cases k <;> simp [all]

end Consumable

/-- Selections that a new plan starts with. -/
structure Presets where
  module : Option String := none
  roof : Option Roof := none
  mounting : Mounting := {}
  surgeArrester : Option Selection := none
  groundingRod : Option Selection := none
  meterCabinet : Option Selection := none
  deriving DecidableEq, Repr

/-- The coefficients and standard materials behind the bill. -/
structure Coefficients where
  version : String
  /-- Mounting systems per module. -/
  mountingRatio : Float
  dc : StringWiring
  ac : DeviceWiring
  sizing : List Bucket
  dongle : Option String := none
  grounding : Grounding
  labels : Labels
  consumables : Consumable → FlatRate := fun _ => {}
  presets : Presets := {}

/-- A plan with the preset selections and nothing else. -/
def Plan.preset (c : Coefficients) : Plan where
  module := c.presets.module
  roof := c.presets.roof
  mounting := c.presets.mounting
  electrical :=
    { surgeArrester := c.presets.surgeArrester
      groundingRod := c.presets.groundingRod
      meterCabinet := c.presets.meterCabinet }

end SolarBill
