import SolarBill.Coefficients

/-!
# Built-in coefficients

The coefficients that are used, and written out for editing, when there is no coefficient file.
-/

namespace SolarBill.Coefficients

/-- A bucket whose breaker is rated at its ampacity. -/
def bucket (crossSection ampacity : Float) (breaker cable : String) : Bucket where
  crossSection := crossSection
  maxAmpacity := ampacity
  breakerRating := ampacity
  breaker := some breaker
  cable := some cable

/-- The built-in ampacity table. -/
def builtinSizing : List Bucket :=
  [ bucket 1.5 16.0 "MCB-B16-3P" "NYM-J-5X1.5",
    bucket 2.5 20.0 "MCB-B20-3P" "NYM-J-5X2.5",
    bucket 4.0 25.0 "MCB-B25-3P" "NYM-J-5X4",
    bucket 6.0 32.0 "MCB-B32-3P" "NYM-J-5X6",
    bucket 10.0 40.0 "MCB-B40-3P" "NYM-J-5X10",
    bucket 16.0 63.0 "MCB-B63-3P" "NYY-J-5X16",
    bucket 25.0 80.0 "MCB-C80-3P" "NYY-J-5X25",
    bucket 35.0 100.0 "MCB-C100-3P" "NYY-J-5X35"]

/-- The built-in consumables. -/
def builtinConsumables : Consumable → FlatRate
  | .equalizationWire => ⟨some "H07V-K-16-GNYE", 20.0⟩
  | .equalizationRail => ⟨some "PE-RAIL", 1.0⟩
  | .earthingClamps => ⟨some "EARTHING-CLAMP", 2.0⟩
  | .cableTies => ⟨some "CABLE-TIE-200", 25.0⟩
  | .uvCableTies => ⟨some "CABLE-TIE-UV-300", 50.0⟩
  | .grommets => ⟨some "GROMMET-M25", 4.0⟩
  | .cableLugs => ⟨some "CABLE-LUG-16", 4.0⟩
  | .wireFerrules => ⟨some "FERRULE-SET", 1.0⟩
  | .inverterFeedCable => ⟨some "NYM-J-5X2.5", 5.0⟩
  | .wallboxFeedCable => ⟨some "NYM-J-5X6", 5.0⟩
  | .backupFeedCable => ⟨some "NYM-J-5X10", 5.0⟩
  | .batteryDcCable => ⟨some "H07RN-F-1X25", 4.0⟩
  | .cableDuct => ⟨some "CABLE-DUCT-40X60", 4.0⟩
  | .screwsAndDowels => ⟨some "SCREW-DOWEL-SET", 1.0⟩
  | .junctionBoxes => ⟨some "JUNCTION-BOX-AP", 1.0⟩
  | .dinRailTerminals => ⟨some "TERMINAL-DIN-4", 5.0⟩
  | .neutralEarthTerminals => ⟨some "TERMINAL-N-PE", 2.0⟩
  | .protectiveConduit => ⟨some "CONDUIT-M25", 10.0⟩
  | .installationTube => ⟨some "TUBE-M32", 3.0⟩
  | .fireSeal => ⟨some "FIRE-SEAL-CARTRIDGE", 1.0⟩
  | .ethernetCable => ⟨some "CAT7-CABLE", 10.0⟩
  | .rj45Plugs => ⟨some "RJ45-PLUG", 2.0⟩
  | .heatShrink => ⟨some "HEAT-SHRINK-SET", 1.0⟩
  | .circuitLabels => ⟨some "CIRCUIT-LABEL-SET", 1.0⟩
  | .smallParts => ⟨some "SMALL-PARTS-FLAT", 1.0⟩

/-- The built-in selections of a new plan. -/
def builtinPresets : Presets where
  roof := some .tile
  mounting :=
    { system := some "ROOF-HOOK-TILE"
      fastener := some "WOOD-SCREW-8X100"
      endClamp := some "END-CLAMP-35"
      midClamp := some "MID-CLAMP-35"
      profile := some "RAIL-PROFILE-6000"
      profileConnector := some "RAIL-CONNECTOR" }
  surgeArrester := some ⟨"SPD-DC-1000", 1⟩

/-- The built-in coefficients. -/
def builtin : Coefficients where
  version := "1.0"
  mountingRatio := 1.6
  dc :=
    { connectorMaterial := some "MC4-PAIR"
      connectorPairsPerString := 2.0
      cableMaterial := some "H1Z2Z2-K-6"
      cableLengthPerString := 25.0 }
  ac := { cableLengthPerDevice := 15.0, wallboxRcd := some "RCD-TYPE-A-40-30" }
  sizing := builtinSizing
  dongle := some "SMART-DONGLE-WLAN"
  grounding := { electrode := some "EARTH-ELECTRODE-1.5M", multiplier := 2.0 }
  labels :=
    { backupPower := some "LABEL-PV-BACKUP"
      battery := some "LABEL-PV-BATTERY"
      pv := some "LABEL-PV"
      quantity := 1.0 }
  consumables := builtinConsumables
  presets := builtinPresets

instance : Inhabited Coefficients := ⟨builtin⟩

end SolarBill.Coefficients
