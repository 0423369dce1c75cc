import SolarBill.Bill.Compile
import SolarBill.Proofs.Bill.Dongles
import SolarBill.Proofs.Rails.Clamps

/-!
# Counts that fit a word

What is entered are words of 32 bits, what is derived from it words of 64 bits.  Entered totals are
plain sums, which would wrap around; clamps and the devices of a consumable are saturating products,
differences and sums, which would stop at the largest word or at zero.  With fewer than `2 ^ 31` of
anything that is added up, all modules together are fewer than `2 ^ 63`, and so are all units of
inverters.  That leaves room for two mid clamps per module, and for the units of three more kinds of
devices.

* `toNat_sum`, `Count.toNat_foldl_add_of_lt` — sums of words that fit;
* `Plan.Moderate` — the plans in question, and the totals of them as numbers;
* `Rules.toNat_basis`, `Rules.toNat_clamps` — saturating arithmetic that does not saturate;
* `Rules.parityWarnings_of_moderate` — the warning compares the true numbers of modules;
* `Rules.moderate_plan_is_counted` — no count of the rules overflows.
-/

namespace SolarBill

/-! ### Sums of words -/

/-- Words are added up to the sum of their numbers, if that fits a word. -/
theorem toNat_sum {α : Type} {xs : List α} {word : α → UInt64} {number : α → Nat}
    (hnumber : ∀ x ∈ xs, (word x).toNat = number x) (hsum : (xs.map number).sum < 2 ^ 64) :
    ((xs.map word).foldl (· + ·) 0).toNat = (xs.map number).sum := by
  have hnumbers : (xs.map word).map UInt64.toNat = xs.map number := by
    rw [List.map_map]
    exact List.map_congr_left hnumber
  rw [← hnumbers] at hsum ⊢
  exact toNat_foldl_add hsum

/-- Entered counts are small words: a sum of them is bounded by their number. -/
theorem sum_entered_le {α : Type} (xs : List α) (count : α → UInt32) :
    (xs.map fun x => (count x).toNat).sum ≤ xs.length * (2 ^ 32 - 1) := by
  induction xs with
  | nil => exact Nat.zero_le _
  | cons x rest ih =>
      have hx : (count x).toNat < 2 ^ 32 := (count x).toNat_lt
      rw [List.map_cons, List.sum_cons, List.length_cons]
      omega

namespace Count

/-- Adding to nothing saturates nowhere. -/
@[simp] theorem zero_add (a : UInt64) : add 0 a = a := by
  rw [← UInt64.toNat_inj, toNat_add, UInt64.toNat_zero, Nat.zero_add]
  exact Nat.min_eq_left (toNat_le_largest a)

/-- A saturating sum that fits a word does not saturate. -/
theorem toNat_foldl_add_of_lt {xs : List UInt64} (h : (xs.map UInt64.toNat).sum < 2 ^ 64) :
    (xs.foldl add 0).toNat = (xs.map UInt64.toNat).sum := by
  rw [toNat_foldl_add, UInt64.toNat_zero, Nat.zero_add]
  unfold largest
  omega

/-- A product that fits a word is exact. -/
theorem toNat_mul_of_lt {a b : UInt64} (h : a.toNat * b.toNat < 2 ^ 64) :
    (mul a b).toNat = a.toNat * b.toNat := by
  rw [toNat_mul]
  unfold largest
  omega

end Count

/-! ### Numbers of a plan -/

/-- Modules that a string plan wires. -/
def Inverter.wired (v : Inverter) : Nat :=
  (v.strings.map fun s => s.moduleCount.toNat).sum

/-- Units of several inverter entries. -/
def Inverter.unitCount (vs : List Inverter) : Nat :=
  (vs.map fun v => v.quantity.toNat).sum

/-- Units of a complete selection. -/
def selectedCount (s : Option Selection) : Nat :=
  (s.filter Selection.isComplete).elim 0 fun s => s.quantity.toNat

namespace Plan

/-- Strings of all inverters. -/
def stringCount (p : Plan) : Nat :=
  (p.inverters.map fun v => v.strings.length).sum

/-- Modules that all string plans wire. -/
def wired (p : Plan) : Nat :=
  (p.inverters.map Inverter.wired).sum

/-- A plan with fewer than `2 ^ 31` rows, inverter entries and strings. -/
structure Moderate (p : Plan) : Prop where
  rows : p.layout.rows.length < 2 ^ 31
  inverters : p.inverters.length < 2 ^ 31
  strings : p.stringCount < 2 ^ 31

end Plan

/-! ### Bounds -/

/-- An entry wires at most a 32-bit word of modules for each of its strings. -/
theorem Inverter.wired_le (v : Inverter) : v.wired ≤ v.strings.length * (2 ^ 32 - 1) :=
  sum_entered_le v.strings ModuleString.moduleCount

/-- Adding up the units of fewer than 2 ^ 31 inverter entries is exact. -/
theorem Inverter.toNat_units {vs : List Inverter} (h : vs.length < 2 ^ 31) :
    (units vs).toNat = unitCount vs ∧ unitCount vs < 2 ^ 63 := by
  have hle : unitCount vs ≤ vs.length * (2 ^ 32 - 1) := sum_entered_le vs Inverter.quantity
  have hlt : unitCount vs < 2 ^ 63 := by omega
  exact ⟨toNat_sum (fun v _ => v.quantity.toNat_toUInt64) (hlt.trans (by decide)), hlt⟩

/-- A selection counts as its quantity, which is a 32-bit word, or as nothing. -/
theorem toNat_selectedUnits (s : Option Selection) :
    (selectedUnits s).toNat = selectedCount s ∧ selectedCount s < 2 ^ 32 := by
  cases s with
  | none => exact ⟨rfl, by decide⟩
  | some s =>
      have hlt : s.quantity.toNat < 2 ^ 32 := s.quantity.toNat_lt
      cases hcomplete : s.isComplete with
      | true => simpa [selectedUnits, selectedCount, hcomplete, Option.filter_some] using hlt
      | false => simp [selectedUnits, selectedCount, hcomplete, Option.filter_some]

namespace Plan.Moderate

variable {p : Plan}

/-- A moderate layout has fewer modules than half a word counts. -/
theorem modules_lt (h : p.Moderate) : p.layout.modules < 2 ^ 63 := by
  have hle : p.layout.modules ≤ p.layout.rows.length * (2 ^ 32 - 1) :=
    sum_entered_le p.layout.rows Prod.snd
  have hrows := h.rows
  omega

theorem wired_lt (h : p.Moderate) : p.wired < 2 ^ 63 := by
  have hle : p.wired ≤ p.stringCount * (2 ^ 32 - 1) := by
    rw [wired, stringCount, ← List.sum_map_mul_right]
    exact List.sum_le_sum fun v _ => v.wired_le
  have hstrings := h.strings
  omega

/-- An entry of a moderate plan has a moderate number of strings. -/
theorem strings_of_mem (h : p.Moderate) {v : Inverter} (hv : v ∈ p.inverters) :
    v.strings.length < 2 ^ 31 := by
  have hle : v.strings.length ≤ p.stringCount :=
    List.le_sum_of_mem (List.mem_map_of_mem hv)
  have hstrings := h.strings
  omega

/-- Counting the modules of a moderate layout is exact. -/
theorem toNat_totalModules (h : p.Moderate) : p.totalModules.toNat = p.layout.modules :=
  Layout.toNat_totalModules (h.modules_lt.trans (by decide))

/-- Counting its rows is exact. -/
theorem toNat_totalRows (h : p.Moderate) : p.totalRows.toNat = p.layout.populated.length := by
  have hle := p.layout.length_populated_le
  have hmodules := h.modules_lt
  exact Layout.toNat_totalRows (by unfold Count.largest; omega)

/-- Counting the strings of an entry is exact. -/
theorem toNat_entryStrings (h : p.Moderate) {v : Inverter} (hv : v ∈ p.inverters) :
    v.totalStrings.toNat = v.strings.length := by
  have hstrings := h.strings_of_mem hv
  rw [Inverter.totalStrings, Count.toNat_ofNatClamp]
  unfold Count.largest
  omega

/-- Counting the strings of all entries is exact. -/
theorem toNat_totalStrings (h : p.Moderate) : p.totalStrings.toNat = p.stringCount :=
  toNat_sum (fun _ hv => h.toNat_entryStrings hv) (h.strings.trans (by decide))

/-- Counting the modules that an entry wires is exact. -/
theorem toNat_entryModules (h : p.Moderate) {v : Inverter} (hv : v ∈ p.inverters) :
    v.stringModules.toNat = v.wired := by
  have hstrings := h.strings_of_mem hv
  have hle := v.wired_le
  have hlt : v.wired < 2 ^ 64 := by omega
  exact toNat_sum (fun s _ => s.moduleCount.toNat_toUInt64) hlt

/-- Counting the wired modules of a moderate plan is exact. -/
theorem toNat_stringModules (h : p.Moderate) : p.stringModules.toNat = p.wired :=
  toNat_sum (fun _ hv => h.toNat_entryModules hv) (h.wired_lt.trans (by decide))

/-- Counting the units of some of the inverter entries is exact. -/
theorem toNat_units (h : p.Moderate) (keep : Inverter → Bool) :
    (Inverter.units (p.inverters.filter keep)).toNat =
        Inverter.unitCount (p.inverters.filter keep) ∧
      Inverter.unitCount (p.inverters.filter keep) < 2 ^ 63 :=
  Inverter.toNat_units ((List.length_filter_le keep p.inverters).trans_lt h.inverters)

end Plan.Moderate

namespace Rules

/-! ### Devices of consumables -/

/-- The devices of a plan, one kind after the other. -/
def allDevices (d : DeviceCounts) : List UInt64 :=
  [d.inverters, d.batteries, d.wallboxes, d.backups]

/-- Devices that a consumable is needed for; none is named for one with a fixed quantity. -/
def devices (d : DeviceCounts) : Consumable → Option (List UInt64)
  | .equalizationWire | .equalizationRail | .uvCableTies | .protectiveConduit | .fireSeal
  | .circuitLabels => none
  | .inverterFeedCable | .junctionBoxes | .heatShrink => some [d.inverters]
  | .wallboxFeedCable => some [d.wallboxes]
  | .backupFeedCable => some [d.backups]
  | .batteryDcCable => some [d.batteries]
  | .earthingClamps | .installationTube => some [d.inverters, d.batteries]
  | .ethernetCable | .rj45Plugs => some [d.inverters, d.wallboxes]
  | .cableLugs | .neutralEarthTerminals => some [d.inverters, d.backups]
  | .wireFerrules | .dinRailTerminals => some [d.inverters, d.wallboxes, d.backups]
  | .cableTies | .grommets | .cableDuct | .screwsAndDowels | .smallParts => some (allDevices d)

/-- The devices of a consumable are added up one kind after the other. -/
theorem basis_eq (d : DeviceCounts) (k : Consumable) :
    basis d k = (devices d k).map fun ds => ds.foldl Count.add 0 := by
  cases k <;> simp [basis, devices, allDevices]

/-- No kind of devices is counted twice. -/
theorem devices_sublist {d : DeviceCounts} {k : Consumable} {ds : List UInt64}
    (h : devices d k = some ds) : ds.Sublist (allDevices d) := by
  cases k <;> simp only [devices, reduceCtorEq, Option.some.injEq] at h <;> subst h <;>
    simp [allDevices]

/-- The units of inverters are bounded as a sum, those of the other kinds are one entered count. -/
theorem sum_allDevices_lt {p : Plan} (h : p.Moderate) :
    ((allDevices p.deviceCounts).map UInt64.toNat).sum < 2 ^ 64 := by
  obtain ⟨hinverters, hlt⟩ := h.toNat_units Inverter.isComplete
  obtain ⟨hbatteries, hbatteries_lt⟩ := toNat_selectedUnits p.options.battery
  obtain ⟨hwallboxes, hwallboxes_lt⟩ := toNat_selectedUnits p.options.wallbox
  obtain ⟨hbackups, hbackups_lt⟩ := toNat_selectedUnits p.options.backup
  have hunits : p.inverterUnits = Inverter.units (p.inverters.filter Inverter.isComplete) := rfl
  simp only [allDevices, Plan.deviceCounts, List.map_cons, List.map_nil, List.sum_cons,
    List.sum_nil, hunits, hinverters, hbatteries, hwallboxes, hbackups]
  omega

/-- No sum of devices saturates, also on the way: what it lost there would be missing in the end. -/
theorem toNat_basis {p : Plan} (h : p.Moderate) (k : Consumable) :
    (basis p.deviceCounts k).map UInt64.toNat =
      (devices p.deviceCounts k).map fun ds => (ds.map UInt64.toNat).sum := by
  rw [basis_eq, Option.map_map]
  refine Option.map_congr fun ds hds => ?_
  have hsublist := (devices_sublist hds).map UInt64.toNat
  have hle := hsublist.sum_le_sum fun _ _ => Nat.zero_le _
  exact Count.toNat_foldl_add_of_lt (hle.trans_lt (sum_allDevices_lt h))

/-! ### Clamps and the warning -/

/-- The clamps of a moderate plan: four for each row, and two for every module behind the first. -/
theorem toNat_clamps {i : Inputs} (h : i.plan.Moderate) :
    (endClamps i).toNat = i.plan.layout.populated.length * 4 ∧
      (laterModules i).toNat + i.plan.layout.populated.length = i.plan.layout.modules ∧
      (midClamps i).toNat = (laterModules i).toNat * 2 := by
  have hle := i.plan.layout.length_populated_le
  have hlt := h.modules_lt
  have hpopulated : i.plan.layout.populated.length < 2 ^ 31 :=
    (List.length_filter_le _ _).trans_lt h.rows
  have hlater : (laterModules i).toNat =
      i.plan.layout.modules - i.plan.layout.populated.length := by
    rw [laterModules, Count.toNat_sub, h.toNat_totalModules, h.toNat_totalRows]
  have hfour : (4 : UInt64).toNat = 4 := rfl
  have htwo : (2 : UInt64).toNat = 2 := rfl
  refine ⟨?_, by omega, ?_⟩
  · rw [endClamps, Count.toNat_mul_of_lt, hfour, h.toNat_totalRows]
    rw [hfour, h.toNat_totalRows]
    omega
  · rw [midClamps, Count.toNat_mul_of_lt, htwo]
    rw [htwo]
    omega

/-- The warning has the numbers of modules, and is there exactly if they differ. -/
theorem parityWarnings_of_moderate {i : Inputs} (h : i.plan.Moderate) :
    parityWarnings i =
      if i.plan.wired = i.plan.layout.modules then []
      else ["String plan wires " ++ toString i.plan.wired ++
        " modules but the layout contains " ++ toString i.plan.layout.modules] := by
  have hsame : i.plan.stringModules = i.plan.totalModules ↔
      i.plan.wired = i.plan.layout.modules := by
    rw [← UInt64.toNat_inj, h.toNat_stringModules, h.toNat_totalModules]
  by_cases hwired : i.plan.wired = i.plan.layout.modules
  · rw [if_pos hwired, parityWarnings_eq_nil_iff]
    exact hsame.mpr hwired
  · have hne := mt hsame.mp hwired
    rw [if_neg hwired, ← h.toNat_stringModules, ← h.toNat_totalModules]
    simp only [parityWarnings, bne_iff_ne, ne_eq, hne, not_false_eq_true, if_true]
    rfl

/-- Every count of the rules is the number that it stands for: no total has wrapped around, no
product, difference or sum has stopped at the largest word or at zero, and the warning of the bill
has the true numbers of modules and is there exactly if these differ. -/
structure Counted (i : Inputs) : Prop where
  modules : i.plan.totalModules.toNat = i.plan.layout.modules
  rows : i.plan.totalRows.toNat = i.plan.layout.populated.length
  entryStrings : ∀ v ∈ i.plan.inverters, v.totalStrings.toNat = v.strings.length
  entryModules : ∀ v ∈ i.plan.inverters, v.stringModules.toNat = v.wired
  strings : i.plan.totalStrings.toNat = i.plan.stringCount
  wired : i.plan.stringModules.toNat = i.plan.wired
  units : i.plan.inverterUnits.toNat =
    Inverter.unitCount (i.plan.inverters.filter Inverter.isComplete)
  inverters : i.plan.deviceCounts.inverters.toNat =
    Inverter.unitCount (i.plan.inverters.filter Inverter.isComplete)
  batteries : i.plan.deviceCounts.batteries.toNat = selectedCount i.plan.options.battery
  wallboxes : i.plan.deviceCounts.wallboxes.toNat = selectedCount i.plan.options.wallbox
  backups : i.plan.deviceCounts.backups.toNat = selectedCount i.plan.options.backup
  dongles : (donglesNeeded i).toNat =
    Inverter.unitCount (i.plan.inverters.filter (lacksDongle i))
  clamps : clampLines i = configured i i.plan.mounting.endClamp (endClamps i).toFloat ++
    configured i i.plan.mounting.midClamp (midClamps i).toFloat
  ends : (endClamps i).toNat = i.plan.layout.populated.length * 4
  later : (laterModules i).toNat + i.plan.layout.populated.length = i.plan.layout.modules
  mids : (midClamps i).toNat = (laterModules i).toNat * 2
  consumables : ∀ k, (basis i.plan.deviceCounts k).map UInt64.toNat =
    (devices i.plan.deviceCounts k).map fun ds => (ds.map UInt64.toNat).sum
  warnings : (compile i.plan i.catalog i.coefficients).warnings =
    if i.plan.wired = i.plan.layout.modules then []
    else ["String plan wires " ++ toString i.plan.wired ++
      " modules but the layout contains " ++ toString i.plan.layout.modules]

/-- **No count overflows** in a plan with fewer than `2 ^ 31` rows, inverter entries and strings,
whatever the counts and quantities are that were entered. -/
theorem moderate_plan_is_counted (i : Inputs) (h : i.plan.Moderate) : Counted i where
  modules := h.toNat_totalModules
  rows := h.toNat_totalRows
  entryStrings _ hv := h.toNat_entryStrings hv
  entryModules _ hv := h.toNat_entryModules hv
  strings := h.toNat_totalStrings
  wired := h.toNat_stringModules
  units := (h.toNat_units Inverter.isComplete).1
  inverters := (h.toNat_units Inverter.isComplete).1
  batteries := (toNat_selectedUnits i.plan.options.battery).1
  wallboxes := (toNat_selectedUnits i.plan.options.wallbox).1
  backups := (toNat_selectedUnits i.plan.options.backup).1
  dongles := (h.toNat_units (lacksDongle i)).1
  clamps := clampLines_eq i
  ends := (toNat_clamps h).1
  later := (toNat_clamps h).2.1
  mids := (toNat_clamps h).2.2
  consumables := toNat_basis h
  warnings := parityWarnings_of_moderate h

/-- Counts and quantities as large as they can be entered. -/
def largestEntries : Inputs where
  plan :=
    { layout := { portrait := [4294967295, 0, 4294967295], landscape := [4294967295] }
      inverters :=
        [⟨"INV", 4294967295, [⟨"S1", 4294967295⟩, ⟨"S2", 4294967295⟩]⟩, ⟨"INV", 4294967295, []⟩]
      options := { battery := some ⟨"BAT", 4294967295⟩, backup := some ⟨"BU", 4294967295⟩ } }
  catalog := .empty
  coefficients := .builtin

/-- None of these totals fits 32 bits, and all of them are exact. -/
theorem moderate_plan_is_counted_largest :
    largestEntries.plan.Moderate ∧
      largestEntries.plan.totalModules.toNat = 12884901885 ∧
      largestEntries.plan.stringModules.toNat = 8589934590 ∧
      largestEntries.plan.inverterUnits.toNat = 8589934590 ∧
      (endClamps largestEntries).toNat = 12 ∧
      (midClamps largestEntries).toNat = 25769803764 ∧
      (basis largestEntries.plan.deviceCounts .cableTies).map UInt64.toNat = some 17179869180 ∧
      (compile largestEntries.plan .empty .builtin).warnings =
        ["String plan wires 8589934590 modules but the layout contains 12884901885"] := by
  have hmoderate : largestEntries.plan.Moderate := ⟨by decide, by decide, by decide⟩
  have hcounted := moderate_plan_is_counted largestEntries hmoderate
  have hrows : largestEntries.plan.layout.populated.length = 3 := by decide
  have hmodules : largestEntries.plan.layout.modules = 12884901885 := by decide
  refine ⟨hmoderate, hcounted.modules.trans hmodules, hcounted.wired.trans (by decide),
    hcounted.units.trans (by decide), hcounted.ends.trans (by rw [hrows]), ?_,
    (hcounted.consumables .cableTies).trans (by decide),
    hcounted.warnings.trans (by decide)⟩
  have hlater := hcounted.later
  have hmids := hcounted.mids
  omega

end Rules

end SolarBill
