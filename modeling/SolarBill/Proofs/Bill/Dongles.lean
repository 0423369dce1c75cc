import SolarBill.Coefficients.Builtin
import SolarBill.Proofs.Bill.Quantities
import SolarBill.Proofs.Number.Counting

/-!
# Dongles for inverters

Inverters that are known to hold no dongle get one each, as one derived line, unless a dongle is
selected, an energy manager does its work, or the dongle is listed already.

The rule looks its inverters up by itself.  An entry with a blank material is no installed inverter
anywhere else, but here it counts when the catalogue has a record under that blank identifier which
says that there is no dongle.

* `Rules.DongleDue`, `Rules.FollowsNeed` — when there is a dongle line, and which one;
* `Rules.donglesNeeded_eq` — the inverters that are counted: installed ones, and blank entries;
* `dongles_follow_inverters` — the dongle line follows what is counted;
* `blank_entry_gets_dongles` — an entry without a material that gets dongles.
-/

namespace SolarBill

open Text

/-! ### Units of inverters -/

/-- Units of several inverter entries. -/
def Inverter.units (vs : List Inverter) : UInt64 :=
  (vs.map fun v => v.quantity.toUInt64).foldl (· + ·) 0

/-- The units of the entries that pass a test, entry by entry. -/
theorem Inverter.units_filter_cons (v : Inverter) (rest : List Inverter) (p : Inverter → Bool) :
    units ((v :: rest).filter p) =
      (if p v then v.quantity.toUInt64 else 0) + units (rest.filter p) := by
  by_cases hv : p v
  · rw [List.filter_cons_of_pos hv, if_pos hv, units, units, List.map_cons, List.foldl_cons,
      UInt64.add_comm 0, List.foldl_assoc]
  · rw [List.filter_cons_of_neg hv, if_neg hv, UInt64.zero_add]

/-- An entry is complete, or its material is blank, or it has no units. -/
theorem Inverter.units_of_entry (v : Inverter) :
    v.quantity.toUInt64 =
      (if v.isComplete then v.quantity.toUInt64 else 0) +
        if isBlank v.materialId then v.quantity.toUInt64 else 0 := by
  by_cases hblank : isBlank v.materialId
  · simp [isComplete, hblank]
  · by_cases hquantity : 0 < v.quantity
    · simp [isComplete, hblank, hquantity]
    · have hzero : v.quantity = 0 := by
        rw [UInt32.lt_iff_toNat_lt] at hquantity
        exact UInt32.toNat_inj.mp (by simpa using hquantity)
      simp [hzero]

/-- Units are those of complete entries and those of entries with a blank material. -/
theorem Inverter.units_filter (vs : List Inverter) (p : Inverter → Bool) :
    units (vs.filter p) =
      units (vs.filter fun v => v.isComplete && p v) +
        units (vs.filter fun v => isBlank v.materialId && p v) := by
  induction vs with
  | nil => rfl
  | cons v rest ih =>
      have hentry := units_of_entry v
      simp only [units_filter_cons, ih]
      by_cases hv : p v
      · simp only [hv, Bool.and_true, if_true]
        grind
      · simp [hv]

namespace Rules

variable {i : Inputs} {listed : List Line} {dongle : String}

/-- The catalogue says of an inverter that it holds no dongle. -/
def lacksDongle (i : Inputs) (v : Inverter) : Bool :=
  flagOf? (i.catalog.get? v.materialId) .dongleIntegrated == some false

/-- Units of the installed inverters that lack a dongle. -/
def installedLacking (i : Inputs) : UInt64 :=
  Inverter.units (i.plan.inverters.filter fun v => v.isComplete && lacksDongle i v)

/-- Units of the entries with a blank material under which the catalogue has an inverter that lacks
a dongle. -/
def blankLacking (i : Inputs) : UInt64 :=
  Inverter.units (i.plan.inverters.filter fun v => isBlank v.materialId && lacksDongle i v)

/-- **The inverters that are counted** are the installed ones, and blank entries. -/
theorem donglesNeeded_eq (i : Inputs) : donglesNeeded i = installedLacking i + blankLacking i :=
  Inverter.units_filter i.plan.inverters (lacksDongle i)

/-- Entries without a material do not count when the catalogue says nothing about the blank name. -/
theorem blankLacking_eq_zero
    (h : ∀ v ∈ i.plan.inverters, isBlank v.materialId = true → lacksDongle i v = false) :
    blankLacking i = 0 := by
  have hnone : (i.plan.inverters.filter fun v => isBlank v.materialId && lacksDongle i v) = [] := by
    rw [List.filter_eq_nil_iff]
    intro v hv hboth
    rw [Bool.and_eq_true] at hboth
    rw [h v hv hboth.1] at hboth
    cases hboth.2
  rw [blankLacking, hnone]
  rfl

/-! ### The dongle line -/

/-- Dongles are needed, and nothing makes them superfluous. -/
structure DongleDue (i : Inputs) (listed : List Line) (needed : UInt64) (dongle : String) : Prop where
  needed : 0 < needed
  notSelected : ¬ ∃ s, i.plan.options.smartDongle = some s ∧ s.isComplete = true
  notReplaced : ¬ ∃ m, i.plan.options.energyManagement = some m ∧ m.isComplete = true ∧
    flagOf? (i.catalog.get? m.materialId) .replacesDongle = some true
  material : i.coefficients.dongle = some dongle
  named : isBlank dongle = false
  notListed : ∀ l ∈ listed, l.materialId ≠ dongle

/-- **The dongle line follows a need**: one derived line of this quantity if dongles are due, and
else no line. -/
structure FollowsNeed (i : Inputs) (listed : List Line) (needed : UInt64) : Prop where
  due : ∀ dongle, DongleDue i listed needed dongle →
    dongleLines i listed = [Line.derived dongle needed.toFloat i.catalog]
  notDue : (∀ dongle, ¬ DongleDue i listed needed dongle) → dongleLines i listed = []

/-- A selection counts when it is there and complete. -/
theorem selectedUnits_pos_iff {o : Option Selection} :
    0 < selectedUnits o ↔ ∃ s, o = some s ∧ s.isComplete = true := by
  cases o with
  | none => simp [selectedUnits]
  | some s =>
      by_cases hcomplete : s.isComplete
      · have hquantity : 0 < s.quantity := by
          simp only [Selection.isComplete, Bool.and_eq_true, decide_eq_true_eq] at hcomplete
          exact hcomplete.2
        have hunits : 0 < s.quantity.toUInt64 := by
          rw [UInt64.lt_iff_toNat_lt, UInt32.toNat_toUInt64]
          exact UInt32.lt_iff_toNat_lt.mp hquantity
        simp [selectedUnits, hcomplete, hunits]
      · simp [selectedUnits, hcomplete]

/-- The energy manager replaces the dongle when it is selected and the catalogue says so. -/
theorem managerReplacesDongle_iff :
    managerReplacesDongle i = true ↔
      ∃ m, i.plan.options.energyManagement = some m ∧ m.isComplete = true ∧
        flagOf? (i.catalog.get? m.materialId) .replacesDongle = some true := by
  rw [managerReplacesDongle]
  cases i.plan.options.energyManagement with
  | none => simp
  | some m => by_cases hcomplete : m.isComplete <;> simp [hcomplete, Option.filter_some]

/-- A count makes a positive quantity when it is not zero. -/
theorem isPositive_toFloat {n : UInt64} : Double.isPositive n.toFloat = true ↔ 0 < n := by
  rw [Double.toFloat_eq_ofCount, Double.isPositive_ofCount n.toNat_lt, UInt64.lt_iff_toNat_lt]
  rfl

/-- The rule is silent where there is a dongle or an energy manager that does its work. -/
theorem silent_iff :
    (0 < selectedUnits i.plan.options.smartDongle || managerReplacesDongle i) = true ↔
      (∃ s, i.plan.options.smartDongle = some s ∧ s.isComplete = true) ∨
        ∃ m, i.plan.options.energyManagement = some m ∧ m.isComplete = true ∧
          flagOf? (i.catalog.get? m.materialId) .replacesDongle = some true := by
  rw [Bool.or_eq_true, decide_eq_true_eq, selectedUnits_pos_iff, managerReplacesDongle_iff]

/-- A dongle that is due makes one line. -/
theorem dongleLines_of_due (h : DongleDue i listed (donglesNeeded i) dongle) :
    dongleLines i listed = [Line.derived dongle (donglesNeeded i).toFloat i.catalog] := by
  have hspeaks := mt silent_iff.mp (not_or.mpr ⟨h.notSelected, h.notReplaced⟩)
  have husable : usable? (some dongle) (donglesNeeded i).toFloat = some dongle := by
    simp [usable?, nonBlank?, h.named, isPositive_toFloat.mpr h.needed, Option.filter_some]
  rw [dongleLines_eq, if_neg hspeaks, unlisted_eq, h.material, husable]
  simp [isListed_eq_false_iff.mpr h.notListed, Option.filter_some]

/-- A line of a dongle is there because the dongle is due. -/
theorem due_of_mem_dongleLines {l : Line} (h : l ∈ dongleLines i listed) :
    DongleDue i listed (donglesNeeded i) l.materialId := by
  obtain ⟨hnew, hnamed, hpos, hdongle, -⟩ := mem_unlisted (dongleLines_subset i listed h)
  have hspeaks : ¬ (0 < selectedUnits i.plan.options.smartDongle || managerReplacesDongle i) := by
    intro hsilent
    rw [dongleLines_eq, if_pos hsilent] at h
    cases h
  obtain ⟨hselected, hreplaced⟩ := not_or.mp (mt silent_iff.mpr hspeaks)
  exact ⟨isPositive_toFloat.mp hpos, hselected, hreplaced, hdongle, hnamed, hnew⟩

/-- The dongle line follows the inverters that the rule counts. -/
theorem followsNeed (i : Inputs) (listed : List Line) : FollowsNeed i listed (donglesNeeded i) where
  due := fun _ hdue => dongleLines_of_due hdue
  notDue := by
    intro hnone
    rw [List.eq_nil_iff_forall_not_mem]
    intro l hl
    exact hnone l.materialId (due_of_mem_dongleLines hl)

end Rules

open Rules in
/-- **Dongles follow the inverters.**  The dongle line follows the units of the installed inverters
that lack a dongle, and of the entries with a blank material for which the catalogue says the same.
If it says this of no such entry, then it follows the installed inverters alone. -/
theorem dongles_follow_inverters (i : Inputs) (listed : List Line) :
    FollowsNeed i listed (installedLacking i + blankLacking i) ∧
    ((∀ v ∈ i.plan.inverters, isBlank v.materialId = true →
        flagOf? (i.catalog.get? v.materialId) .dongleIntegrated ≠ some false) →
      FollowsNeed i listed (installedLacking i)) := by
  have hneeded := donglesNeeded_eq i
  refine ⟨hneeded ▸ followsNeed i listed, ?_⟩
  intro hblank
  have hzero : blankLacking i = 0 := by
    apply blankLacking_eq_zero
    intro v hv hmaterial
    simpa [lacksDongle] using hblank v hv hmaterial
  rw [hzero, UInt64.add_zero] at hneeded
  exact hneeded ▸ followsNeed i listed

/-- A catalogue with an inverter that lacks a dongle, and with a record that has no identifier. -/
def dongleCatalog : Catalog :=
  .ofList
    [ { id := "INV", attributes := [("dongle_integrated", .text "nein")] },
      { id := "", attributes := [("dongle_integrated", .text "nein")] }]

/-- Inverters that lack a dongle, and one of which nothing is known. -/
def donglePlan : Plan where
  inverters := [⟨"INV", 2, []⟩, ⟨"OTHER", 1, []⟩]

open Rules in
/-- The two inverters that lack a dongle get one each, the one of which nothing is known gets none.
-/
theorem dongles_follow_inverters_installed :
    installedLacking ⟨donglePlan, dongleCatalog, .builtin⟩ = 2 ∧
      dongleLines ⟨donglePlan, dongleCatalog, .builtin⟩ [] =
        [Line.derived "SMART-DONGLE-WLAN" 2.0 dongleCatalog] := by
  have hneeded : installedLacking ⟨donglePlan, dongleCatalog, .builtin⟩ = 2 := by
    decide +kernel
  have hdue : DongleDue ⟨donglePlan, dongleCatalog, .builtin⟩ [] 2 "SMART-DONGLE-WLAN" :=
    { needed := by decide
      notSelected := fun ⟨_, hselected, _⟩ => nomatch hselected
      notReplaced := fun ⟨_, hselected, _⟩ => nomatch hselected
      material := rfl
      named := by decide
      notListed := fun _ hl => nomatch hl }
  have hfollows := (dongles_follow_inverters ⟨donglePlan, dongleCatalog, .builtin⟩ []).2 (by decide)
  rw [hneeded] at hfollows
  exact ⟨hneeded, hfollows.due _ hdue⟩

open Rules in
/-- **An entry without a material gets dongles.**  No inverter is installed here. -/
theorem blank_entry_gets_dongles :
    ¬ ∀ (i : Inputs) (listed : List Line), FollowsNeed i listed (installedLacking i) := by
  intro hall
  let i : Inputs := ⟨{ inverters := [⟨"", 3, []⟩] }, dongleCatalog, .builtin⟩
  have hnone : installedLacking i = 0 := by
    decide
  have hlines : dongleLines i [] = [Line.derived "SMART-DONGLE-WLAN" 3.0 dongleCatalog] := by
    decide +kernel
  have hsilent : dongleLines i [] = [] := by
    refine (hall i []).notDue fun dongle hdue => ?_
    have hneeded := hdue.needed
    rw [hnone] at hneeded
    exact absurd hneeded (by decide)
  rw [hlines] at hsilent
  cases hsilent

end SolarBill
