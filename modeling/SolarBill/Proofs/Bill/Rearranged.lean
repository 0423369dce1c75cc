import SolarBill.Coefficients.Builtin
import SolarBill.Proofs.Bill.Lines
import SolarBill.Proofs.Plan.Rearranged

/-!
# Bills of rearranged plans

The lines of the inverters follow the order of the entries, so a rearranged plan has the same lines
in another order.  Consolidating undoes this: the materials are the same, quantities are sorted
before they are added, and the flag of the first line of a material does not change, since all
lines of inverters have the same flag.

* `Rules.lines_rearranged` — the lines of the rules differ by the order of the inverters only;
* `Bill.consolidate_perm` — what consolidating keeps of lines in another order;
* `bill_ignores_order` — the bill of a rearranged plan.
-/

namespace SolarBill

/-! ### Lines of the rules -/

namespace Rules

variable {p q : Plan} {catalog : Catalog} {coefficients : Coefficients}

/-- Whether a material is listed does not depend on the order of the lines. -/
theorem isListed_perm {xs ys : List Line} (h : xs.Perm ys) (id : String) :
    isListed xs id = isListed ys id :=
  h.any_eq

/-- Each entry has its line, so these are rearranged with the entries. -/
theorem inverterLines_perm (h : Inverter.Rearranged p.inverters q.inverters) :
    (inverterLines ⟨p, catalog, coefficients⟩).Perm (inverterLines ⟨q, catalog, coefficients⟩) := by
  have hlines := h.map (f := fun v =>
    configured ⟨p, catalog, coefficients⟩ (some v.materialId) v.quantity.toFloat) fun hvw => by
      rw [hvw.materialId, hvw.quantity]
  exact hlines.flatten

/-- Inverters are configured. -/
theorem isConfigured_of_inverterLines {i : Inputs} {l : Line} (h : l ∈ inverterLines i) :
    l.isConfigured = true := by
  obtain ⟨v, -, hl⟩ := List.mem_flatMap.mp h
  obtain ⟨id, -, -, rfl⟩ := mem_emit hl
  rfl

/-- The warning compares numbers that are the same for both plans. -/
theorem parityWarnings_rearranged (h : p.Rearranged q) :
    parityWarnings ⟨p, catalog, coefficients⟩ = parityWarnings ⟨q, catalog, coefficients⟩ := by
  simp only [parityWarnings, h.stringModules, h.totalModules]

/-- The modules are counted over all rows. -/
theorem moduleLines_rearranged (h : p.Rearranged q) :
    moduleLines ⟨p, catalog, coefficients⟩ = moduleLines ⟨q, catalog, coefficients⟩ := by
  simp only [moduleLines, configured, emit, h.module, h.totalModules]

theorem mountingLines_rearranged (h : p.Rearranged q) :
    mountingLines ⟨p, catalog, coefficients⟩ = mountingLines ⟨q, catalog, coefficients⟩ := by
  simp only [mountingLines, configured, emit, h.mounting, h.totalModules]

/-- The clamps are counted over all rows too. -/
theorem clampLines_rearranged (h : p.Rearranged q) :
    clampLines ⟨p, catalog, coefficients⟩ = clampLines ⟨q, catalog, coefficients⟩ := by
  simp only [clampLines, configured, emit, h.mounting, h.totalModules, h.totalRows]

/-- The profiles are laid row by row, and the rows are the same. -/
theorem railLines_rearranged (h : p.Rearranged q) :
    railLines ⟨p, catalog, coefficients⟩ = railLines ⟨q, catalog, coefficients⟩ := by
  have htotals := Rails.totals_perm h.populated (RailDimensions.ofCatalog q catalog)
  simp only [railLines, configured, emit, h.isTileRoof, h.mounting, h.railDimensions, htotals]

/-- Connectors and cables go by the number of strings. -/
theorem stringLines_rearranged (h : p.Rearranged q) :
    stringLines ⟨p, catalog, coefficients⟩ = stringLines ⟨q, catalog, coefficients⟩ := by
  simp only [stringLines, derived, emit, h.totalStrings]

/-- The selections are the same. -/
theorem selectionLines_rearranged (h : p.Rearranged q) :
    selectionLines ⟨p, catalog, coefficients⟩ = selectionLines ⟨q, catalog, coefficients⟩ := by
  simp only [selectionLines, selections, configured, emit, h.options, h.electrical]

/-- The dongles are counted over all entries. -/
theorem donglesNeeded_rearranged (h : p.Rearranged q) :
    donglesNeeded ⟨p, catalog, coefficients⟩ = donglesNeeded ⟨q, catalog, coefficients⟩ := by
  have hwithout : ∀ {v w : Inverter}, v.Restrung w →
      (flagOf? (catalog.get? v.materialId) .dongleIntegrated == some false) =
        (flagOf? (catalog.get? w.materialId) .dongleIntegrated == some false) := fun hvw => by
    rw [hvw.materialId]
  exact foldl_add_perm ((h.inverters.filter hwithout).map fun hvw => by rw [hvw.quantity])

/-- The dongle lines look at the lines before them, in whatever order. -/
theorem dongleLines_rearranged (h : p.Rearranged q) {xs ys : List Line} (hperm : xs.Perm ys) :
    dongleLines ⟨p, catalog, coefficients⟩ xs = dongleLines ⟨q, catalog, coefficients⟩ ys := by
  have hmanager : managerReplacesDongle ⟨p, catalog, coefficients⟩ =
      managerReplacesDongle ⟨q, catalog, coefficients⟩ := by
    simp only [managerReplacesDongle, h.options]
  simp only [dongleLines, hmanager, derived, emit, h.options, isListed_perm hperm,
    donglesNeeded_rearranged h]

theorem electrodeLines_rearranged (h : p.Rearranged q) {xs ys : List Line} (hperm : xs.Perm ys) :
    electrodeLines ⟨p, catalog, coefficients⟩ xs = electrodeLines ⟨q, catalog, coefficients⟩ ys := by
  simp only [electrodeLines, derived, emit, h.electrical, isListed_perm hperm]

/-- Currents and device counts of a subsystem are the same for both plans. -/
theorem protectionLines_rearranged (h : p.Rearranged q) :
    protectionLines ⟨p, catalog, coefficients⟩ = protectionLines ⟨q, catalog, coefficients⟩ := by
  apply List.flatMap_congr
  intro s _
  simp only [subsystemLines, configured, emit, h.deviceCount, h.chosen]

/-- The consumables go by counts that are the same for both plans. -/
theorem consumableLines_rearranged (h : p.Rearranged q) :
    consumableLines ⟨p, catalog, coefficients⟩ = consumableLines ⟨q, catalog, coefficients⟩ := by
  simp only [consumableLines, consumableQuantity, derived, emit, h.deviceCounts]

theorem labelLines_rearranged (h : p.Rearranged q) :
    labelLines ⟨p, catalog, coefficients⟩ = labelLines ⟨q, catalog, coefficients⟩ := by
  simp only [labelLines, derived, emit, h.deviceCounts]

/-- Lines of the rules that follow the first ones. -/
def laterLines (i : Inputs) (listed : List Line) : List Line :=
  dongleLines i listed ++ electrodeLines i (followedBy listed (dongleLines i)) ++
    protectionLines i ++ if hasInstallation i.plan then consumableLines i ++ labelLines i else []

/-- The selected hardware comes first, and the later lines look at it. -/
theorem lines_eq (i : Inputs) : lines i = selectedLines i ++ laterLines i (selectedLines i) := by
  simp only [lines, laterLines, followedBy, List.append_assoc]

/-- Later lines see of the lines before them which materials are listed, and no order. -/
theorem laterLines_rearranged (h : p.Rearranged q) {xs ys : List Line} (hperm : xs.Perm ys) :
    laterLines ⟨p, catalog, coefficients⟩ xs = laterLines ⟨q, catalog, coefficients⟩ ys := by
  have hdongle : dongleLines ⟨p, catalog, coefficients⟩ xs =
      dongleLines ⟨q, catalog, coefficients⟩ ys := dongleLines_rearranged h hperm
  have hlisted : (followedBy xs (dongleLines ⟨p, catalog, coefficients⟩)).Perm
      (followedBy ys (dongleLines ⟨q, catalog, coefficients⟩)) := by
    rw [followedBy, followedBy, hdongle]
    exact hperm.append_right _
  have hinstallation : hasInstallation p = hasInstallation q := by
    rw [hasInstallation, hasInstallation, h.totalModules, h.inverterUnits]
  simp only [laterLines, hdongle, electrodeLines_rearranged h hlisted, protectionLines_rearranged h,
    hinstallation, consumableLines_rearranged h, labelLines_rearranged h]

/-- **Only the lines of the inverters** are in another order. -/
theorem lines_rearranged (h : p.Rearranged q) (catalog : Catalog) (coefficients : Coefficients) :
    ∃ others,
      lines ⟨p, catalog, coefficients⟩ = moduleLines ⟨q, catalog, coefficients⟩ ++
        inverterLines ⟨p, catalog, coefficients⟩ ++ others ∧
      lines ⟨q, catalog, coefficients⟩ = moduleLines ⟨q, catalog, coefficients⟩ ++
        inverterLines ⟨q, catalog, coefficients⟩ ++ others := by
  have hfirst : ∃ hardware,
      selectedLines ⟨p, catalog, coefficients⟩ = moduleLines ⟨q, catalog, coefficients⟩ ++
        inverterLines ⟨p, catalog, coefficients⟩ ++ hardware ∧
      selectedLines ⟨q, catalog, coefficients⟩ = moduleLines ⟨q, catalog, coefficients⟩ ++
        inverterLines ⟨q, catalog, coefficients⟩ ++ hardware := by
    simp only [selectedLines, moduleLines_rearranged h, mountingLines_rearranged h,
      clampLines_rearranged h, railLines_rearranged h, stringLines_rearranged h,
      selectionLines_rearranged h, List.append_assoc]
    exact ⟨_, rfl, rfl⟩
  obtain ⟨hardware, hp, hq⟩ := hfirst
  have hperm : (selectedLines ⟨p, catalog, coefficients⟩).Perm
      (selectedLines ⟨q, catalog, coefficients⟩) := by
    rw [hp, hq]
    exact ((inverterLines_perm h.inverters).append_left _).append_right _
  refine ⟨hardware ++ laterLines ⟨q, catalog, coefficients⟩
    (selectedLines ⟨q, catalog, coefficients⟩), ?_, ?_⟩
  · rw [lines_eq, laterLines_rearranged h hperm, hp, List.append_assoc _ hardware]
  · rw [lines_eq, ← List.append_assoc _ hardware, ← hq]

end Rules

/-! ### Consolidating lines in another order -/

namespace Bill

/-- Materials are rearranged with the lines. -/
theorem materials_perm {xs ys : List Line} (h : xs.Perm ys) :
    (materials xs).Perm (materials ys) := by
  rw [List.perm_ext_iff_of_nodup (nodup_materials xs) (nodup_materials ys)]
  intro id
  simp only [mem_materials, h.mem_iff]

/-- **Lines in another order** give the same bill in another order, if each material is first listed
under the same flag. -/
theorem consolidate_perm {catalog : Catalog} {xs ys : List Line} (hperm : xs.Perm ys)
    (hcatalog : ∀ l ∈ xs, l.OfCatalog catalog)
    (hflag : ∀ id, firstFlag? xs id = firstFlag? ys id) :
    (consolidate xs).Perm (consolidate ys) := by
  have htotal : ∀ id, total xs id = total ys id := fun id =>
    congrArg Double.sum (Double.sort_eq_of_perm ((hperm.filter _).map _))
  have hmerge : ∀ id, merge? (linesOf xs id) = merge? (linesOf ys id) := by
    intro id
    rw [merge?_linesOf hcatalog, merge?_linesOf fun l hl => hcatalog l (hperm.mem_iff.mpr hl),
      hflag, htotal]
  rw [consolidate, consolidate, funext hmerge]
  exact (materials_perm hperm).filterMap _

/-- The first flag of a material in two lists is the one of the first list, if it has the material.
-/
theorem firstFlag?_append (xs ys : List Line) (id : String) :
    firstFlag? (xs ++ ys) id = (firstFlag? xs id).or (firstFlag? ys id) := by
  rw [firstFlag?, linesOf, List.filter_append, List.head?_append, Option.map_or]
  rfl

/-- All lines are configured, or none of them is. -/
def Flagged (flag : Bool) (lines : List Line) : Prop :=
  ∀ l ∈ lines, l.isConfigured = flag

/-- Lines of one flag have it first. -/
theorem firstFlag?_of_flagged {xs : List Line} {flag : Bool} (h : Flagged flag xs) (id : String) :
    firstFlag? xs id = if id ∈ materials xs then some flag else none := by
  rw [firstFlag?]
  cases hlines : linesOf xs id with
  | nil =>
      rw [if_neg fun hid => linesOf_ne_nil hid hlines]
      rfl
  | cons first rest =>
      have hfirst : first ∈ linesOf xs id := hlines ▸ List.mem_cons_self
      obtain ⟨hmem, hid⟩ := mem_linesOf.mp hfirst
      rw [if_pos (mem_materials.mpr ⟨first, hmem, hid⟩), List.head?_cons, Option.map_some, h first hmem]

/-- Where all flags are the same the first one does not depend on the order. -/
theorem firstFlag?_perm {xs ys : List Line} {flag : Bool} (hperm : xs.Perm ys)
    (h : Flagged flag xs) (id : String) : firstFlag? xs id = firstFlag? ys id := by
  have hys : Flagged flag ys := fun l hl => h l (hperm.mem_iff.mpr hl)
  simp only [firstFlag?_of_flagged h, firstFlag?_of_flagged hys, mem_materials, hperm.mem_iff]

end Bill

/-- **A bill ignores the order of the entries.**  Rows of one orientation, strings of an inverter
entry and inverter entries can be rearranged without changing the warnings or any line of the bill;
only the order of the lines can change, and it stays if the inverter entries stay in their places. -/
theorem bill_ignores_order {p q : Plan} (h : p.Rearranged q) (catalog : Catalog)
    (coefficients : Coefficients) :
    (compile p catalog coefficients).warnings = (compile q catalog coefficients).warnings ∧
    (compile p catalog coefficients).lines.Perm (compile q catalog coefficients).lines ∧
    (List.Forall₂ Inverter.Restrung p.inverters q.inverters →
      (compile p catalog coefficients).lines = (compile q catalog coefficients).lines) := by
  obtain ⟨others, hp, hq⟩ := Rules.lines_rearranged h catalog coefficients
  refine ⟨Rules.parityWarnings_rearranged h, ?_, ?_⟩
  · have hinverters : (Rules.inverterLines ⟨p, catalog, coefficients⟩).Perm
        (Rules.inverterLines ⟨q, catalog, coefficients⟩) := Rules.inverterLines_perm h.inverters
    have hperm : (Rules.lines ⟨p, catalog, coefficients⟩).Perm
        (Rules.lines ⟨q, catalog, coefficients⟩) := by
      rw [hp, hq]
      exact (hinverters.append_left _).append_right _
    rw [compile_lines, compile_lines]
    refine Bill.consolidate_perm hperm (fun l hl => (Rules.emitted_ofCatalog hl).1) ?_
    intro id
    rw [hp, hq]
    simp only [Bill.firstFlag?_append,
      Bill.firstFlag?_perm hinverters fun l hl => Rules.isConfigured_of_inverterLines hl]
  · intro hrestrung
    have hinverters : Rules.inverterLines ⟨p, catalog, coefficients⟩ =
        Rules.inverterLines ⟨q, catalog, coefficients⟩ :=
      congrArg List.flatten (Inverter.map_restrung hrestrung fun hvw => by
        rw [hvw.materialId, hvw.quantity])
    rw [compile_lines, compile_lines, hp, hq, hinverters]

/-- Two rows of modules, each with its own inverter. -/
def eastWestPlan : Plan where
  module := some "MOD"
  layout := { portrait := [3, 2] }
  inverters := [⟨"INV-E", 1, [⟨"E1", 1⟩, ⟨"E2", 2⟩]⟩, ⟨"INV-W", 2, [⟨"W", 2⟩]⟩]

/-- The same rows, and the strings of the first inverter, the other way round. -/
def restrungPlan : Plan :=
  { eastWestPlan with
    layout := { portrait := [2, 3] }
    inverters := [⟨"INV-E", 1, [⟨"E2", 2⟩, ⟨"E1", 1⟩]⟩, ⟨"INV-W", 2, [⟨"W", 2⟩]⟩] }

/-- The inverters, too, the other way round. -/
def westEastPlan : Plan :=
  { restrungPlan with inverters := restrungPlan.inverters.reverse }

/-- Rows and strings the other way round leave the lines as they are; inverters the other way round
rearrange them. -/
theorem bill_ignores_order_eastWest :
    (compile eastWestPlan .empty .builtin).lines = (compile restrungPlan .empty .builtin).lines ∧
      (compile eastWestPlan .empty .builtin).lines.Perm
        (compile westEastPlan .empty .builtin).lines := by
  have hrestrung : List.Forall₂ Inverter.Restrung eastWestPlan.inverters restrungPlan.inverters :=
    .cons ⟨rfl, rfl, by decide⟩ (.cons ⟨rfl, rfl, by decide⟩ .nil)
  have hreversed : List.Forall₂ Inverter.Restrung eastWestPlan.inverters.reverse
      westEastPlan.inverters :=
    .cons ⟨rfl, rfl, by decide⟩ (.cons ⟨rfl, rfl, by decide⟩ .nil)
  have hrows : eastWestPlan.Rearranged restrungPlan :=
    ⟨rfl, rfl, by decide, by decide, rfl, ⟨_, .refl _, hrestrung⟩, rfl, rfl, rfl⟩
  have hall : eastWestPlan.Rearranged westEastPlan :=
    ⟨rfl, rfl, by decide, by decide, rfl, ⟨_, (List.reverse_perm _).symm, hreversed⟩, rfl, rfl, rfl⟩
  exact ⟨(bill_ignores_order hrows .empty .builtin).2.2 hrestrung,
    (bill_ignores_order hall .empty .builtin).2.1⟩

end SolarBill
