import SolarBill.Bill.Rules
import SolarBill.Proofs.Number.Order

/-!
# Rearranged plans

Rows of one orientation, strings of one inverter entry and inverter entries are entered in some
order that means nothing.  A plan is *rearranged* when only these orders change
(`Plan.Rearranged`).  The rules see rows, strings and entries through totals alone, apart from the
lines of the inverters, and each of these totals is a fold that does not depend on the order.
-/

namespace SolarBill

/-! ### Folds that forget the order -/

/-- Adding up words does not depend on their order. -/
theorem foldl_add_perm {xs ys : List UInt64} (h : xs.Perm ys) :
    xs.foldl (· + ·) 0 = ys.foldl (· + ·) 0 :=
  h.foldl_eq 0

/-- Saturating additions change places. -/
theorem Count.add_right_comm (a b c : UInt64) :
    Count.add (Count.add a b) c = Count.add (Count.add a c) b := by
  rw [← UInt64.toNat_inj]
  simp only [Count.toNat_add]
  omega

/-- What the rails come to does not depend on the order of the rows. -/
theorem Rails.totals_perm {α : Type} [RailNumber α] {l k : Layout} (h : l.populated.Perm k.populated)
    (d : RailDimensions α) : Rails.totals l d = Rails.totals k d := by
  have : RightCommutative fun (acc : RailTotals) (row : RowGeometry α) =>
      RailTotals.mk (Count.add acc.profiles row.profiles)
        (Count.add acc.connectors row.connectors) := by
    constructor
    intro acc row other
    simp only [RailTotals.mk.injEq]
    exact ⟨Count.add_right_comm _ _ _, Count.add_right_comm _ _ _⟩
  exact (h.map _).foldl_eq _

/-! ### Rearranged entries -/

/-- The same inverter entry, with its strings in another order. -/
structure Inverter.Restrung (v w : Inverter) : Prop where
  materialId : v.materialId = w.materialId
  quantity : v.quantity = w.quantity
  strings : v.strings.Perm w.strings

namespace Inverter.Restrung

variable {v w : Inverter}

/-- Strings do not matter to whether an entry is complete. -/
theorem isComplete (h : v.Restrung w) : v.isComplete = w.isComplete := by
  rw [Inverter.isComplete, Inverter.isComplete, h.materialId, h.quantity]

/-- There are as many strings. -/
theorem totalStrings (h : v.Restrung w) : v.totalStrings = w.totalStrings := by
  rw [Inverter.totalStrings, Inverter.totalStrings, h.strings.length_eq]

theorem stringModules (h : v.Restrung w) : v.stringModules = w.stringModules :=
  foldl_add_perm (h.strings.map _)

end Inverter.Restrung

/-- Entries in another order, each with its strings in another order. -/
def Inverter.Rearranged (vs ws : List Inverter) : Prop :=
  ∃ us, vs.Perm us ∧ List.Forall₂ Inverter.Restrung us ws

/-- What depends on an entry only up to the order of its strings is the same along the lists. -/
theorem Inverter.map_restrung {α : Type} {f : Inverter → α} {vs ws : List Inverter}
    (h : List.Forall₂ Inverter.Restrung vs ws)
    (hf : ∀ {v w : Inverter}, v.Restrung w → f v = f w) : vs.map f = ws.map f := by
  induction h with
  | nil => rfl
  | cons hvw _ ih => rw [List.map_cons, List.map_cons, hf hvw, ih]

namespace Inverter.Rearranged

variable {vs ws : List Inverter}

/-- Entries that are kept, whatever the order of their strings, are rearranged too. -/
theorem filter (h : Inverter.Rearranged vs ws) {keep : Inverter → Bool}
    (hkeep : ∀ {v w : Inverter}, v.Restrung w → keep v = keep w) :
    Inverter.Rearranged (vs.filter keep) (ws.filter keep) := by
  obtain ⟨us, hperm, hrestrung⟩ := h
  refine ⟨us.filter keep, hperm.filter keep, ?_⟩
  exact List.rel_filter (fun _ _ hvw => Bool.eq_iff_iff.mp (hkeep hvw)) hrestrung

theorem map {α : Type} {f : Inverter → α} (h : Inverter.Rearranged vs ws)
    (hf : ∀ {v w : Inverter}, v.Restrung w → f v = f w) : (vs.map f).Perm (ws.map f) := by
  obtain ⟨us, hperm, hrestrung⟩ := h
  rw [← Inverter.map_restrung hrestrung hf]
  exact hperm.map f

end Inverter.Rearranged

/-- The same plan, with rows, strings and inverter entries in other orders. -/
structure Plan.Rearranged (p q : Plan) : Prop where
  module : p.module = q.module
  roof : p.roof = q.roof
  portrait : p.layout.portrait.Perm q.layout.portrait
  landscape : p.layout.landscape.Perm q.layout.landscape
  mounting : p.mounting = q.mounting
  inverters : Inverter.Rearranged p.inverters q.inverters
  options : p.options = q.options
  electrical : p.electrical = q.electrical
  overrides : p.overrides = q.overrides

/-! ### Totals -/

namespace Plan.Rearranged

variable {p q : Plan}

/-- Portrait and landscape rows are rearranged each. -/
theorem rows (h : p.Rearranged q) : p.layout.rows.Perm q.layout.rows :=
  (h.portrait.map _).append (h.landscape.map _)

theorem populated (h : p.Rearranged q) : p.layout.populated.Perm q.layout.populated :=
  h.rows.filter _

/-- The modules are as many. -/
theorem totalModules (h : p.Rearranged q) : p.totalModules = q.totalModules :=
  foldl_add_perm (h.rows.map _)

theorem totalRows (h : p.Rearranged q) : p.totalRows = q.totalRows := by
  rw [Plan.totalRows, Layout.totalRows, h.populated.length_eq]
  rfl

theorem totalStrings (h : p.Rearranged q) : p.totalStrings = q.totalStrings :=
  foldl_add_perm (h.inverters.map fun hvw => hvw.totalStrings)

theorem stringModules (h : p.Rearranged q) : p.stringModules = q.stringModules :=
  foldl_add_perm (h.inverters.map fun hvw => hvw.stringModules)

theorem inverterUnits (h : p.Rearranged q) : p.inverterUnits = q.inverterUnits :=
  foldl_add_perm ((h.inverters.filter fun hvw => hvw.isComplete).map fun hvw => by
    rw [hvw.quantity])

/-- The device counts of all subsystems are the same. -/
theorem deviceCounts (h : p.Rearranged q) : p.deviceCounts = q.deviceCounts := by
  simp only [Plan.deviceCounts, h.inverterUnits, h.options]

theorem deviceCount (h : p.Rearranged q) (s : Subsystem) :
    Protection.deviceCount s p = Protection.deviceCount s q := by
  cases s <;> simp only [Protection.deviceCount, h.deviceCounts]

/-- The largest current of the inverters does not depend on their order. -/
theorem demand? (h : p.Rearranged q) (s : Subsystem) (catalog : Catalog) :
    Protection.demand? s p catalog = Protection.demand? s q catalog := by
  have hcurrents : ((p.inverters.filter Inverter.isComplete).map fun v =>
        Protection.currentOf catalog v.materialId).foldl Double.max 0.0 =
      ((q.inverters.filter Inverter.isComplete).map fun v =>
        Protection.currentOf catalog v.materialId).foldl Double.max 0.0 :=
    Double.foldl_max_perm ((h.inverters.filter fun hvw => hvw.isComplete).map fun hvw => by
      rw [hvw.materialId])
  cases s <;> simp only [Protection.demand?, h.deviceCount, h.options, hcurrents]

/-- The protection of a subsystem goes by currents and counts, not by places. -/
theorem chosen (h : p.Rearranged q) (s : Subsystem) (catalog : Catalog) (c : Coefficients) :
    Protection.chosen s p catalog c = Protection.chosen s q catalog c := by
  simp only [Protection.chosen, Protection.recommended, h.demand?, h.overrides]

/-- The roof is the same. -/
theorem isTileRoof (h : p.Rearranged q) : p.isTileRoof = q.isTileRoof := by
  rw [Plan.isTileRoof, Plan.isTileRoof, h.roof]

/-- The dimensions of the rails are read from the same materials. -/
theorem railDimensions (h : p.Rearranged q) (catalog : Catalog) :
    RailDimensions.ofCatalog p catalog = RailDimensions.ofCatalog q catalog := by
  simp only [RailDimensions.ofCatalog, h.module, h.mounting]

end Plan.Rearranged

end SolarBill
