import SolarBill.Bill.Rules
import SolarBill.Coefficients.Builtin
import SolarBill.Proofs.Plan.Totals

/-!
# Clamps of rows

The bill counts clamps from totals: four end clamps for every row, and two mid clamps for every
module that is not the first of its row.  The rails are cut for the clamps that each row has on its
own.

* `Rails.sum_endClamps`, `Rails.sum_midClamps` — the clamps of several rows, added up;
* `clamps_follow_rows` — both counts agree, and no saturating step on the way saturates, for a
  layout of fewer than `2 ^ 62` modules.
-/

namespace SolarBill

namespace Rails

variable {α : Type} [RailNumber α]

/-- Geometry of several rows, each with its own module edge along the rails. -/
def geometries (rows : List (Orientation × UInt32)) (edge : Orientation × UInt32 → α)
    (d : RailDimensions α) : List (RowGeometry α) :=
  rows.map fun row => rowGeometry row.2 (edge row) d

/-- A row has fewer than `2 ^ 32` modules, so its mid clamps fit a word. -/
theorem toNat_midClampsOf (modules : UInt32) :
    (midClampsOf modules).toNat = 2 * (modules.toNat - 1) := by
  have hlt : modules.toNat < 2 ^ 32 := modules.toNat_lt
  have hone : (1 : UInt64).toNat = 1 := rfl
  have htwo : (2 : UInt64).toNat = 2 := rfl
  rw [midClampsOf, Count.toNat_mul, Count.toNat_sub, UInt32.toNat_toUInt64, hone, htwo]
  unfold Count.largest
  omega

/-- Four end clamps for each row. -/
theorem sum_endClamps (rows : List (Orientation × UInt32)) (edge : Orientation × UInt32 → α)
    (d : RailDimensions α) :
    ((geometries rows edge d).map fun g => g.endClamps.toNat).sum = 4 * rows.length := by
  induction rows with
  | nil => rfl
  | cons row rest ih =>
      rw [geometries, List.map_cons, List.map_cons, List.sum_cons, ← geometries, ih,
        List.length_cons]
      change 4 + 4 * rest.length = _
      omega

/-- Two middle clamps for every module behind the first of its row. -/
theorem sum_midClamps (rows : List (Orientation × UInt32)) (edge : Orientation × UInt32 → α)
    (d : RailDimensions α) :
    ((geometries rows edge d).map fun g => g.midClamps.toNat).sum =
      2 * (rows.map fun row => row.2.toNat - 1).sum := by
  induction rows with
  | nil => rfl
  | cons row rest ih =>
      rw [geometries, List.map_cons, List.map_cons, List.sum_cons, ← geometries, ih, List.map_cons,
        List.sum_cons, Nat.mul_add, ← toNat_midClampsOf]
      rfl

end Rails

namespace Rules

/-- End clamps that the bill counts. -/
def endClamps (i : Inputs) : UInt64 :=
  Count.mul i.plan.totalRows 4

/-- Modules that are not the first of their row. -/
def laterModules (i : Inputs) : UInt64 :=
  Count.sub i.plan.totalModules i.plan.totalRows

/-- Mid clamps that the bill counts. -/
def midClamps (i : Inputs) : UInt64 :=
  Count.mul (laterModules i) 2

/-- The clamp lines in one equation. -/
theorem clampLines_eq (i : Inputs) :
    clampLines i = configured i i.plan.mounting.endClamp (endClamps i).toFloat ++
      configured i i.plan.mounting.midClamp (midClamps i).toFloat :=
  rfl

end Rules

open Rules Rails in
/-- **The clamps on the bill are those that the rails are cut for.**  In a layout of fewer than
`2 ^ 62` modules, the lines of end clamps and of mid clamps have the clamps of all populated rows,
whatever the module edges and the dimensions are.  There are no more rows than modules, and no step
saturates: both products and the difference are those of the numbers. -/
theorem clamps_follow_rows {α : Type} [RailNumber α] (i : Inputs)
    (h : i.plan.layout.modules < 2 ^ 62) (edge : Orientation × UInt32 → α)
    (d : RailDimensions α) :
    clampLines i = configured i i.plan.mounting.endClamp (endClamps i).toFloat ++
        configured i i.plan.mounting.midClamp (midClamps i).toFloat ∧
      (endClamps i).toNat =
        ((geometries i.plan.layout.populated edge d).map fun g => g.endClamps.toNat).sum ∧
      (midClamps i).toNat =
        ((geometries i.plan.layout.populated edge d).map fun g => g.midClamps.toNat).sum ∧
      i.plan.totalModules.toNat = i.plan.layout.modules ∧
      i.plan.totalRows.toNat = i.plan.layout.populated.length ∧
      i.plan.totalRows ≤ i.plan.totalModules ∧
      (endClamps i).toNat = i.plan.totalRows.toNat * 4 ∧
      (laterModules i).toNat + i.plan.totalRows.toNat = i.plan.totalModules.toNat ∧
      (midClamps i).toNat = (laterModules i).toNat * 2 := by
  have hle := i.plan.layout.length_populated_le
  have hmodules : i.plan.totalModules.toNat = i.plan.layout.modules :=
    Layout.toNat_totalModules (by omega)
  have hrows : i.plan.totalRows.toNat = i.plan.layout.populated.length :=
    Layout.toNat_totalRows (by unfold Count.largest; omega)
  have hsplit := Layout.modulesOf_eq_add
    fun row (hrow : row ∈ i.plan.layout.populated) => Layout.pos_of_mem_populated hrow
  rw [Layout.modulesOf_populated] at hsplit
  have hfour : (4 : UInt64).toNat = 4 := rfl
  have htwo : (2 : UInt64).toNat = 2 := rfl
  have hends : (endClamps i).toNat = i.plan.totalRows.toNat * 4 := by
    rw [endClamps, Count.toNat_mul, hfour, hrows]
    unfold Count.largest
    omega
  have hlater : (laterModules i).toNat = i.plan.totalModules.toNat - i.plan.totalRows.toNat :=
    Count.toNat_sub _ _
  have hmids : (midClamps i).toNat = (laterModules i).toNat * 2 := by
    rw [midClamps, Count.toNat_mul, htwo, hlater, hmodules, hrows]
    unfold Count.largest
    omega
  refine ⟨clampLines_eq i, ?_, ?_, hmodules, hrows, ?_, hends, ?_, hmids⟩
  · rw [sum_endClamps, hends, hrows, Nat.mul_comm]
  · rw [sum_midClamps, hmids, hlater, hmodules, hrows]
    omega
  · rw [UInt64.le_iff_toNat_le, hmodules, hrows]
    exact hle
  · rw [hlater, hmodules, hrows]
    omega

/-- A row of one module, an empty one and one of five, with clamps named. -/
def mixedRows : Rules.Inputs where
  plan :=
    { layout := { portrait := [1, 0], landscape := [5] }
      mounting := { endClamp := some "END", midClamp := some "MID" } }
  catalog := .empty
  coefficients := .builtin

open Rules Rails in
/-- Two rows hold modules, and four modules stand behind another one. -/
theorem clamps_follow_rows_mixed :
    mixedRows.plan.layout.modules < 2 ^ 62 ∧
      ((geometries mixedRows.plan.layout.populated (fun _ => 1134.0)
        (⟨1762.0, 1134.0, 3300.0, 35.0, 20.0⟩ : RailDimensions Float)).map
          fun g => (g.endClamps.toNat, g.midClamps.toNat)) = [(4, 0), (4, 8)] ∧
      clampLines mixedRows =
        [Line.configured "END" 8.0 .empty, Line.configured "MID" 8.0 .empty] := by
  have hmodules : mixedRows.plan.layout.modules < 2 ^ 62 := by
    decide
  obtain ⟨hlines, -⟩ := clamps_follow_rows mixedRows hmodules (fun _ => 1134.0)
    (⟨1762.0, 1134.0, 3300.0, 35.0, 20.0⟩ : RailDimensions Float)
  refine ⟨hmodules, rfl, ?_⟩
  rw [hlines]
  decide

end SolarBill
