import Mathlib
import SolarBill.Rails

/-!
# Totals as numbers

Totals are folds over words.  Counts that are entered are added up as they are, derived counts stop
at the largest word; as long as the sum of the numbers fits, neither makes a difference.

* `toNat_foldl_add`, `Count.toNat_foldl_add` — both kinds of folds as sums of numbers;
* `Layout.modules` — the modules of a layout as a number.  Rows without modules add none, every
  other row adds at least one, so there are no more of those than there are modules.
-/

namespace SolarBill

/-! ### Folds over words -/

/-- Words wrap when they are added up; their sum is that of the numbers up to the wrap. -/
theorem toNat_foldl_add_from (xs : List UInt64) (a : UInt64) :
    (xs.foldl (· + ·) a).toNat = (a.toNat + (xs.map UInt64.toNat).sum) % 2 ^ 64 := by
  induction xs generalizing a with
  | nil =>
      have hlt : a.toNat < 2 ^ 64 := a.toNat_lt
      rw [List.foldl_nil, List.map_nil, List.sum_nil, Nat.add_zero, Nat.mod_eq_of_lt hlt]
  | cons x rest ih =>
      rw [List.foldl_cons, ih, UInt64.toNat_add, List.map_cons, List.sum_cons]
      omega

/-- A sum of words is the sum of their numbers, if that fits a word. -/
theorem toNat_foldl_add {xs : List UInt64} (h : (xs.map UInt64.toNat).sum < 2 ^ 64) :
    (xs.foldl (· + ·) 0).toNat = (xs.map UInt64.toNat).sum := by
  rw [toNat_foldl_add_from, UInt64.toNat_zero, Nat.zero_add, Nat.mod_eq_of_lt h]

namespace Count

/-- A word is at most the largest one. -/
theorem toNat_le_largest (a : UInt64) : a.toNat ≤ largest := by
  have hlt : a.toNat < 2 ^ 64 := a.toNat_lt
  unfold largest
  omega

/-- A saturating sum stops at the largest word, wherever it reaches that on the way. -/
theorem toNat_foldl_add (xs : List UInt64) (a : UInt64) :
    (xs.foldl add a).toNat = min (a.toNat + (xs.map UInt64.toNat).sum) largest := by
  induction xs generalizing a with
  | nil =>
      rw [List.foldl_nil, List.map_nil, List.sum_nil, Nat.add_zero]
      exact (Nat.min_eq_left (toNat_le_largest a)).symm
  | cons x rest ih =>
      rw [List.foldl_cons, ih, toNat_add, List.map_cons, List.sum_cons]
      omega

/-- Addends that are capped on their own do not change a capped sum. -/
theorem min_sum_min (ns : List Nat) (k : Nat) : min (ns.map (min · k)).sum k = min ns.sum k := by
  induction ns with
  | nil => rfl
  | cons n rest ih =>
      rw [List.map_cons, List.sum_cons, List.sum_cons]
      omega

end Count

/-! ### Modules of a layout -/

namespace Layout

/-- Modules of several rows. -/
def modulesOf (rows : List (Orientation × UInt32)) : Nat :=
  (rows.map fun row => row.2.toNat).sum

/-- Modules of all rows. -/
def modules (l : Layout) : Nat :=
  modulesOf l.rows

theorem modulesOf_cons (row : Orientation × UInt32) (rest : List (Orientation × UInt32)) :
    modulesOf (row :: rest) = row.2.toNat + modulesOf rest := by
  rw [modulesOf, List.map_cons, List.sum_cons, modulesOf]

/-- Rows without modules add none. -/
theorem modulesOf_filter (rows : List (Orientation × UInt32)) :
    modulesOf (rows.filter fun row => 0 < row.2) = modulesOf rows := by
  induction rows with
  | nil => rfl
  | cons row rest ih =>
      by_cases hrow : 0 < row.2
      · rw [List.filter_cons_of_pos (by simpa using hrow), modulesOf_cons, modulesOf_cons, ih]
      · have hnone : row.2.toNat = 0 := by
          rw [UInt32.lt_iff_toNat_lt, UInt32.toNat_zero] at hrow
          omega
        rw [List.filter_cons_of_neg (by simpa using hrow), modulesOf_cons, hnone, Nat.zero_add, ih]

/-- Empty rows have no modules. -/
theorem modulesOf_populated (l : Layout) : modulesOf l.populated = l.modules :=
  modulesOf_filter l.rows

/-- A row that counts has a module. -/
theorem pos_of_mem_populated {l : Layout} {row : Orientation × UInt32} (h : row ∈ l.populated) :
    0 < row.2.toNat := by
  have hpos : 0 < row.2 := by simpa using (List.mem_filter.mp h).2
  exact UInt32.lt_iff_toNat_lt.mp hpos

/-- The modules of the rows are those that a row has at least, and those after its first one. -/
theorem modulesOf_eq_add {rows : List (Orientation × UInt32)} (h : ∀ row ∈ rows, 0 < row.2.toNat) :
    modulesOf rows = rows.length + (rows.map fun row => row.2.toNat - 1).sum := by
  induction rows with
  | nil => rfl
  | cons row rest ih =>
      have hrow := h row List.mem_cons_self
      have hrest := ih fun other hother => h other (List.mem_cons_of_mem row hother)
      rw [modulesOf_cons, hrest, List.length_cons, List.map_cons, List.sum_cons]
      omega

/-- Every row that counts has a module, so there are at least as many modules. -/
theorem length_populated_le (l : Layout) : l.populated.length ≤ l.modules := by
  have hsplit := modulesOf_eq_add fun row (hrow : row ∈ l.populated) => pos_of_mem_populated hrow
  rw [modulesOf_populated] at hsplit
  omega

/-- Counting the modules is exact where a word holds them. -/
theorem toNat_totalModules {l : Layout} (h : l.modules < 2 ^ 64) :
    l.totalModules.toNat = l.modules := by
  have hwords : ((l.rows.map fun row => row.2.toUInt64).map UInt64.toNat).sum = l.modules := by
    rw [List.map_map]
    rfl
  rw [totalModules, toNat_foldl_add (hwords ▸ h), hwords]

/-- Counting the rows is exact where a word holds them. -/
theorem toNat_totalRows {l : Layout} (h : l.populated.length ≤ Count.largest) :
    l.totalRows.toNat = l.populated.length := by
  rw [totalRows, Count.toNat_ofNatClamp, Nat.min_eq_left h]

end Layout

end SolarBill
