import Mathlib
import SolarBill.Proofs.Plan.Rearranged
import SolarBill.Proofs.Rails.Clamps

/-!
# Profiles that cover the rows

Rails are cut from whole profiles, row by row, and the profiles of all rows are added up in words
that stop at the largest one.  Here the sizing is done with rational numbers instead of doubles, so
that lengths are exact.

* `Rails.cover` — the least number of profiles that reach a length (`Rails.isLeast_cover`);
* `Rails.toNat_profilesFor`, `Rails.toNat_connectorsFor` — a row, capped at the largest word;
* `Rails.toNat_totals_profiles`, `Rails.toNat_totals_connectors` — all rows, for any kind of
  numbers; empty rows, the order of rows and the grouping of layouts make no difference to them
  (`Rails.totals_rearranged`, `Rails.totals_append`);
* `profiles_cover_rows` — what is bought is the capped sum of what each row needs.
-/

namespace SolarBill

/-- Rational numbers: nothing is rounded but the count of profiles. -/
instance : RailNumber ℚ where
  ofCount n := n.toNat
  isPositive x := 0 < x
  ceilCount x := .ofNatClamp ⌈x⌉₊

/-- The rows of two layouts. -/
def Layout.append (l k : Layout) : Layout where
  portrait := l.portrait ++ k.portrait
  landscape := l.landscape ++ k.landscape

/-- The same rows with modules, in any order, and any number of empty rows. -/
structure Layout.SameRows (l k : Layout) : Prop where
  portrait : (l.portrait.filter (0 < ·)).Perm (k.portrait.filter (0 < ·))
  landscape : (l.landscape.filter (0 < ·)).Perm (k.landscape.filter (0 < ·))

namespace Layout

/-- The rows that count, portrait before landscape. -/
theorem populated_eq (l : Layout) :
    l.populated = (l.portrait.filter (0 < ·)).map (Orientation.portrait, ·) ++
      (l.landscape.filter (0 < ·)).map (Orientation.landscape, ·) := by
  rw [populated, rows, List.filter_append, List.filter_map, List.filter_map]
  rfl

/-- Layouts with the same rows have the same ones that count. -/
theorem SameRows.populated {l k : Layout} (h : l.SameRows k) : l.populated.Perm k.populated := by
  rw [populated_eq, populated_eq]
  exact (h.portrait.map _).append (h.landscape.map _)

theorem populated_append (l k : Layout) :
    (l.append k).populated.Perm (l.populated ++ k.populated) := by
  rw [populated, populated, populated, ← List.filter_append]
  refine List.Perm.filter _ ?_
  simp only [rows, append, List.map_append, List.append_assoc]
  refine List.Perm.append_left _ ?_
  rw [← List.append_assoc, ← List.append_assoc]
  exact List.Perm.append_right _ List.perm_append_comm

end Layout

namespace Rails

/-! ### Totals of any kind of numbers -/

/-- Profiles and connectors are added up side by side. -/
theorem foldl_totals {α : Type} (gs : List (RowGeometry α)) (acc : RailTotals) :
    gs.foldl (fun acc row =>
        ⟨Count.add acc.profiles row.profiles, Count.add acc.connectors row.connectors⟩) acc =
      ⟨(gs.map RowGeometry.profiles).foldl Count.add acc.profiles,
        (gs.map RowGeometry.connectors).foldl Count.add acc.connectors⟩ := by
  induction gs generalizing acc with
  | nil => rfl
  | cons g rest ih => exact ih _

section Totals

variable {α : Type} [RailNumber α]

/-- Geometry of the populated rows of a layout. -/
def rowsOf (layout : Layout) (d : RailDimensions α) : List (RowGeometry α) :=
  geometries layout.populated (fun row => d.alongRail row.1) d

/-- The totals are counted up row by row. -/
theorem totals_eq (layout : Layout) (d : RailDimensions α) :
    totals layout d =
      ⟨((rowsOf layout d).map RowGeometry.profiles).foldl Count.add 0,
        ((rowsOf layout d).map RowGeometry.connectors).foldl Count.add 0⟩ :=
  foldl_totals (rowsOf layout d) ⟨0, 0⟩

/-- The profiles are the sum over the rows, up to the largest count. -/
theorem toNat_totals_profiles (layout : Layout) (d : RailDimensions α) :
    (totals layout d).profiles.toNat =
      min ((rowsOf layout d).map fun g => g.profiles.toNat).sum Count.largest := by
  rw [totals_eq, Count.toNat_foldl_add, UInt64.toNat_zero, Nat.zero_add, List.map_map]
  rfl

theorem toNat_totals_connectors (layout : Layout) (d : RailDimensions α) :
    (totals layout d).connectors.toNat =
      min ((rowsOf layout d).map fun g => g.connectors.toNat).sum Count.largest := by
  rw [totals_eq, Count.toNat_foldl_add, UInt64.toNat_zero, Nat.zero_add, List.map_map]
  rfl

/-- Empty rows and the order of rows make no difference. -/
theorem totals_rearranged {l k : Layout} (h : l.SameRows k) (d : RailDimensions α) :
    totals l d = totals k d :=
  totals_perm h.populated d

/-- A sum over the rows of appended layouts is the sum of both. -/
theorem sum_rowsOf_append (l k : Layout) (d : RailDimensions α) (f : RowGeometry α → Nat) :
    ((rowsOf (l.append k) d).map f).sum = ((rowsOf l d).map f).sum + ((rowsOf k d).map f).sum := by
  rw [← List.sum_append, ← List.map_append, rowsOf, rowsOf, rowsOf, geometries, geometries,
    geometries, ← List.map_append]
  exact (((Layout.populated_append l k).map _).map f).sum_eq

/-- The totals of two layouts together are the saturating sums of their totals. -/
theorem totals_append (l k : Layout) (d : RailDimensions α) :
    totals (l.append k) d =
      ⟨Count.add (totals l d).profiles (totals k d).profiles,
        Count.add (totals l d).connectors (totals k d).connectors⟩ := by
  have hprofiles : (totals (l.append k) d).profiles =
      Count.add (totals l d).profiles (totals k d).profiles := by
    rw [← UInt64.toNat_inj, Count.toNat_add, toNat_totals_profiles, toNat_totals_profiles,
      toNat_totals_profiles, sum_rowsOf_append]
    omega
  have hconnectors : (totals (l.append k) d).connectors =
      Count.add (totals l d).connectors (totals k d).connectors := by
    rw [← UInt64.toNat_inj, Count.toNat_add, toNat_totals_connectors, toNat_totals_connectors,
      toNat_totals_connectors, sum_rowsOf_append]
    omega
  rw [← hprofiles, ← hconnectors]

end Totals

/-! ### One row, exactly -/

variable {d : RailDimensions ℚ}

/-- Rail length of a row: both rails, four gaps, four end clamps and the mid clamps. -/
def exactLength (modules : ℕ) (edge : ℚ) (d : RailDimensions ℚ) : ℚ :=
  2 * modules * edge + 4 * 50 + 4 * d.endClampWidth + 2 * (modules - 1) * d.midClampWidth

/-- The least number of profiles that reach a length. -/
def cover (length : ℚ) (d : RailDimensions ℚ) : ℕ :=
  ⌈length / d.profileLength⌉₊

theorem cover_le_iff (hd : 0 < d.profileLength) {length : ℚ} {p : ℕ} :
    cover length d ≤ p ↔ length ≤ p * d.profileLength := by
  rw [cover, Nat.ceil_le, div_le_iff₀ hd]

/-- The cover is the least number of profiles that are long enough. -/
theorem isLeast_cover (hd : 0 < d.profileLength) (length : ℚ) :
    IsLeast {p : ℕ | length ≤ p * d.profileLength} (cover length d) :=
  ⟨(cover_le_iff hd).mp le_rfl, fun _ hp => (cover_le_iff hd).mpr hp⟩

/-- No profile is needed only where there is no length. -/
theorem cover_eq_zero_iff (hd : 0 < d.profileLength) {length : ℚ} :
    cover length d = 0 ↔ length ≤ 0 := by
  rw [← Nat.le_zero, cover_le_iff hd, Nat.cast_zero, zero_mul]

/-- The length of a row with modules. -/
theorem lengthOf_eq {modules : UInt32} (h : 0 < modules.toNat) (edge : ℚ) :
    lengthOf modules edge d = exactLength modules.toNat edge d := by
  have hmids : ((midClampsOf modules).toNat : ℚ) = 2 * (modules.toNat - 1) := by
    rw [toNat_midClampsOf, Nat.cast_mul, Nat.cast_sub h]
    rfl
  have htwo : (RailNumber.ofCount 2 : ℚ) = 2 := rfl
  have hfour : (RailNumber.ofCount endClampsPerRow : ℚ) = 4 := rfl
  have hfifty : (RailNumber.ofCount 50 : ℚ) = 50 := rfl
  have hcount : (RailNumber.ofCount modules.toUInt64 : ℚ) = modules.toNat := rfl
  have hmid : (RailNumber.ofCount (midClampsOf modules) : ℚ) = 2 * (modules.toNat - 1) := hmids
  rw [lengthOf, exactLength]
  simp only [htwo, hfour, hfifty, hcount, hmid]
  ring

/-- The profiles for a length are its cover, up to the largest count. -/
theorem toNat_profilesFor (hd : 0 < d.profileLength) (length : ℚ) :
    (profilesFor length d).toNat = min (cover length d) Count.largest := by
  have hprofile : RailNumber.isPositive d.profileLength = true := decide_eq_true hd
  rw [profilesFor, hprofile, Bool.true_and]
  by_cases hlength : 0 < length
  · have hsome : RailNumber.isPositive length = true := decide_eq_true hlength
    rw [if_pos hsome]
    exact Count.toNat_ofNatClamp _
  · have hnone : RailNumber.isPositive length = false := decide_eq_false hlength
    rw [hnone, (cover_eq_zero_iff hd).mpr (not_lt.mp hlength)]
    rfl

/-- A cap on the profiles does not show in the connectors, which are capped as well. -/
theorem toNat_connectorsFor {profiles : UInt64} {p : ℕ} (h : profiles.toNat = min p Count.largest) :
    (connectorsFor profiles).toNat = min (2 * (p - 1)) Count.largest := by
  have hone : (1 : UInt64).toNat = 1 := rfl
  have htwo : (2 : UInt64).toNat = 2 := rfl
  rw [connectorsFor, Count.toNat_mul, Count.toNat_sub, h, hone, htwo]
  unfold Count.largest
  omega

/-! ### All rows, exactly -/

/-- Profiles that a row needs, without a cap. -/
def profilesOf (d : RailDimensions ℚ) (row : Orientation × UInt32) : ℕ :=
  cover (exactLength row.2.toNat (d.alongRail row.1) d) d

/-- Connectors that a row needs, without a cap. -/
def connectorsOf (d : RailDimensions ℚ) (row : Orientation × UInt32) : ℕ :=
  2 * (profilesOf d row - 1)

/-- What is bought for a row is what it needs, capped at the largest word. -/
theorem rowGeometry_toNat (hd : 0 < d.profileLength) {modules : UInt32} (h : 0 < modules.toNat)
    (edge : ℚ) :
    (rowGeometry modules edge d).profiles.toNat =
        min (cover (exactLength modules.toNat edge d) d) Count.largest ∧
      (rowGeometry modules edge d).connectors.toNat =
        min (2 * (cover (exactLength modules.toNat edge d) d - 1)) Count.largest := by
  have hprofiles := toNat_profilesFor hd (lengthOf modules edge d)
  rw [lengthOf_eq h] at hprofiles
  have hconnectors := toNat_connectorsFor hprofiles
  rw [rowGeometry, lengthOf_eq h]
  exact ⟨hprofiles, hconnectors⟩

/-- Totals of what the rows need, capped once. -/
theorem toNat_totals (hd : 0 < d.profileLength) (layout : Layout) :
    (totals layout d).profiles.toNat =
        min (layout.populated.map (profilesOf d)).sum Count.largest ∧
      (totals layout d).connectors.toNat =
        min (layout.populated.map (connectorsOf d)).sum Count.largest := by
  have hrow := fun row (hrow : row ∈ layout.populated) =>
    rowGeometry_toNat hd (Layout.pos_of_mem_populated hrow) (d.alongRail row.1)
  constructor
  · rw [toNat_totals_profiles, ← Count.min_sum_min (layout.populated.map (profilesOf d)), rowsOf,
      geometries, List.map_map, List.map_map]
    exact congrArg (min ·.sum Count.largest) (List.map_congr_left fun row hmem => (hrow row hmem).1)
  · rw [toNat_totals_connectors, ← Count.min_sum_min (layout.populated.map (connectorsOf d)),
      rowsOf, geometries, List.map_map, List.map_map]
    exact congrArg (min ·.sum Count.largest) (List.map_congr_left fun row hmem => (hrow row hmem).2)

/-- The profiles of the rows reach as far as all their lengths above zero. -/
theorem sum_length_le (hd : 0 < d.profileLength) (rows : List (Orientation × UInt32)) :
    (rows.map fun row => max (exactLength row.2.toNat (d.alongRail row.1) d) 0).sum ≤
      (rows.map (profilesOf d)).sum * d.profileLength := by
  induction rows with
  | nil => simp
  | cons row rest ih =>
      have hreach : exactLength row.2.toNat (d.alongRail row.1) d ≤
          profilesOf d row * d.profileLength := (cover_le_iff hd).mp le_rfl
      have hnonneg : 0 ≤ (profilesOf d row : ℚ) * d.profileLength := by positivity
      have hrow := max_le hreach hnonneg
      rw [List.map_cons, List.sum_cons, List.map_cons, List.sum_cons, Nat.cast_add, add_mul]
      exact add_le_add hrow ih

/-- Two connectors for every profile but the first one of each row that has any. -/
theorem sum_connectorsOf (rows : List (Orientation × UInt32)) :
    (rows.map (connectorsOf d)).sum + 2 * (rows.countP fun row => 0 < profilesOf d row) =
      2 * (rows.map (profilesOf d)).sum := by
  induction rows with
  | nil => rfl
  | cons row rest ih =>
      rw [List.map_cons, List.sum_cons, List.map_cons, List.sum_cons, List.countP_cons,
        connectorsOf]
      by_cases hrow : 0 < profilesOf d row
      · rw [if_pos (decide_eq_true hrow)]
        omega
      · rw [if_neg (by simpa using hrow)]
        omega

end Rails

open Rails in
/-- **Profiles cover the rows.**  Let the profile have a length above zero.  A populated row, with
any module edge, gets the least number of profiles that reach its rail length and two connectors
for each profile but the first, both capped at the largest word; that is nothing if the length is
not above zero.  The totals of a layout are the sums over its populated rows of the uncapped
numbers, capped once; so if nothing is capped, the profiles bought reach as far as all row lengths
above zero together, and there are two connectors for each profile but the first one of every row
that has any.

Empty rows and the order of rows make no difference to the totals, and the totals of two layouts
together are the saturating sums of theirs; this holds for any dimensions, in any kind of
numbers. -/
theorem profiles_cover_rows (layout : Layout) (d : RailDimensions ℚ) (hd : 0 < d.profileLength) :
    (∀ (modules : UInt32) (edge : ℚ), 0 < modules.toNat →
      (rowGeometry modules edge d).railLength = exactLength modules.toNat edge d ∧
      IsLeast {p : ℕ | exactLength modules.toNat edge d ≤ p * d.profileLength}
        (cover (exactLength modules.toNat edge d) d) ∧
      (rowGeometry modules edge d).profiles.toNat =
        min (cover (exactLength modules.toNat edge d) d) Count.largest ∧
      (rowGeometry modules edge d).connectors.toNat =
        min (2 * (cover (exactLength modules.toNat edge d) d - 1)) Count.largest ∧
      (exactLength modules.toNat edge d ≤ 0 →
        (rowGeometry modules edge d).profiles = 0 ∧
          (rowGeometry modules edge d).connectors = 0)) ∧
    (totals layout d).profiles.toNat =
      min (layout.populated.map (profilesOf d)).sum Count.largest ∧
    (totals layout d).connectors.toNat =
      min (layout.populated.map (connectorsOf d)).sum Count.largest ∧
    ((layout.populated.map (profilesOf d)).sum ≤ Count.largest →
      (layout.populated.map (connectorsOf d)).sum ≤ Count.largest →
      (layout.populated.map fun row =>
          max (exactLength row.2.toNat (d.alongRail row.1) d) 0).sum ≤
        (totals layout d).profiles.toNat * d.profileLength ∧
      (totals layout d).connectors.toNat =
        2 * ((totals layout d).profiles.toNat -
          layout.populated.countP fun row => 0 < profilesOf d row)) ∧
    ∀ {α : Type} [RailNumber α] (e : RailDimensions α) (other : Layout),
      (layout.SameRows other → totals layout e = totals other e) ∧
      totals (layout.append other) e =
        ⟨Count.add (totals layout e).profiles (totals other e).profiles,
          Count.add (totals layout e).connectors (totals other e).connectors⟩ := by
  obtain ⟨hprofiles, hconnectors⟩ := toNat_totals hd layout
  refine ⟨?_, hprofiles, hconnectors, ?_, ?_⟩
  · intro modules edge hmodules
    obtain ⟨hrow, hjoints⟩ := rowGeometry_toNat hd hmodules edge
    refine ⟨lengthOf_eq hmodules edge, isLeast_cover hd _, hrow, hjoints, fun hnone => ?_⟩
    rw [(cover_eq_zero_iff hd).mpr hnone] at hrow hjoints
    exact ⟨UInt64.toNat_inj.mp hrow, UInt64.toNat_inj.mp hjoints⟩
  · intro hfits hjointsfit
    rw [Nat.min_eq_left hfits] at hprofiles
    rw [Nat.min_eq_left hjointsfit] at hconnectors
    have hjoints := sum_connectorsOf (d := d) layout.populated
    rw [hprofiles, hconnectors]
    exact ⟨sum_length_le hd layout.populated, by omega⟩
  · intro α _ e other
    exact ⟨fun hsame => totals_rearranged hsame e, totals_append layout other e⟩

/-- Modules of 1.7 m by 1.1 m on profiles of 6 m. -/
def longProfiles : RailDimensions ℚ :=
  ⟨1700, 1100, 6000, 30, 20⟩

/-- Ten modules upright and ten lying, with an empty row. -/
def twoRows : Layout where
  portrait := [10, 0]
  landscape := [10]

open Rails in
/-- The rows are 22.68 m and 34.68 m long. -/
theorem profiles_cover_rows_two :
    0 < longProfiles.profileLength ∧
      (twoRows.populated.map fun row =>
        exactLength row.2.toNat (longProfiles.alongRail row.1) longProfiles) = [22680, 34680] ∧
      (totals twoRows longProfiles).profiles = 10 ∧
      (totals twoRows longProfiles).connectors = 16 := by
  have hd : 0 < longProfiles.profileLength := by
    decide
  have hneeds : twoRows.populated.map (profilesOf longProfiles) = [4, 6] := by
    decide +kernel
  have hjoints : twoRows.populated.map (connectorsOf longProfiles) = [6, 10] := by
    decide +kernel
  obtain ⟨-, hprofiles, hconnectors, -⟩ := profiles_cover_rows twoRows longProfiles hd
  rw [hneeds] at hprofiles
  rw [hjoints] at hconnectors
  exact ⟨hd, by decide +kernel, UInt64.toNat_inj.mp hprofiles, UInt64.toNat_inj.mp hconnectors⟩

end SolarBill
