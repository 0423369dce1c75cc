import SolarBill.Proofs.Number.Order

/-!
# Counts among doubles

A count becomes a double when the rules multiply with it, and doubles are added up again when lines
are merged.  Small counts are exact, and a sum cannot lose them:

* `isPositive_ofCount`, `value_ofCount` — a count that fits a word is finite, above zero when it is
  not none, and exact below `2 ^ 53`;
* `sum_atLeast` — a sum of doubles above zero is at least the sum of the whole units in its addends,
  as far as `2 ^ 53`, whatever the fractions and the order of the addends do to the rounding.
-/

namespace SolarBill.Double

open Float.Model Float.Model.UnpackedFloat

/-! ### Counts -/

/-- A count as a double, rounded when it is large. -/
def ofCount (n : Nat) : Float :=
  .ofModel (.ofNat n)

/-- A word is converted as the number that it holds. -/
theorem toFloat_eq_ofCount (n : UInt64) : n.toFloat = ofCount n.toNat :=
  rfl

/-- The parts of a count are those of the rounded number. -/
theorem parts_ofCount {n : Nat} (h : 0 < n) : parts (ofCount n) =
    (Float.Model.pack (UnpackedFloat.round Format.binary64 .positive n 0)).unpack := by
  change (Float.Model.pack (UnpackedFloat.normalize Format.binary64 n 0 .positive)).unpack = _
  rw [UnpackedFloat.normalize, Int.compare_eq_gt.mpr (by omega)]
  rfl

/-- A count rounds to the nearest multiple, and is finite if it fits a word. -/
theorem ofCount_nearest {n : Nat} (h : 0 < n) (hlt : n < 2 ^ 64) :
    (ofCount n).isFinite ∧ ∃ (k : Nat) (t : Int), Nearest n k t ∧ value (ofCount n) = k * 2 ^ t := by
  obtain ⟨m, e, hm, hround, hcanonical, k, t, hvalue, hnear⟩ :=
    round_nearest (s := .positive) (e := 0) h (by norm_num)
  rw [zpow_zero, mul_one] at hnear
  have hbound : (k : ℚ) * 2 ^ t ≤ (2 ^ 53 : Nat) * 2 ^ (11 : Int) := by
    apply hnear.le_of_le (le_refl _) _ (by norm_num)
    have hcast : (n : ℚ) ≤ 2 ^ 64 := by exact_mod_cast hlt.le
    exact hcast.trans (by norm_num)
  have hfit : e ≤ 971 := by
    rw [hcanonical.le_iff, hvalue]
    calc (k : ℚ) * 2 ^ t ≤ (2 ^ 53 : Nat) * 2 ^ (11 : Int) := hbound
      _ = 2 ^ (64 : Int) := by norm_num
      _ < 2 ^ (1024 : Int) := zpow_lt_zpow_right₀ one_lt_two (by norm_num)
  have hparts := parts_ofCount h
  rw [hround, unpack_pack hcanonical hfit] at hparts
  refine ⟨isFinite_of_finite hparts, k, t, hnear, ?_⟩
  rw [value_of_finite hparts, ← hvalue]
  rfl

/-- A 64-bit count is converted to a finite double. -/
theorem isFinite_ofCount {n : Nat} (hlt : n < 2 ^ 64) : (ofCount n).isFinite := by
  rcases Nat.eq_zero_or_pos n with rfl | hpos
  · decide
  · exact (ofCount_nearest hpos hlt).1

/-- A small count is exact. -/
theorem value_ofCount {n : Nat} (h : n < 2 ^ 53) : value (ofCount n) = n := by
  rcases Nat.eq_zero_or_pos n with rfl | hpos
  · rfl
  · obtain ⟨-, k, t, hnear, hvalue⟩ := ofCount_nearest hpos (h.trans (by norm_num))
    have hself : (n : ℚ) = n * 2 ^ (0 : Int) := by rw [zpow_zero, mul_one]
    rw [hvalue]
    apply le_antisymm
    · rw [hself]
      exact hnear.le_of_le h.le hself.le (by norm_num)
    · conv_lhs => rw [hself]
      exact hnear.ge_of_ge h.le hself.ge (by norm_num)

/-- A count that fits a word is finite, and above zero exactly if it is not none. -/
theorem isPositive_ofCount {n : Nat} (hlt : n < 2 ^ 64) : isPositive (ofCount n) = true ↔ 0 < n := by
  rcases Nat.eq_zero_or_pos n with rfl | hpos
  · decide
  · obtain ⟨hfinite, k, t, hnear, hvalue⟩ := ofCount_nearest hpos hlt
    refine iff_of_true (isPositive_iff.mpr ⟨hfinite, ?_⟩) hpos
    have hone : (1 : Nat) * (2 : ℚ) ^ (0 : Int) ≤ k * 2 ^ t := by
      apply hnear.ge_of_ge (by norm_num) _ (by norm_num)
      rw [zpow_zero, mul_one]
      exact_mod_cast hpos
    rw [hvalue]
    exact lt_of_lt_of_le (by norm_num) hone

/-! ### Lower bounds of sums -/

/-- Above zero and, unless infinite, at least `n`. -/
def AtLeast (n : Nat) (x : Float) : Prop :=
  0.0 < x ∧ (x.isFinite → (n : ℚ) ≤ value x)

/-- The whole units in a double above zero. -/
def wholeUnits (x : Float) : Nat :=
  ⌊value x⌋₊

/-- What is at least a number is at least every smaller one. -/
theorem AtLeast.mono {x : Float} {n k : Nat} (h : AtLeast k x) (hle : n ≤ k) : AtLeast n x :=
  ⟨h.1, fun hfinite => le_trans (by exact_mod_cast hle) (h.2 hfinite)⟩

/-- A double above zero is at least its whole units. -/
theorem atLeast_wholeUnits {x : Float} (h : 0.0 < x) : AtLeast (wholeUnits x) x :=
  ⟨h, fun hfinite => Nat.floor_le ((zero_lt_iff hfinite).mp h).le⟩

/-- Counts below 2 ^ 53 are converted exactly. -/
theorem wholeUnits_ofCount {n : Nat} (h : n < 2 ^ 53) : wholeUnits (ofCount n) = n := by
  rw [wholeUnits, value_ofCount h, Nat.floor_natCast]

/-- Addends above zero of a finite sum are finite. -/
theorem isFinite_of_add {x y : Float} (hx : 0.0 < x) (hy : 0.0 < y) (h : (x + y).isFinite) :
    x.isFinite ∧ y.isFinite := by
  have hinfinite : ∀ {z : Float}, parts z = .infinity .positive → ¬ z.isFinite := by
    intro z hz
    change ¬ (parts z).isFinite = true
    simp [hz, UnpackedFloat.isFinite]
  rcases pos_iff.mp hx with hxp | ⟨m, e, hm, hxp⟩
  · refine absurd h (hinfinite ?_)
    rcases pos_iff.mp hy with hyp | ⟨n, f, hn, hyp⟩ <;> rw [parts_add, hxp, hyp] <;>
      exact unpack_infinity .positive
  · rcases pos_iff.mp hy with hyp | ⟨n, f, hn, hyp⟩
    · refine absurd h (hinfinite ?_)
      rw [parts_add, hxp, hyp]
      exact unpack_infinity .positive
    · exact ⟨isFinite_of_finite hxp, isFinite_of_finite hyp⟩

/-- Adding loses no whole unit. -/
theorem AtLeast.add {x y : Float} {a b n : Nat} (hx : AtLeast a x) (hy : AtLeast b y)
    (hn : n ≤ a + b) (hlt : n ≤ 2 ^ 53) : AtLeast n (x + y) := by
  refine ⟨add_pos hx.1 hy.1, fun hfinite => ?_⟩
  obtain ⟨hxf, hyf⟩ := isFinite_of_add hx.1 hy.1 hfinite
  have hxpos := (zero_lt_iff hxf).mp hx.1
  have hypos := (zero_lt_iff hyf).mp hy.1
  have hpos : 0 < value x + value y := by linarith
  obtain ⟨h, t, hnear, -, hvalue⟩ := add_nearest hxf hyf hpos
  have hsum : (n : ℚ) * 2 ^ (0 : Int) ≤ value x + value y := by
    have hcast : (n : ℚ) ≤ a + b := by exact_mod_cast hn
    rw [zpow_zero, mul_one]
    exact hcast.trans (add_le_add (hx.2 hxf) (hy.2 hyf))
  have hge := hnear.ge_of_ge hlt hsum (by norm_num)
  rw [zpow_zero, mul_one] at hge
  rw [hvalue hfinite]
  exact hge

/-- **A sum keeps the whole units of its addends.** -/
theorem sum_atLeast {xs : List Float} (hne : xs ≠ []) (h : ∀ x ∈ xs, 0.0 < x) {n : Nat}
    (hn : n ≤ (xs.map wholeUnits).sum) (hlt : n ≤ 2 ^ 53) : AtLeast n (sum xs) := by
  have hfold : ∀ (ys : List Float) (a : Float) (k : Nat), AtLeast k a → (∀ y ∈ ys, 0.0 < y) →
      k ≤ 2 ^ 53 → n ≤ k + (ys.map wholeUnits).sum → AtLeast n (ys.foldl (· + ·) a) := by
    intro ys
    induction ys with
    | nil =>
        intro a k ha _ _ hk
        exact ha.mono hk
    | cons y rest ih =>
        intro a k ha hys hk hle
        rw [List.map_cons, List.sum_cons] at hle
        have hy := atLeast_wholeUnits (hys y List.mem_cons_self)
        have hnext : AtLeast (min n (k + wholeUnits y)) (a + y) :=
          ha.add hy (min_le_right _ _) ((min_le_left _ _).trans hlt)
        exact ih (a + y) _ hnext (fun z hz => hys z (List.mem_cons_of_mem y hz))
          ((min_le_left _ _).trans hlt) (by omega)
  cases xs with
  | nil => exact absurd rfl hne
  | cons x rest =>
      rw [List.map_cons, List.sum_cons] at hn
      rw [sum, List.foldl_cons, negZero_add]
      have hx := (atLeast_wholeUnits (h x List.mem_cons_self)).mono (min_le_right n _)
      exact hfold rest x _ hx (fun y hy => h y (List.mem_cons_of_mem x hy))
        ((min_le_left _ _).trans hlt) (by omega)

/-- The bound as a comparison of doubles. -/
theorem AtLeast.ofCount_le {x : Float} {n : Nat} (h : AtLeast n x) (hlt : n < 2 ^ 53) :
    ofCount n ≤ x := by
  have hcount := isFinite_ofCount (hlt.trans (by norm_num))
  rw [le_iff_rank (not_isNaN_of_isFinite hcount) (NonNegative.not_isNaN_of_pos h.1),
    rank_of_isFinite hcount, value_ofCount hlt]
  rcases pos_iff.mp h.1 with hx | ⟨m, e, hm, hx⟩
  · rw [rank, hx]
    exact WithBot.coe_le_coe.mpr le_top
  · have hfinite := isFinite_of_finite hx
    rw [rank_of_isFinite hfinite]
    exact WithBot.coe_le_coe.mpr (WithTop.coe_le_coe.mpr (h.2 hfinite))

end SolarBill.Double
