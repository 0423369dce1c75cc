import SolarBill.Proofs.Number.Nearest

/-!
# The order of doubles

Doubles that are numbers compare as their places on the line of rationals do, with an end added on
either side for the infinities.  This place, `rank`, is all that comparisons see:

* `lt_iff_rank`, `le_iff_rank` — comparing doubles is comparing ranks;
* `NonNegative.foldl_max_le_iff`, `foldl_max_perm` — the greatest of several doubles, counted from
  zero up, is at most what all of them are at most, and does not depend on their order;
* `mergeSort_eq_of_perm` — nor does a sorted list, because the total order tells all doubles apart;
* `orderKey_le_iff` — above zero the total order is the order of the values.
-/

namespace SolarBill.Double

open Float.Model Float.Model.UnpackedFloat

/-! ### Finite doubles -/

/-- The larger exponent makes the larger number, whatever the mantissas. -/
theorem Canonical.value_lt {m n : Nat} {e f : Int} (hm : Canonical m e) (hn : Canonical n f)
    (h : e < f) : (m : ℚ) * 2 ^ e < n * 2 ^ f := by
  have hleast := hm.least
  have hnormal : 2 ^ 52 ≤ n := hn.normal.resolve_right (by omega)
  calc (m : ℚ) * 2 ^ e < 2 ^ (e + 53) := mul_zpow_lt hm.lt
    _ ≤ 2 ^ (f + 52) := zpow_le_zpow_right₀ one_le_two (by omega)
    _ ≤ n * 2 ^ f := zpow_le_mul hnormal

/-- Exponents first, then mantissas: that is the order of the values. -/
theorem Canonical.compare_eq {m n : Nat} {e f : Int} (hm : Canonical m e) (hn : Canonical n f) :
    (compare e f).then (compare m n) = compare ((m : ℚ) * 2 ^ e) (n * 2 ^ f) := by
  rcases lt_trichotomy e f with hlt | rfl | hgt
  · rw [compare_lt_iff_lt.mpr hlt, compare_lt_iff_lt.mpr (hm.value_lt hn hlt)]
    rfl
  · have hunit : (0 : ℚ) < 2 ^ e := by positivity
    rw [compare_eq_iff_eq.mpr (rfl : e = e)]
    change compare m n = _
    rcases lt_trichotomy m n with hlt | rfl | hgt
    · have hcast : (m : ℚ) < n := by exact_mod_cast hlt
      rw [compare_lt_iff_lt.mpr hlt, compare_lt_iff_lt.mpr (mul_lt_mul_of_pos_right hcast hunit)]
    · rw [compare_eq_iff_eq.mpr rfl, compare_eq_iff_eq.mpr rfl]
    · have hcast : (n : ℚ) < m := by exact_mod_cast hgt
      rw [compare_gt_iff_gt.mpr hgt, compare_gt_iff_gt.mpr (mul_lt_mul_of_pos_right hcast hunit)]
  · rw [compare_gt_iff_gt.mpr hgt, compare_gt_iff_gt.mpr (hn.value_lt hm hgt)]
    rfl

/-- Comparing the other way round is comparing the negated numbers. -/
theorem swap_compare (a b : ℚ) : (compare a b).swap = compare (-a) (-b) := by
  rw [← Std.OrientedOrd.eq_swap, ← cmp_eq_compare, ← cmp_eq_compare]
  simp only [cmp, cmpUsing, neg_lt_neg_iff]

/-- Finite doubles compare as their values. -/
theorem compare_finite {x y : Float} (hx : x.isFinite) (hy : y.isFinite) :
    (parts x).compare (parts y) = some (compare (value x) (value y)) := by
  rcases parts_of_isFinite hx with ⟨s, hxp⟩ | ⟨s, m, e, hm, hxp, hxc, -⟩
  · rcases parts_of_isFinite hy with ⟨t, hyp⟩ | ⟨t, n, f, hn, hyp, -, -⟩
    · rw [value_of_zero hxp, value_of_zero hyp, hxp, hyp]
      simp [UnpackedFloat.compare]
    · have hpos : (0 : ℚ) < n * 2 ^ f := by positivity
      rw [value_of_zero hxp, value_of_finite hyp, hxp, hyp]
      cases t <;>
        simp only [UnpackedFloat.compare, Sign.apply, Int.cast_neg, Int.cast_natCast, neg_mul]
      · rw [compare_gt_iff_gt.mpr (neg_lt_zero.mpr hpos)]
      · rw [compare_lt_iff_lt.mpr hpos]
  · have hpos : (0 : ℚ) < m * 2 ^ e := by positivity
    rcases parts_of_isFinite hy with ⟨t, hyp⟩ | ⟨t, n, f, hn, hyp, hyc, -⟩
    · rw [value_of_zero hyp, value_of_finite hxp, hxp, hyp]
      cases s <;>
        simp only [UnpackedFloat.compare, Sign.apply, Int.cast_neg, Int.cast_natCast, neg_mul]
      · rw [compare_lt_iff_lt.mpr (neg_lt_zero.mpr hpos)]
      · rw [compare_gt_iff_gt.mpr hpos]
    · have hpos' : (0 : ℚ) < n * 2 ^ f := by positivity
      rw [value_of_finite hxp, value_of_finite hyp, hxp, hyp]
      cases s <;> cases t <;>
        simp only [UnpackedFloat.compare, Sign.apply, Int.cast_neg, Int.cast_natCast, neg_mul]
      · rw [hxc.compare_eq hyc, swap_compare]
      · rw [compare_lt_iff_lt.mpr ((neg_lt_zero.mpr hpos).trans hpos')]
      · rw [compare_gt_iff_gt.mpr ((neg_lt_zero.mpr hpos').trans hpos)]
      · rw [hxc.compare_eq hyc]

/-! ### All doubles -/

/-- Place on the line of rationals with both ends; not-a-number is put at the lower end. -/
def rank (x : Float) : WithBot (WithTop ℚ) :=
  match parts x with
  | .infinity .positive => ((⊤ : WithTop ℚ) : WithBot (WithTop ℚ))
  | .infinity .negative | .notANumber => ⊥
  | _ => ((value x : WithTop ℚ) : WithBot (WithTop ℚ))

/-- The rank of a finite double is its value. -/
theorem rank_of_isFinite {x : Float} (h : x.isFinite) :
    rank x = ((value x : WithTop ℚ) : WithBot (WithTop ℚ)) := by
  rcases parts_of_isFinite h with ⟨s, hx⟩ | ⟨s, m, e, hm, hx, -, -⟩ <;> rw [rank, hx]

/-- Not-a-number is known by its parts. -/
theorem isNaN_iff {x : Float} : x.isNaN = true ↔ parts x = .notANumber := by
  change (parts x).isNaN = true ↔ _
  cases parts x <;> simp [UnpackedFloat.isNaN]

/-- A finite double is a number. -/
theorem not_isNaN_of_isFinite {x : Float} (h : x.isFinite) : ¬ x.isNaN := by
  rw [isNaN_iff]
  intro hx
  change (parts x).isFinite = true at h
  rw [hx] at h
  exact absurd h (by simp [UnpackedFloat.isFinite])

/-- A double that is a number is finite or an end of the line. -/
theorem number_cases {x : Float} (h : ¬ x.isNaN) :
    x.isFinite = true ∨ ∃ s, parts x = .infinity s := by
  rw [isNaN_iff] at h
  rcases hx : parts x with s | _ | s | ⟨s, m, e, hm⟩
  · exact Or.inr ⟨s, rfl⟩
  · exact absurd hx h
  · exact Or.inl (isFinite_of_zero hx)
  · exact Or.inl (isFinite_of_finite hx)

/-- An infinity compares with a finite double as the rank says. -/
theorem compare_infinity {x y : Float} {s : Sign} (hx : parts x = .infinity s) (hy : y.isFinite) :
    (parts x).compare (parts y) = some (compare (rank x) (rank y)) ∧
      (parts y).compare (parts x) = some (compare (rank y) (rank x)) := by
  rw [rank_of_isFinite hy, rank, hx]
  cases s with
  | positive =>
      have htop : ((value y : WithTop ℚ) : WithBot (WithTop ℚ)) <
          ((⊤ : WithTop ℚ) : WithBot (WithTop ℚ)) :=
        WithBot.coe_lt_coe.mpr (WithTop.coe_lt_top _)
      rw [compare_gt_iff_gt.mpr htop, compare_lt_iff_lt.mpr htop]
      rcases parts_of_isFinite hy with ⟨t, hyp⟩ | ⟨t, n, f, hn, hyp, -, -⟩ <;> rw [hyp] <;>
        exact ⟨rfl, rfl⟩
  | negative =>
      have hbot : (⊥ : WithBot (WithTop ℚ)) < ((value y : WithTop ℚ) : WithBot (WithTop ℚ)) :=
        WithBot.bot_lt_coe _
      rw [compare_gt_iff_gt.mpr hbot, compare_lt_iff_lt.mpr hbot]
      rcases parts_of_isFinite hy with ⟨t, hyp⟩ | ⟨t, n, f, hn, hyp, -, -⟩ <;> rw [hyp] <;>
        exact ⟨rfl, rfl⟩

/-- Doubles that are numbers compare as their ranks do. -/
theorem compare_eq_rank {x y : Float} (hx : ¬ x.isNaN) (hy : ¬ y.isNaN) :
    (parts x).compare (parts y) = some (compare (rank x) (rank y)) := by
  rcases number_cases hx with hxf | ⟨s, hxi⟩
  · rcases number_cases hy with hyf | ⟨t, hyi⟩
    · rw [compare_finite hxf hyf, rank_of_isFinite hxf, rank_of_isFinite hyf]
      simp only [compare, compareOfLessAndEq, WithBot.coe_lt_coe, WithTop.coe_lt_coe,
        WithBot.coe_inj, WithTop.coe_inj]
    · exact (compare_infinity hyi hxf).2
  · rcases number_cases hy with hyf | ⟨t, hyi⟩
    · exact (compare_infinity hxi hyf).1
    · rw [rank, rank, hxi, hyi]
      cases s <;> cases t <;> simp [UnpackedFloat.compare, compare, compareOfLessAndEq]

/-- Numbers are in order when their ranks are. -/
theorem lt_iff_rank {x y : Float} (hx : ¬ x.isNaN) (hy : ¬ y.isNaN) : x < y ↔ rank x < rank y := by
  rw [lt_iff, UnpackedFloat.lt, compare_eq_rank hx hy, beq_iff_eq, Option.some.injEq,
    compare_lt_iff_lt]

theorem le_iff_rank {x y : Float} (hx : ¬ x.isNaN) (hy : ¬ y.isNaN) : x ≤ y ↔ rank x ≤ rank y := by
  have hle : x ≤ y ↔ (parts x).le (parts y) = true := by
    change decide ((parts x).le (parts y) = true) = true ↔ _
    exact decide_eq_true_iff
  rw [hle, UnpackedFloat.le, compare_eq_rank hx hy, Option.any_some, Ordering.isLE_iff_ne_gt]
  exact compare_le_iff_le

/-- What compares is a number. -/
theorem not_isNaN_of_le {x y : Float} (h : x ≤ y) : ¬ x.isNaN ∧ ¬ y.isNaN := by
  have hle : (parts x).le (parts y) = true := of_decide_eq_true h
  rw [isNaN_iff, isNaN_iff]
  constructor
  · intro hx
    rw [hx] at hle
    exact absurd hle (by cases parts y <;> simp [UnpackedFloat.le, UnpackedFloat.compare])
  · intro hy
    rw [hy] at hle
    exact absurd hle (by cases parts x <;> simp [UnpackedFloat.le, UnpackedFloat.compare])

/-- The strict order implies the weak one. -/
theorem le_of_lt {x y : Float} (h : x < y) : x ≤ y := by
  rw [lt_iff, UnpackedFloat.lt, beq_iff_eq] at h
  change decide ((parts x).le (parts y) = true) = true
  rw [UnpackedFloat.le, h]
  rfl

/-- The strict order is asymmetric. -/
theorem lt_asymm {x y : Float} (h : x < y) : ¬ y < x := by
  obtain ⟨hx, hy⟩ := not_isNaN_of_le (le_of_lt h)
  rw [lt_iff_rank hx hy] at h
  rw [lt_iff_rank hy hx]
  exact h.not_gt

/-- The weak order is transitive. -/
theorem trans_le {x y z : Float} (hxy : x ≤ y) (hyz : y ≤ z) : x ≤ z := by
  obtain ⟨hx, hy⟩ := not_isNaN_of_le hxy
  have hz := (not_isNaN_of_le hyz).2
  rw [le_iff_rank hx hy] at hxy
  rw [le_iff_rank hy hz] at hyz
  exact (le_iff_rank hx hz).mpr (hxy.trans hyz)

/-- Finite doubles are ordered by their values. -/
theorem le_iff_value {x y : Float} (hx : x.isFinite) (hy : y.isFinite) :
    x ≤ y ↔ value x ≤ value y := by
  rw [le_iff_rank (not_isNaN_of_isFinite hx) (not_isNaN_of_isFinite hy), rank_of_isFinite hx,
    rank_of_isFinite hy, WithBot.coe_le_coe, WithTop.coe_le_coe]

theorem lt_iff_value {x y : Float} (hx : x.isFinite) (hy : y.isFinite) :
    x < y ↔ value x < value y := by
  rw [lt_iff_rank (not_isNaN_of_isFinite hx) (not_isNaN_of_isFinite hy), rank_of_isFinite hx,
    rank_of_isFinite hy, WithBot.coe_lt_coe, WithTop.coe_lt_coe]

/-- A finite double that is not at most another one is greater. -/
theorem not_le_iff {x y : Float} (hx : x.isFinite) (hy : y.isFinite) : ¬ x ≤ y ↔ y < x := by
  rw [le_iff_value hx hy, lt_iff_value hy hx, not_le]

/-- A positive double is a number, so it is at most itself. -/
theorem self_le_of_isPositive {x : Float} (h : isPositive x = true) : x ≤ x := by
  have hfinite := (isPositive_iff.mp h).1
  exact (le_iff_value hfinite hfinite).mpr (le_refl _)

/-! ### The greatest of several doubles -/

/-- Above zero, or the zero with a positive sign. -/
def NonNegative (x : Float) : Prop :=
  x = 0.0 ∨ 0.0 < x

namespace NonNegative

variable {x y : Float}

/-- The positive zero is not negative. -/
theorem zero : NonNegative 0.0 :=
  Or.inl rfl

/-- What is above zero is a number. -/
theorem not_isNaN_of_pos (h : 0.0 < x) : ¬ x.isNaN := by
  rw [isNaN_iff]
  rcases pos_iff.mp h with hx | ⟨m, e, hm, hx⟩ <;> simp [hx]

/-- What is not negative is a number. -/
theorem not_isNaN (h : NonNegative x) : ¬ x.isNaN := by
  rcases h with rfl | h
  · decide
  · exact not_isNaN_of_pos h

/-- Its rank is at least the one of zero. -/
theorem zero_le_rank (h : NonNegative x) : rank 0.0 ≤ rank x := by
  rcases h with rfl | hpos
  · exact le_refl _
  · exact ((lt_iff_rank zero.not_isNaN (not_isNaN_of_pos hpos)).mp hpos).le

/-- It is at least zero. -/
theorem zero_le (h : NonNegative x) : 0.0 ≤ x :=
  (le_iff_rank zero.not_isNaN h.not_isNaN).mpr h.zero_le_rank

/-- There is one double of this kind at a place. -/
theorem eq_of_rank (hx : NonNegative x) (hy : NonNegative y) (h : rank x = rank y) : x = y := by
  have hlt : ∀ {z w : Float}, NonNegative z → NonNegative w → rank z = rank w → ¬ z < w := by
    intro z w hz hw hzw
    rw [lt_iff_rank hz.not_isNaN hw.not_isNaN, hzw]
    exact lt_irrefl _
  rcases hx with rfl | hxpos
  · rcases hy with rfl | hypos
    · rfl
    · exact absurd hypos (hlt zero (Or.inr hypos) h)
  · apply eq_of_beq (not_le_zero_of_pos hxpos)
    rw [beq_iff, compare_eq_rank (not_isNaN_of_pos hxpos) hy.not_isNaN, h, compare_eq_iff_eq.mpr rfl]

/-- The greater of two doubles stands at the greater of their places. -/
theorem max (hx : NonNegative x) (y : Float) :
    NonNegative (Double.max x y) ∧ rank (Double.max x y) = rank x ⊔ rank y := by
  rw [Double.max, if_neg hx.not_isNaN]
  split_ifs with hnan hlt
  · have hbot : rank y = ⊥ := by rw [rank, isNaN_iff.mp hnan]
    exact ⟨hx, by rw [hbot, sup_bot_eq]⟩
  · rw [lt_iff_rank hx.not_isNaN hnan] at hlt
    refine ⟨Or.inr ?_, (sup_of_le_right hlt.le).symm⟩
    rw [lt_iff_rank zero.not_isNaN hnan]
    exact hx.zero_le_rank.trans_lt hlt
  · rw [lt_iff_rank hx.not_isNaN hnan, not_lt] at hlt
    exact ⟨hx, (sup_of_le_left hlt).symm⟩

/-- The greatest of doubles that are not negative has the greatest rank. -/
theorem foldl_max (hx : NonNegative x) (ys : List Float) :
    NonNegative (ys.foldl Double.max x) ∧
      rank (ys.foldl Double.max x) = (ys.map rank).foldl (· ⊔ ·) (rank x) := by
  induction ys generalizing x with
  | nil => exact ⟨hx, rfl⟩
  | cons y rest ih =>
      obtain ⟨hmax, hrank⟩ := hx.max y
      rw [List.foldl_cons, List.map_cons, List.foldl_cons, ← hrank]
      exact ih hmax

/-- **The greatest of several doubles is at most** what all of them are at most. -/
theorem foldl_max_le_iff (hx : NonNegative x) {ys : List Float} (hys : ∀ y ∈ ys, ¬ y.isNaN)
    {bound : Float} (hbound : ¬ bound.isNaN) :
    ys.foldl Double.max x ≤ bound ↔ x ≤ bound ∧ ∀ y ∈ ys, y ≤ bound := by
  induction ys generalizing x with
  | nil => simp
  | cons y rest ih =>
      obtain ⟨hy, hrest⟩ := List.forall_mem_cons.mp hys
      obtain ⟨hmax, hrank⟩ := hx.max y
      rw [List.foldl_cons, ih hmax hrest, List.forall_mem_cons, ← and_assoc]
      apply and_congr_left'
      rw [le_iff_rank hmax.not_isNaN hbound, hrank, sup_le_iff, le_iff_rank hx.not_isNaN hbound,
        le_iff_rank hy hbound]

end NonNegative

/-- One of several finite doubles is the greatest. -/
theorem exists_greatest {xs : List Float} (hne : xs ≠ []) (hfinite : ∀ x ∈ xs, x.isFinite = true) :
    ∃ x ∈ xs, ∀ y ∈ xs, y ≤ x := by
  obtain ⟨x, hx, hgreatest⟩ := xs.toFinset.exists_max_image value (by simpa using hne)
  rw [List.mem_toFinset] at hx
  refine ⟨x, hx, fun y hy => ?_⟩
  exact (le_iff_value (hfinite y hy) (hfinite x hx)).mpr (hgreatest y (List.mem_toFinset.mpr hy))

/-- **The greatest of several doubles does not depend on their order.** -/
theorem foldl_max_perm {xs ys : List Float} (h : xs.Perm ys) :
    xs.foldl Double.max 0.0 = ys.foldl Double.max 0.0 := by
  obtain ⟨hx, hxrank⟩ := NonNegative.zero.foldl_max xs
  obtain ⟨hy, hyrank⟩ := NonNegative.zero.foldl_max ys
  apply hx.eq_of_rank hy
  rw [hxrank, hyrank]
  have : RightCommutative fun a b : WithBot (WithTop ℚ) => a ⊔ b := ⟨sup_right_comm⟩
  exact (h.map rank).foldl_eq _

/-! ### The total order -/

/-- The total order tells all doubles apart. -/
theorem orderKey_injective {x y : Float} (h : orderKey x = orderKey y) : x = y := by
  have hx := x.toBits.toNat_lt
  have hy := y.toBits.toNat_lt
  have hbits : x.toBits.toNat = y.toBits.toNat := by
    simp only [orderKey, isNegative, decide_eq_true_eq] at h
    split_ifs at h <;> omega
  rcases x with ⟨⟨a, ha⟩⟩
  rcases y with ⟨⟨b, hb⟩⟩
  obtain rfl : a = b := UInt64.toNat_inj.mp hbits
  rfl

/-- Sorting by a double puts the keys in order. -/
theorem mergeSort_pairwise {α : Type} (f : α → Float) (xs : List α) :
    (xs.mergeSort fun a b => orderKey (f a) ≤ orderKey (f b)).Pairwise
      fun a b => orderKey (f a) ≤ orderKey (f b) := by
  have hsorted := @List.pairwise_mergeSort _ (fun a b => decide (orderKey (f a) ≤ orderKey (f b)))
    (fun a b c hab hbc => by simp only [decide_eq_true_eq] at *; omega)
    (fun a b => by simp only [Bool.or_eq_true, decide_eq_true_eq]; omega) xs
  simpa only [decide_eq_true_eq] using hsorted

/-- **Sorting forgets the order of a list** whose elements are told apart by their doubles. -/
theorem mergeSort_eq_of_perm {α : Type} {f : α → Float} {xs ys : List α} (h : xs.Perm ys)
    (hapart : ∀ a ∈ xs, ∀ b ∈ xs, f a = f b → a = b) :
    (xs.mergeSort fun a b => orderKey (f a) ≤ orderKey (f b)) =
      ys.mergeSort fun a b => orderKey (f a) ≤ orderKey (f b) := by
  refine List.Perm.eq_of_pairwise ?_ (mergeSort_pairwise f xs) (mergeSort_pairwise f ys)
    ((List.mergeSort_perm xs _).trans (h.trans (List.mergeSort_perm ys _).symm))
  intro a b ha hb hab hba
  have hmem : b ∈ xs := h.mem_iff.mpr (List.mem_mergeSort.mp hb)
  exact hapart a (List.mem_mergeSort.mp ha) b hmem (orderKey_injective (le_antisymm hab hba))

/-- Sorted doubles have their keys in order. -/
theorem sort_pairwise (xs : List Float) : (sort xs).Pairwise fun a b => orderKey a ≤ orderKey b :=
  mergeSort_pairwise id xs

/-- Sorting does not depend on the order before, since the keys know every double. -/
theorem sort_eq_of_perm {xs ys : List Float} (h : xs.Perm ys) : sort xs = sort ys :=
  mergeSort_eq_of_perm (f := id) h fun _ _ _ _ heq => heq

/-- The word of a double other than zero: its sign, its exponent, counted from the least one, and
its mantissa. -/
theorem toNat_toBits {x : Float} {s : Sign} {m : Nat} {e : Int} {hm : 0 < m}
    (h : parts x = .finite s m e hm) :
    x.toBits.toNat = s.toBitVec.toNat * 2 ^ 63 + (e + 1074).toNat * 2 ^ 52 + m := by
  obtain ⟨hc, he⟩ := canonical_of_unpack h
  have hleast := hc.least
  have hlt := hc.lt
  have hword := (pack_unpack_word x.toModel.valid).1
  change UnpackedFloat.pack Format.binary64 (parts x) = x.toModel.toBits.toBitVec at hword
  rw [h, pack_finite hc, if_neg (by omega)] at hword
  have hbits : x.toBits.toNat = x.toModel.toBits.toBitVec.toNat := rfl
  rw [hbits, ← hword]
  split_ifs with hnormal
  · rw [toNat_packComponents, BitVec.toNat_ofNat, BitVec.toNat_ofNat]
    omega
  · obtain rfl : e = -1074 := hc.normal.resolve_left hnormal
    rw [toNat_packComponents, BitVec.toNat_ofNat]
    simp
    omega

/-- Words of doubles above zero compare as the doubles do. -/
theorem Canonical.compare_word {m n : Nat} {e f : Int} (hm : Canonical m e) (hn : Canonical n f) :
    compare ((e + 1074).toNat * 2 ^ 52 + m) ((f + 1074).toNat * 2 ^ 52 + n) =
      compare ((m : ℚ) * 2 ^ e) (n * 2 ^ f) := by
  have hmleast := hm.least
  have hmlt := hm.lt
  have hmnormal := hm.normal
  have hnleast := hn.least
  have hnlt := hn.lt
  have hnnormal := hn.normal
  rw [← hm.compare_eq hn]
  rcases lt_trichotomy e f with hlt | rfl | hgt
  · rw [compare_lt_iff_lt.mpr hlt]
    exact compare_lt_iff_lt.mpr (by omega)
  · rw [compare_eq_iff_eq.mpr (rfl : e = e)]
    change _ = compare m n
    simp only [Nat.compare_eq_ite_lt, Nat.add_lt_add_iff_left]
  · rw [compare_gt_iff_gt.mpr hgt]
    exact compare_gt_iff_gt.mpr (by omega)

/-- A positive double has positive parts. -/
theorem parts_of_isPositive {x : Float} (h : isPositive x = true) :
    ∃ m e hm, parts x = .finite .positive m e hm := by
  rcases pos_iff.mp (pos_of_isPositive h) with hx | hx
  · have hfinite : (parts x).isFinite = true := (isPositive_iff.mp h).1
    rw [hx] at hfinite
    exact absurd hfinite (by simp [UnpackedFloat.isFinite])
  · exact hx

/-- The total order of finite doubles above zero is that of their values. -/
theorem orderKey_le_iff {x y : Float} (hx : isPositive x = true) (hy : isPositive y = true) :
    orderKey x ≤ orderKey y ↔ value x ≤ value y := by
  have hkey : ∀ {z : Float} {m : Nat} {e : Int} {hm : 0 < m},
      parts z = .finite .positive m e hm → orderKey z = ((e + 1074).toNat * 2 ^ 52 + m : Nat) := by
    intro z m e hm hz
    obtain ⟨hc, he⟩ := canonical_of_unpack hz
    have hlt := hc.lt
    have hword := toNat_toBits hz
    rw [show Sign.positive.toBitVec.toNat = 0 from rfl, zero_mul, zero_add] at hword
    rw [orderKey, isNegative, if_neg (by simp only [decide_eq_true_eq]; omega), hword]
  obtain ⟨m, e, hm, hxp⟩ := parts_of_isPositive hx
  obtain ⟨n, f, hn, hyp⟩ := parts_of_isPositive hy
  have hcompare := (canonical_of_unpack hxp).1.compare_word (canonical_of_unpack hyp).1
  rw [hkey hxp, hkey hyp, value_of_finite hxp, value_of_finite hyp, Int.ofNat_le,
    ← compare_le_iff_le, hcompare]
  exact compare_le_iff_le

end SolarBill.Double
