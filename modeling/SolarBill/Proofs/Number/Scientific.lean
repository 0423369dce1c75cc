import SolarBill.Number.Decimal
import SolarBill.Proofs.Number.Closest
import SolarBill.Proofs.Number.Counting

/-!
# Decimal numbers as doubles

A decimal number becomes a double in one of several ways: with a power of ten that is a double
itself, with one that is computed in full, or without any where the exponent alone says that the
number is too great or too small.  All of them round once, so they give the same:

* `rounded_ofScientific` — a whole number times a power of ten, rounded;
* `Decimal.toFloat_nearest` — the double of a decimal number is the nearest one.
-/

namespace SolarBill

open Float.Model Float.Model.UnpackedFloat

namespace Double

variable {m : Nat} {e : Int}

/-! ### Powers of ten that are doubles -/

/-- The table of powers of ten is exact. -/
theorem value_powerOfTen : ∀ (e : Nat) (he : e < Float.exactlyRepresentablePowersOfTen.size),
    Float.exactlyRepresentablePowersOfTen[e].isFinite = true ∧
      value Float.exactlyRepresentablePowersOfTen[e] = 10 ^ e := by
  decide +kernel

/-- A mantissa below 2 ^ 53 is converted exactly. -/
theorem toFloat_of_lt (hm : m < 2 ^ 53) : m.toUInt64.toFloat = ofCount m := by
  have hword : m.toUInt64.toNat = m := Nat.mod_eq_of_lt (hm.trans (by norm_num))
  rw [toFloat_eq_ofCount, hword]

/-- A small count and a small power of ten are doubles themselves. -/
theorem rounded_of_powerOfTen {k : Nat} (hm : m < 2 ^ 53 ∧ k ≤ 22) (negative : Bool) :
    Rounded .positive (if negative then m / 10 ^ k else m * 10 ^ k)
      (parts (Float.ofScientific m negative k)) := by
  have hk : k < Float.exactlyRepresentablePowersOfTen.size := by
    change k < 23
    omega
  obtain ⟨hpower, hvalue⟩ := value_powerOfTen k hk
  have hten : 0 < value Float.exactlyRepresentablePowersOfTen[k] := by
    rw [hvalue]
    positivity
  rw [Float.ofScientific, dif_pos hm, toFloat_of_lt hm.1]
  rcases Nat.eq_zero_or_pos m with rfl | hpos
  · obtain ⟨n, f, hn, hparts, -⟩ := canonical_of_pos hpower hten
    have hcount : parts (ofCount 0) = .zero .positive := rfl
    have hzero : (if negative then (0 : Nat) / (10 : ℚ) ^ k else (0 : Nat) * (10 : ℚ) ^ k) = 0 := by
      rw [Nat.cast_zero, zero_div, zero_mul, ite_self]
    rw [hzero]
    cases negative with
    | false =>
        rw [if_neg Bool.false_ne_true, parts_mul, hcount, hparts, UnpackedFloat.mul,
          unpack_pack_zero]
        exact .zero nearest_zero
    | true =>
        rw [if_pos rfl, parts_div, hcount, hparts, UnpackedFloat.div, unpack_pack_zero]
        exact .zero nearest_zero
  · have hcount : value (ofCount m) = m := value_ofCount hm.1
    have hfinite : (ofCount m).isFinite := isFinite_ofCount (hm.1.trans (by norm_num))
    have hcountpos : 0 < value (ofCount m) := by
      rw [hcount]
      exact_mod_cast hpos
    rw [← hcount, ← hvalue]
    cases negative with
    | false => exact rounded_mul hfinite hpower hcountpos hten
    | true => exact rounded_div hfinite hpower hcountpos hten

/-! ### Other powers of ten -/

/-- A whole number beyond the doubles. -/
theorem rounded_infinity {n : Nat} (hlarge : (2 : ℚ) ^ (1024 : Int) ≤ n) :
    Rounded .positive n (.infinity .positive) := by
  have hn : 0 < n := by
    have hpos : (0 : ℚ) < n := lt_of_lt_of_le (by positivity) hlarge
    exact_mod_cast hpos
  obtain ⟨m, e, hm, -, -, h, t, -, hnear⟩ :=
    round_nearest (s := .positive) (e := 0) hn (by norm_num)
  rw [zpow_zero, mul_one] at hnear
  refine .infinity hnear ?_
  have hbound : (1 : Nat) * (2 : ℚ) ^ (1024 : Int) ≤ h * 2 ^ t := by
    apply hnear.ge_of_ge (by norm_num) _ (by norm_num)
    rwa [Nat.cast_one, one_mul]
  rwa [Nat.cast_one, one_mul] at hbound

/-- A number below half of the least double. -/
theorem rounded_zero {v : ℚ} (hv : 0 ≤ v) (hsmall : v < 2 ^ (-1075 : Int)) :
    Rounded .positive v (.zero .positive) := by
  have hhalf : (2 : ℚ) ^ (-1074 : Int) = 2 * 2 ^ (-1075 : Int) := by
    rw [show (-1074 : Int) = -1075 + (1 : Nat) from rfl, two_zpow_add, pow_one]
  have hpower : (2 : ℚ) ^ (-1074 : Int) ≤ 2 ^ (-1074 + 53 : Int) :=
    zpow_le_zpow_right₀ one_le_two (by norm_num)
  have habs : |((0 : Nat) : ℚ) * 2 ^ (-1074 : Int) - v| = v := by
    rw [Nat.cast_zero, zero_mul, zero_sub, abs_neg, abs_of_nonneg hv]
  refine .zero ⟨le_refl _, ?_, Or.inr rfl, ?_, fun _ => Even.zero⟩
  · linarith
  · rw [habs]
    linarith

/-- A number so great that its power of ten is not computed. -/
theorem large_of_exponent {k : Nat} (hm : 0 < m) (hk : 2048 < k) :
    (2 : ℚ) ^ (1024 : Int) ≤ (m * 10 ^ k : Nat) := by
  have hone : (1 : ℚ) ≤ m := by exact_mod_cast hm
  rw [Nat.cast_mul, Nat.cast_pow, Nat.cast_ofNat]
  calc (2 : ℚ) ^ (1024 : Int) ≤ 2 ^ (k : Int) := zpow_le_zpow_right₀ one_le_two (by omega)
    _ = 1 * 2 ^ k := by rw [zpow_natCast, one_mul]
    _ ≤ m * 10 ^ k := by gcongr; norm_num

/-- A number so small that its power of ten is not computed. -/
theorem small_of_exponent (he : e < -(2048 + (m.log2 : Int))) :
    (m : ℚ) * 10 ^ e < 2 ^ (-1075 : Int) := by
  obtain ⟨k, rfl⟩ : ∃ k : Nat, e = -k := ⟨(-e).toNat, by omega⟩
  have hnext : (m : ℚ) < 2 ^ (m.log2 + 1) := by exact_mod_cast Nat.lt_log2_self
  have hten : (10 : ℚ) ^ (-(k : Int)) ≤ 2 ^ (-(k : Int)) := by
    rw [zpow_neg, zpow_neg, zpow_natCast, zpow_natCast]
    gcongr
    norm_num
  calc (m : ℚ) * 10 ^ (-(k : Int)) ≤ m * 2 ^ (-(k : Int)) := by gcongr
    _ < 2 ^ (m.log2 + 1) * 2 ^ (-(k : Int)) := by gcongr
    _ = 2 ^ (-(k : Int) + (m.log2 + 1 : Nat)) := (two_zpow_add _ _).symm
    _ ≤ 2 ^ (-1075 : Int) := zpow_le_zpow_right₀ one_le_two (by push_cast; omega)

/-- Scientific notation is rounded once. -/
theorem rounded_model (m : Nat) (e : Int) :
    Rounded .positive (m * 10 ^ e) (Float.Model.ofScientific m e).unpack := by
  rcases Nat.eq_zero_or_pos m with rfl | hm
  · rw [Nat.cast_zero, zero_mul, Float.Model.ofScientific, UnpackedFloat.ofScientific, dif_pos rfl,
      unpack_pack_zero]
    exact .zero nearest_zero
  have hbits : (2 : Int) ^ Format.binary64.exponentBits = 2048 := rfl
  rw [Float.Model.ofScientific, UnpackedFloat.ofScientific, dif_neg hm.ne', hbits]
  -- The conversion cuts off exponents that are certainly too great or too small, and multiplies or
  -- divides by a power of ten in between.
  split_ifs with hgreat hsmall hnonneg
  · obtain ⟨k, rfl⟩ : ∃ k : Nat, e = k := ⟨e.toNat, by omega⟩
    have hlarge := rounded_infinity (large_of_exponent (k := k) hm (by omega))
    rw [Nat.cast_mul, Nat.cast_pow, Nat.cast_ofNat] at hlarge
    rw [zpow_natCast]
    exact unpack_infinity .positive ▸ hlarge
  · rw [unpack_pack_zero]
    exact rounded_zero (by positivity) (small_of_exponent hsmall)
  · obtain ⟨k, rfl⟩ : ∃ k : Nat, e = k := ⟨e.toNat, by omega⟩
    have hvalue : (m : ℚ) * (10 : ℚ) ^ (k : Int) =
        ((m <<< 53 : Nat) * 2 ^ (-53 : Int)) * ((10 ^ k : Nat) * 2 ^ (0 : Int)) := by
      rw [Nat.shiftLeft_eq, zpow_natCast, zpow_zero, zpow_neg]
      push_cast
      field_simp
    rw [hvalue]
    refine mul_rounded (Or.inl ?_)
    -- The mantissa is shifted so that the product has all the digits of the nearest double.
    rw [Nat.shiftLeft_eq]
    calc 2 ^ 52 ≤ 1 * 2 ^ 53 * 1 := by norm_num
      _ ≤ m * 2 ^ 53 * 10 ^ k := by
        gcongr
        · exact hm
        · exact Nat.one_le_pow _ _ (by norm_num)
  · obtain ⟨k, rfl⟩ : ∃ k : Nat, e = -k := ⟨(-e).toNat, by omega⟩
    have hvalue : (m : ℚ) * (10 : ℚ) ^ (-(k : Int)) =
        (m * 2 ^ (0 : Int)) / ((10 ^ k : Nat) * 2 ^ (0 : Int)) := by
      rw [zpow_neg, zpow_natCast, zpow_zero]
      push_cast
      ring
    have hamount : (-(-(k : Int))).toNat = k := by omega
    simp only [hamount]
    rw [hvalue]
    exact div_rounded

/-- **A whole number times a power of ten is rounded once**, in whichever way it is computed. -/
theorem rounded_ofScientific (m : Nat) (e : Int) :
    Rounded .positive (m * 10 ^ e) (parts (Float.ofScientific m (e < 0) e.natAbs)) := by
  by_cases hfast : m < 2 ^ 53 ∧ e.natAbs ≤ 22
  · have hvalue : (m : ℚ) * (10 : ℚ) ^ e = if decide (e < 0) = true then
        (m : ℚ) / 10 ^ e.natAbs else (m : ℚ) * 10 ^ e.natAbs := by
      simp only [← zpow_natCast, decide_eq_true_eq]
      split_ifs with hneg
      · rw [div_eq_mul_inv, ← zpow_neg, Int.ofNat_natAbs_of_nonpos hneg.le, neg_neg]
      · rw [Int.natAbs_of_nonneg (not_lt.mp hneg)]
    rw [hvalue]
    exact rounded_of_powerOfTen hfast _
  · have hexponent : (if decide (e < 0) = true then Int.negOfNat e.natAbs
        else Int.ofNat e.natAbs) = e := by
      simp only [decide_eq_true_eq, Int.negOfNat_eq]
      split_ifs <;> simp only [Int.ofNat_eq_natCast] <;> omega
    rw [Float.ofScientific, dif_neg hfast, hexponent]
    exact rounded_model m e

/-- Rounding does not depend on the sign. -/
theorem Rounded.neg {v : ℚ} {p : UnpackedFloat} (h : Rounded .positive v p) :
    Rounded .negative v p.neg := by
  cases h with
  | zero hnear => exact .zero hnear
  | finite hnear hc hfit hvalue => exact .finite hnear hc hfit hvalue
  | infinity hnear hlarge => exact .infinity hnear hlarge

end Double

open Double

/-- **The double of a decimal number is the nearest one.** -/
theorem Decimal.toFloat_nearest (d : Decimal) :
    NearestDouble d.negative (d.mantissa * 10 ^ d.exponent) d.toFloat := by
  have hmagnitude := rounded_ofScientific d.mantissa d.exponent
  apply Rounded.nearestDouble _ (by positivity)
  rw [toFloat]
  cases d.negative with
  | false => exact hmagnitude
  | true =>
      rw [if_pos rfl, parts_neg]
      exact hmagnitude.neg

end SolarBill
