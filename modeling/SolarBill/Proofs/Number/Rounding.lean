import Mathlib
import SolarBill.Proofs.Number.Packing

/-!
# Rounding to a double

Every operation on doubles ends by rounding a mantissa at an exponent: the mantissa is cut to
fifty-three bits, but not below the least exponent, and the part cut off decides the last bit.

The main statement is `round_spec`: the result is canonical, never zero, and exact for a *short*
mantissa, one of at most fifty-three significant bits.  `short_of_eq` finds short mantissas: an
equal value with a small mantissa is enough.
-/

namespace SolarBill.Double

open Float.Model Float.Model.UnpackedFloat

/-- Where a mantissa is cut: at fifty-three bits, but not below the least exponent. -/
theorem targetExponent_eq (m : Nat) (e : Int) :
    Format.binary64.targetExponent (totalExponent m e) =
      Max.max ((m.log2 : Int) + e - 52) (-1074) := by
  have hbits : (Format.binary64.mantissaBits : Int) = 53 := rfl
  have hmin : Format.binary64.minExponent = -1074 := rfl
  rw [Format.targetExponent, totalExponent, hbits, hmin]
  congr 1
  omega

/-- A canonical mantissa is not cut. -/
theorem targetExponent_le {m : Nat} {e : Int} (hm : m < 2 ^ 53) (he : -1074 ≤ e) :
    Format.binary64.targetExponent (totalExponent m e) ≤ e := by
  rw [targetExponent_eq]
  rcases Nat.eq_zero_or_pos m with rfl | hpos
  · simp
    omega
  · have : m.log2 < 53 := (Nat.log2_lt hpos.ne').mpr hm
    omega

/-- Shifting a mantissa right divides it. -/
theorem mantissa_shiftRight (em : ExtendedMantissa) (n : Nat) :
    (em >>> n).mantissa = em.mantissa / 2 ^ n := by
  induction n with
  | zero => simp [HShiftRight.hShiftRight, Nat.repeat]
  | succ n ih =>
      change (em >>> n).mantissa / 2 = _
      rw [ih, Nat.div_div_eq_div_mul, pow_succ]

/-- Cutting zeros off leaves no residue. -/
theorem shiftRight_of_dvd {m n : Nat} (h : 2 ^ n ∣ m) :
    (ExtendedMantissa.mk m false false >>> n) = ⟨m / 2 ^ n, false, false⟩ := by
  induction n with
  | zero => simp [HShiftRight.hShiftRight, Nat.repeat]
  | succ n ih =>
      have hdvd : 2 ^ n ∣ m := dvd_trans (pow_dvd_pow 2 n.le_succ) h
      have heven : m / 2 ^ n % 2 = 0 := by
        obtain ⟨k, rfl⟩ := h
        rw [pow_succ, mul_assoc, Nat.mul_div_cancel_left _ (by positivity)]
        omega
      change (ExtendedMantissa.mk m false false >>> n).shiftRightOne = _
      rw [ih hdvd]
      simp [ExtendedMantissa.shiftRightOne, heven, Nat.div_div_eq_div_mul, pow_succ]

/-- Rounding adds at most one unit. -/
theorem roundedMantissa_bounds (em : ExtendedMantissa) :
    em.mantissa ≤ em.roundedMantissa ∧ em.roundedMantissa ≤ em.mantissa + 1 := by
  rcases em with ⟨m, _ | _, _ | _⟩ <;>
    simp only [ExtendedMantissa.roundedMantissa, ExtendedMantissa.accuracy,
      Accuracy.roundToNearestEven] <;> omega

/-- A short mantissa at an admissible exponent needs no shift. -/
theorem shiftToTarget_of_lt {m : Nat} {e : Int} (hm : m < 2 ^ 53) (he : -1074 ≤ e) :
    shiftToTargetExponent Format.binary64 m e .exact = (⟨m, false, false⟩, e) := by
  have hshift := targetExponent_le hm he
  have hzero : (Format.binary64.targetExponent (totalExponent m e) - e).toNat = 0 := by omega
  simp [shiftToTargetExponent, shiftToExponent, hzero, HShiftRight.hShiftRight, Nat.repeat,
    ExtendedMantissa.ofMantissaAndAccuracy]

/-- A mantissa that rounding carried over is shifted once more. -/
theorem shiftToTarget_carry {e : Int} (he : -1074 ≤ e) :
    shiftToTargetExponent Format.binary64 (2 ^ 53) e .exact = (⟨2 ^ 52, false, false⟩, e + 1) := by
  have htarget : Format.binary64.targetExponent (totalExponent (2 ^ 53) e) = e + 1 := by
    rw [targetExponent_eq, Nat.log2_two_pow]
    omega
  have hone : (e + 1 - e).toNat = 1 := by omega
  simp only [shiftToTargetExponent, shiftToExponent, htarget, hone]
  rfl

/-- The last step of rounding: a rounded mantissa of at most fifty-four bits becomes canonical. -/
theorem roundWithAccuracy_of_shift {s : Sign} {m : Nat} {e t : Int} {accuracy : Accuracy}
    {em : ExtendedMantissa} (hshift : shiftToTargetExponent Format.binary64 m e accuracy = (em, t))
    (hpos : 0 < em.roundedMantissa) (hlt : em.mantissa < 2 ^ 53) (ht : -1074 ≤ t)
    (hnormal : 2 ^ 52 ≤ em.mantissa ∨ t = -1074) :
    ∃ m' e', ∃ hm' : 0 < m',
      roundWithAccuracy Format.binary64 s m e accuracy = .finite s m' e' hm' ∧
      Canonical m' e' ∧ (m' : ℚ) * 2 ^ e' = em.roundedMantissa * 2 ^ t := by
  obtain ⟨hlow, hhigh⟩ := roundedMantissa_bounds em
  rw [roundWithAccuracy, hshift]
  rcases Nat.lt_or_ge em.roundedMantissa (2 ^ 53) with hshort | hcarry
  · refine ⟨em.roundedMantissa, t, by omega, ?_, ⟨by omega, hshort, ht, by omega⟩, rfl⟩
    simp only [shiftToTarget_of_lt hshort ht]
    rw [dif_neg (by omega)]
  · have heq : em.roundedMantissa = 2 ^ 53 := by omega
    refine ⟨2 ^ 52, t + 1, by positivity, ?_, ⟨by positivity, by norm_num, by omega, by simp⟩, ?_⟩
    · simp only [heq, shiftToTarget_carry ht]
      rw [dif_neg (by norm_num)]
    · rw [heq, zpow_add₀ two_ne_zero]
      push_cast
      ring

/-- A whole number of at most fifty-three significant bits. -/
def Short (m : Nat) : Prop :=
  2 ^ (m.log2 - 52) ∣ m

/-- Lowering an exponent to the one where the mantissa is cut loses nothing. -/
theorem round_of_lowered {s : Sign} {m n : Nat} {t : Int} (hm : 0 < m)
    (htarget : Format.binary64.targetExponent (totalExponent m (t + n)) = t) :
    ∃ m' e', ∃ hm' : 0 < m',
      UnpackedFloat.round Format.binary64 s m (t + n) = .finite s m' e' hm' ∧
      Canonical m' e' ∧ (m' : ℚ) * 2 ^ e' = m * 2 ^ (t + n) := by
  have hexp := targetExponent_eq m (t + n)
  have hself := Nat.log2_self_le hm.ne'
  have hnext := Nat.lt_log2_self (n := m)
  have hleast : -1074 ≤ t := by omega
  have hlt : m * 2 ^ n < 2 ^ 53 := by
    calc m * 2 ^ n < 2 ^ (m.log2 + 1) * 2 ^ n := by gcongr
      _ = 2 ^ (m.log2 + 1 + n) := (pow_add _ _ _).symm
      _ ≤ 2 ^ 53 := Nat.pow_le_pow_right (by norm_num) (by omega)
  have hnormal : 2 ^ 52 ≤ m * 2 ^ n ∨ t = -1074 := by
    by_cases ht : t = -1074
    · exact Or.inr ht
    · left
      calc 2 ^ 52 = 2 ^ m.log2 * 2 ^ n := by rw [← pow_add]; congr 1; omega
        _ ≤ m * 2 ^ n := by gcongr
  have hround : UnpackedFloat.round Format.binary64 s m (t + n) =
      roundWithAccuracy Format.binary64 s (m * 2 ^ n) t .exact := by
    have hn : (t + n - t).toNat = n := by omega
    simp only [UnpackedFloat.round, decreaseExponent, htarget, hn, Nat.shiftLeft_eq,
      add_sub_cancel_right]
  obtain ⟨m', e', hm', heq, hcanonical, hvalue⟩ := roundWithAccuracy_of_shift
    (s := s) (shiftToTarget_of_lt hlt hleast) (show 0 < m * 2 ^ n by positivity) hlt hleast hnormal
  refine ⟨m', e', hm', hround.trans heq, hcanonical, hvalue.trans ?_⟩
  change ((m * 2 ^ n : Nat) : ℚ) * 2 ^ t = m * 2 ^ (t + n)
  rw [zpow_add₀ two_ne_zero, zpow_natCast]
  push_cast
  ring

/-- Raising an exponent cuts the mantissa to fifty-three bits and rounds what is left. -/
theorem round_of_raised {s : Sign} {m n : Nat} {e : Int} (hm : 0 < m) (he : -1074 ≤ e)
    (htarget : Format.binary64.targetExponent (totalExponent m e) = e + n) (hn : 0 < n) :
    ∃ m' e', ∃ hm' : 0 < m', UnpackedFloat.round Format.binary64 s m e = .finite s m' e' hm' ∧
      Canonical m' e' ∧ (m' : ℚ) * 2 ^ e' =
        (ExtendedMantissa.mk m false false >>> n).roundedMantissa * 2 ^ (e + n) := by
  have hexp := targetExponent_eq m e
  have hlog : m.log2 = 52 + n := by omega
  have hself := Nat.log2_self_le hm.ne'
  have hnext := Nat.lt_log2_self (n := m)
  rw [hlog] at hself hnext
  have hlow : 2 ^ 52 ≤ m / 2 ^ n := by
    rw [Nat.le_div_iff_mul_le (by positivity), ← pow_add]
    exact hself
  have hhigh : m / 2 ^ n < 2 ^ 53 := by
    rw [Nat.div_lt_iff_lt_mul (by positivity), ← pow_add]
    calc m < 2 ^ (52 + n + 1) := hnext
      _ = 2 ^ (53 + n) := by congr 1; omega
  have hround : UnpackedFloat.round Format.binary64 s m e =
      roundWithAccuracy Format.binary64 s m e .exact := by
    have hzero : (e - (e + n)).toNat = 0 := by omega
    simp only [UnpackedFloat.round, decreaseExponent, htarget, hzero, Nat.shiftLeft_zero,
      Nat.cast_zero, sub_zero]
  have hshift : shiftToTargetExponent Format.binary64 m e .exact =
      (ExtendedMantissa.mk m false false >>> n, e + n) := by
    have hamount : (e + n - e).toNat = n := by omega
    simp only [shiftToTargetExponent, shiftToExponent, htarget, hamount]
    rfl
  have hmantissa : (ExtendedMantissa.mk m false false >>> n).mantissa = m / 2 ^ n :=
    mantissa_shiftRight _ n
  have hpos : 0 < (ExtendedMantissa.mk m false false >>> n).roundedMantissa :=
    lt_of_lt_of_le (by omega) (roundedMantissa_bounds _).1
  obtain ⟨m', e', hm', heq, hcanonical, hvalue⟩ := roundWithAccuracy_of_shift (s := s) hshift
    hpos (hmantissa ▸ hhigh) (by omega) (Or.inl (hmantissa ▸ hlow))
  exact ⟨m', e', hm', hround.trans heq, hcanonical, hvalue⟩

/-- Cutting a short mantissa loses nothing. -/
theorem roundedMantissa_of_short {m n : Nat} {e : Int} (hlog : m.log2 = 52 + n) (hshort : Short m) :
    ((ExtendedMantissa.mk m false false >>> n).roundedMantissa : ℚ) * 2 ^ (e + n) = m * 2 ^ e := by
  have hdvd : 2 ^ n ∣ m := by
    rw [Short, hlog, Nat.add_sub_cancel_left] at hshort
    exact hshort
  rw [shiftRight_of_dvd hdvd, zpow_add₀ two_ne_zero, zpow_natCast]
  obtain ⟨k, rfl⟩ := hdvd
  rw [Nat.mul_div_cancel_left _ (by positivity)]
  change (k : ℚ) * _ = _
  push_cast
  ring

/-- **Rounding.**  The result of rounding a mantissa at an admissible exponent is canonical, and
exact when the mantissa is short. -/
theorem round_spec {s : Sign} {m : Nat} {e : Int} (hm : 0 < m) (he : -1074 ≤ e) :
    ∃ m' e', ∃ hm' : 0 < m', UnpackedFloat.round Format.binary64 s m e = .finite s m' e' hm' ∧
      Canonical m' e' ∧ (Short m → (m' : ℚ) * 2 ^ e' = m * 2 ^ e) := by
  rcases le_or_gt (Format.binary64.targetExponent (totalExponent m e)) e with hle | hgt
  · obtain ⟨n, hn⟩ := Int.le.dest hle
    obtain ⟨m', e', hm', heq, hcanonical, hvalue⟩ := round_of_lowered (s := s) (n := n)
      (t := Format.binary64.targetExponent (totalExponent m e)) hm (by rw [hn])
    rw [hn] at heq hvalue
    exact ⟨m', e', hm', heq, hcanonical, fun _ => hvalue⟩
  · obtain ⟨n, hn⟩ := Int.le.dest hgt.le
    have hlog : m.log2 = 52 + n := by
      have := targetExponent_eq m e
      omega
    obtain ⟨m', e', hm', heq, hcanonical, hvalue⟩ :=
      round_of_raised (s := s) hm he hn.symm (by omega)
    exact ⟨m', e', hm', heq, hcanonical,
      fun hshort => hvalue.trans (roundedMantissa_of_short hlog hshort)⟩

/-- What is a mantissa below `2 ^ 53` at some admissible exponent is short. -/
theorem short_of_eq {m k : Nat} {e f : Int} (hm : 0 < m) (hk : k < 2 ^ 53)
    (h : (m : ℚ) * 2 ^ e = k * 2 ^ f) : Short m := by
  rcases le_total e f with hle | hle
  · obtain ⟨n, rfl⟩ := Int.le.dest hle
    have hmk : m = k * 2 ^ n := by
      have hpos : (0 : ℚ) < 2 ^ e := by positivity
      rw [zpow_add₀ two_ne_zero, zpow_natCast] at h
      have : (m : ℚ) = k * 2 ^ n := by
        apply mul_right_cancel₀ hpos.ne'
        rw [h]
        ring
      exact_mod_cast this
    have hbits : m.log2 - 52 ≤ n := by
      have hlt : m < 2 ^ (53 + n) := by
        rw [hmk, pow_add]
        gcongr
      have := (Nat.log2_lt hm.ne').mpr hlt
      omega
    exact dvd_trans (pow_dvd_pow 2 hbits) (Dvd.intro_left k hmk.symm)
  · obtain ⟨n, rfl⟩ := Int.le.dest hle
    have hmk : m * 2 ^ n = k := by
      have hpos : (0 : ℚ) < 2 ^ f := by positivity
      rw [zpow_add₀ two_ne_zero, zpow_natCast] at h
      have : (m : ℚ) * 2 ^ n = k := by
        apply mul_right_cancel₀ hpos.ne'
        rw [← h]
        ring
      exact_mod_cast this
    have hlt : m < 2 ^ 53 := lt_of_le_of_lt (Nat.le_mul_of_pos_right m (by positivity)) (hmk ▸ hk)
    have := (Nat.log2_lt hm.ne').mpr hlt
    rw [Short, Nat.sub_eq_zero_of_le (by omega)]
    exact one_dvd m

end SolarBill.Double
