import SolarBill.Proofs.Number.Rounding

/-!
# What is left of a quotient

A quotient of two natural numbers is rounded to a whole number from its whole part and two bits:
whether at least a half is left, and whether anything is left besides.  Halving a quotient is
doubling its denominator, so the bits of a quotient that is cut at any place are again those of a
quotient:

* `shiftRight_extended` — cutting `k` bits off multiplies the denominator by `2 ^ k`;
* `roundedMantissa_extended`, `nearestQuotient_near` — what the two bits decide is the nearest whole
  number, and the even one of two.
-/

namespace SolarBill.Double

open Float.Model Float.Model.UnpackedFloat

variable {n d : Nat}

/-- A quotient as its whole part and the two bits for what is left. -/
def extended (n d : Nat) : ExtendedMantissa :=
  ⟨n / d, decide (d ≤ 2 * (n % d)), 2 * (n % d) % d != 0⟩

/-- The whole number that is nearest to a quotient, the even one of two. -/
def nearestQuotient (n d : Nat) : Nat :=
  if 2 * (n % d) < d then n / d
  else if 2 * (n % d) = d then n / d + n / d % 2
  else n / d + 1

/-- A quotient by one leaves nothing. -/
theorem extended_one (m : Nat) : extended m 1 = ⟨m, false, false⟩ := by
  simp [extended, Nat.mod_one]

/-- Twice a small remainder is less than the divisor. -/
theorem twice_mod_of_lt (h : 2 * (n % d) < d) : 2 * (n % d) % d = 2 * (n % d) :=
  Nat.mod_eq_of_lt h

/-- Twice a large one exceeds it by less than the divisor. -/
theorem twice_mod_of_le (hd : 0 < d) (h : d ≤ 2 * (n % d)) : 2 * (n % d) % d = 2 * (n % d) - d := by
  have hlt := Nat.mod_lt n hd
  rw [Nat.mod_eq_sub_mod h, Nat.mod_eq_of_lt (by omega)]

/-- A division gives the whole part and compares what is left with a half. -/
theorem ofMantissaAndAccuracy_fraction (hd : 0 < d) :
    ExtendedMantissa.ofMantissaAndAccuracy (n / d) (accuracyOfFraction (n % d) d) =
      extended n d := by
  rcases Nat.eq_zero_or_pos (n % d) with hzero | hpos
  · simp [accuracyOfFraction, ExtendedMantissa.ofMantissaAndAccuracy, extended, hzero, hd.ne']
  · rw [accuracyOfFraction, if_neg hpos.ne', extended]
    rcases lt_trichotomy (2 * (n % d)) d with hless | hhalf | hmore
    · have hrest : 2 * (n % d) ≠ 0 := by omega
      rw [Nat.compare_eq_lt.mpr hless, twice_mod_of_lt hless, decide_eq_false (by omega),
        bne_iff_ne.mpr hrest]
      rfl
    · have hrest : 2 * (n % d) % d = 0 := by rw [hhalf, Nat.mod_self]
      rw [Nat.compare_eq_eq.mpr hhalf, hrest, decide_eq_true hhalf.ge]
      rfl
    · have hrest : 2 * (n % d) - d ≠ 0 := by omega
      rw [Nat.compare_eq_gt.mpr hmore, twice_mod_of_le hd hmore.le, decide_eq_true hmore.le,
        bne_iff_ne.mpr hrest]
      rfl

/-- Shifting a quotient right divides by two. -/
theorem shiftRightOne_extended (hd : 0 < d) :
    (extended n d).shiftRightOne = extended n (d * 2) := by
  have hlt := Nat.mod_lt n hd
  have hmod : n % (d * 2) = n % d + d * (n / d % 2) := Nat.mod_mul
  have hround : (n / d % 2 != 0) = decide (d * 2 ≤ 2 * (n % (d * 2))) := by
    rw [hmod]
    rcases Nat.mod_two_eq_zero_or_one (n / d) with hbit | hbit <;> rw [hbit]
    · rw [mul_zero, add_zero, decide_eq_false (by omega)]
      rfl
    · rw [mul_one, decide_eq_true (by omega)]
      rfl
  have hsticky : (decide (d ≤ 2 * (n % d)) || 2 * (n % d) % d != 0) =
      (2 * (n % (d * 2)) % (d * 2) != 0) := by
    have hdouble : 2 * (n % (d * 2)) % (d * 2) = 2 * (n % d) := by
      have hsplit : 2 * (n % (d * 2)) = 2 * (n % d) + d * 2 * (n / d % 2) := by
        rw [hmod]
        ring
      rw [hsplit, Nat.add_mul_mod_self_left, Nat.mod_eq_of_lt (by omega)]
    rw [hdouble]
    rcases Nat.lt_or_ge (2 * (n % d)) d with hless | hmore
    · rw [decide_eq_false (by omega), Bool.false_or, twice_mod_of_lt hless]
    · have hrest : 2 * (n % d) ≠ 0 := by omega
      rw [decide_eq_true hmore, Bool.true_or, bne_iff_ne.mpr hrest]
  simp only [ExtendedMantissa.shiftRightOne, extended, hround, hsticky, Nat.div_div_eq_div_mul]

/-- Cutting bits off multiplies the denominator. -/
theorem shiftRight_extended (hd : 0 < d) (k : Nat) :
    extended n d >>> k = extended n (d * 2 ^ k) := by
  induction k with
  | zero => rw [pow_zero, mul_one]; rfl
  | succ k ih =>
      change (extended n d >>> k).shiftRightOne = _
      rw [ih, shiftRightOne_extended (by positivity), pow_succ, mul_assoc]

/-- The two bits decide as the whole rest would. -/
theorem roundedMantissa_extended (hd : 0 < d) :
    (extended n d).roundedMantissa = nearestQuotient n d := by
  rw [extended, nearestQuotient]
  split_ifs with hless hhalf
  · rw [decide_eq_false (by omega), twice_mod_of_lt hless]
    cases 2 * (n % d) != 0 <;> rfl
  · rw [decide_eq_true hhalf.ge, hhalf, Nat.mod_self]
    rfl
  · have hrest : 2 * (n % d) - d ≠ 0 := by omega
    rw [decide_eq_true (by omega), twice_mod_of_le hd (by omega), bne_iff_ne.mpr hrest]
    rfl

/-- It is at most a half away, and even if it is a half away. -/
theorem nearestQuotient_near (n : Nat) (hd : 0 < d) :
    2 * |(nearestQuotient n d : Int) * d - n| ≤ d ∧
      (2 * |(nearestQuotient n d : Int) * d - n| = d → Even (nearestQuotient n d)) := by
  have hsplit : (n : Int) = (n / d : Nat) * d + (n % d : Nat) := by
    exact_mod_cast (Nat.div_add_mod' n d).symm
  have hrest : ((n % d : Nat) : Int) < d := by
    exact_mod_cast Nat.mod_lt n hd
  have hdown : ((n / d : Nat) : Int) * d - n = -(n % d : Nat) := by
    linarith
  have hup : ((n / d + 1 : Nat) : Int) * d - n = d - (n % d : Nat) := by
    push_cast at hsplit ⊢
    linarith
  unfold nearestQuotient
  split_ifs with hless hhalf
  · have hless : 2 * ((n % d : Nat) : Int) < d := by exact_mod_cast hless
    rw [hdown, abs_neg, Nat.abs_cast]
    exact ⟨hless.le, fun htie => absurd htie hless.ne⟩
  · have hhalf : 2 * ((n % d : Nat) : Int) = d := by exact_mod_cast hhalf
    rcases Nat.mod_two_eq_zero_or_one (n / d) with heven | hodd
    · rw [heven, add_zero, hdown, abs_neg, Nat.abs_cast]
      exact ⟨hhalf.le, fun _ => Nat.even_iff.mpr heven⟩
    · rw [hodd, hup, abs_of_nonneg (by linarith)]
      exact ⟨by linarith, fun _ => Nat.even_iff.mpr (by omega)⟩
  · have hmore : (d : Int) < 2 * ((n % d : Nat) : Int) := by
      have : d < 2 * (n % d) := by omega
      exact_mod_cast this
    rw [hup, abs_of_nonneg (by linarith)]
    exact ⟨by linarith, fun htie => absurd htie (by linarith)⟩

end SolarBill.Double
