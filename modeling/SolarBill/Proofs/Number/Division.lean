import SolarBill.Proofs.Number.Nearest

/-!
# Products and quotients of doubles

A product is computed in full and a quotient with bits to spare, and either is rounded once.  So
both are the nearest doubles to what they stand for, from zero to the infinities:

* `Rounded` — the parts of the double that a number rounds to;
* `roundWithAccuracy_rounded` — rounding a quotient of whole numbers;
* `rounded_mul`, `rounded_div` — products and quotients of doubles above zero.
-/

namespace SolarBill.Double

open Float.Model Float.Model.UnpackedFloat

variable {s : Sign} {n d : Nat} {e t : Int}

/-- The parts of the double that a number from zero on rounds to, with a sign. -/
inductive Rounded (s : Sign) (v : ℚ) : UnpackedFloat → Prop
  | zero {t : Int} (hnear : Nearest v 0 t) : Rounded s v (.zero s)
  | finite {m h : Nat} {e t : Int} {hm : 0 < m} (hnear : Nearest v h t) (hc : Canonical m e)
      (hfit : e ≤ 971) (hvalue : (m : ℚ) * 2 ^ e = h * 2 ^ t) : Rounded s v (.finite s m e hm)
  | infinity {h : Nat} {t : Int} (hnear : Nearest v h t)
      (hlarge : (2 : ℚ) ^ (1024 : Int) ≤ h * 2 ^ t) : Rounded s v (.infinity s)

/-- Packing the nearest units rounds: it overflows to infinity exactly when these are too large. -/
theorem Rounded.pack {v : ℚ} {m h : Nat} {hm : 0 < m} (hnear : Nearest v h t)
    (hc : Canonical m e) (hvalue : (m : ℚ) * 2 ^ e = h * 2 ^ t) :
    Rounded s v (Float.Model.pack (.finite s m e hm)).unpack := by
  rcases le_or_gt e 971 with hfit | hover
  · rw [unpack_pack hc hfit]
    exact .finite hnear hc hfit hvalue
  · rw [unpack_pack_overflow hc hover]
    refine .infinity hnear ?_
    rw [← hvalue, ← not_lt, ← hc.le_iff]
    omega

/-- Nothing rounds to nothing. -/
theorem nearest_zero : Nearest 0 0 (-1074) where
  least := le_refl _
  lt := by positivity
  normal := Or.inr rfl
  near := by
    rw [Nat.cast_zero, zero_mul, sub_zero, abs_zero, mul_zero]
    positivity
  even _ := Even.zero

/-! ### Quotients of whole numbers -/

/-- A quotient that has fifty-two bits before it is cut, or an exponent that is not above the least
one, is cut where a number of its size is rounded. -/
theorem quotient_bounds (hd : 0 < d) (hbits : 2 ^ 52 ≤ n / d ∨ e ≤ -1074)
    (ht : Format.binary64.targetExponent (totalExponent (n / d) e) = t) :
    e ≤ t ∧ -1074 ≤ t ∧ (n / d : ℚ) * 2 ^ e < 2 ^ (t + 53) ∧
      (2 ^ (t + 52) ≤ (n / d : ℚ) * 2 ^ e ∨ t = -1074) := by
  rw [targetExponent_eq] at ht
  have hunit : (0 : ℚ) < 2 ^ e := by positivity
  have hwhole : ((n / d : Nat) : ℚ) ≤ n / d := Nat.cast_div_le
  have hnext : (n / d : ℚ) < 2 ^ ((n / d).log2 + 1) := by
    rw [div_lt_iff₀ (by exact_mod_cast hd)]
    have hlt : n < 2 ^ ((n / d).log2 + 1) * d := by
      rw [← Nat.div_lt_iff_lt_mul hd]
      exact Nat.lt_log2_self
    exact_mod_cast hlt
  have hlog : 52 ≤ (n / d).log2 ∨ e ≤ -1074 := by
    rcases hbits with hbits | hbits
    · exact Or.inl ((Nat.le_log2 (by omega)).mpr hbits)
    · exact Or.inr hbits
  refine ⟨by omega, by omega, ?_, ?_⟩
  · calc (n / d : ℚ) * 2 ^ e < 2 ^ ((n / d).log2 + 1) * 2 ^ e := by gcongr
      _ = 2 ^ (((n / d).log2 + 1 : Nat) + e) := by rw [zpow_add₀ two_ne_zero, zpow_natCast]
      _ ≤ 2 ^ (t + 53) := zpow_le_zpow_right₀ one_le_two (by push_cast; omega)
  · by_cases hleast : t = -1074
    · exact Or.inr hleast
    · left
      have hpos : n / d ≠ 0 := by
        intro hzero
        rw [hzero, Nat.log2_zero] at ht
        omega
      have hself : (2 : ℚ) ^ (n / d).log2 ≤ (n / d : Nat) := by
        exact_mod_cast Nat.log2_self_le hpos
      calc (2 : ℚ) ^ (t + 52) = 2 ^ (((n / d).log2 : Int) + e) := by
            congr 1
            omega
        _ = 2 ^ (n / d).log2 * 2 ^ e := by rw [zpow_add₀ two_ne_zero, zpow_natCast]
        _ ≤ (n / d : ℚ) * 2 ^ e := by gcongr; exact hself.trans hwhole

/-- The whole number nearest to the quotient that is cut is the nearest multiple of the unit. -/
theorem nearest_of_quotient {k : Nat} (hd : 0 < d) (hleast : -1074 ≤ e + k)
    (hlt : (n / d : ℚ) * 2 ^ e < 2 ^ (e + k + 53))
    (hnormal : 2 ^ (e + k + 52) ≤ (n / d : ℚ) * 2 ^ e ∨ e + k = -1074) :
    Nearest (n / d * 2 ^ e) (nearestQuotient n (d * 2 ^ k)) (e + k) := by
  have hdpos : (0 : ℚ) < d := by exact_mod_cast hd
  have hunit : (0 : ℚ) < 2 ^ e / d := by positivity
  obtain ⟨hnear, heven⟩ := nearestQuotient_near n (show 0 < d * 2 ^ k by positivity)
  have hdistance : ∀ h : Nat, 2 * |(h : ℚ) * 2 ^ (e + k) - n / d * 2 ^ e| =
      ((2 * |(h : Int) * (d * 2 ^ k : Nat) - n| : Int) : ℚ) * (2 ^ e / d) := by
    intro h
    have hfactor : (h : ℚ) * 2 ^ (e + k) - n / d * 2 ^ e =
        (h * (d * 2 ^ k) - n) * (2 ^ e / d) := by
      rw [two_zpow_add]
      field_simp
    rw [hfactor, abs_mul, abs_of_pos hunit]
    push_cast
    ring
  have hpower : (2 : ℚ) ^ (e + k) = (((d * 2 ^ k : Nat) : Int) : ℚ) * (2 ^ e / d) := by
    rw [two_zpow_add]
    push_cast
    field_simp
  refine ⟨hleast, hlt, hnormal, ?_, ?_⟩
  · rw [hdistance, hpower]
    gcongr
  · intro htie
    rw [hdistance, hpower] at htie
    exact heven (by exact_mod_cast mul_right_cancel₀ hunit.ne' htie)

/-- The bounds on the number are bounds on the mantissa that is left of it. -/
theorem cut_bounds {k : Nat} (hd : 0 < d) (hlt : (n / d : ℚ) * 2 ^ e < 2 ^ (e + k + 53))
    (hnormal : 2 ^ (e + k + 52) ≤ (n / d : ℚ) * 2 ^ e ∨ e + k = -1074) :
    n / (d * 2 ^ k) < 2 ^ 53 ∧ (2 ^ 52 ≤ n / (d * 2 ^ k) ∨ e + k = -1074) := by
  have hcut : (n / (d * 2 ^ k : Nat) : ℚ) * 2 ^ (e + k) = n / d * 2 ^ e := by
    rw [two_zpow_add]
    push_cast
    field_simp
  have hhigh : (2 : ℚ) ^ (e + k + 53) = 2 ^ 53 * 2 ^ (e + k) := two_zpow_add (e + k) 53
  have hlow : (2 : ℚ) ^ (e + k + 52) = 2 ^ 52 * 2 ^ (e + k) := two_zpow_add (e + k) 52
  rw [← hcut, hhigh, mul_lt_mul_iff_left₀ (by positivity)] at hlt
  rw [← hcut, hlow, mul_le_mul_iff_left₀ (by positivity), le_div_iff₀ (by positivity)] at hnormal
  constructor
  · have hwhole : ((n / (d * 2 ^ k) : Nat) : ℚ) ≤ n / (d * 2 ^ k : Nat) := Nat.cast_div_le
    exact_mod_cast hwhole.trans_lt hlt
  · refine hnormal.imp_left fun hnormal => ?_
    rw [Nat.le_div_iff_mul_le (by positivity)]
    exact_mod_cast hnormal

/-- **Rounding a quotient** gives the nearest double. -/
theorem roundWithAccuracy_rounded (hd : 0 < d) (hbits : 2 ^ 52 ≤ n / d ∨ e ≤ -1074) :
    Rounded s (n / d * 2 ^ e) (Float.Model.pack (roundWithAccuracy Format.binary64 s (n / d) e
      (accuracyOfFraction (n % d) d))).unpack := by
  obtain ⟨hle, hleast, hlt, hnormal⟩ := quotient_bounds hd hbits rfl
  obtain ⟨k, hk⟩ := Int.le.dest hle
  rw [← hk] at hleast hlt hnormal
  have hnear := nearest_of_quotient hd hleast hlt hnormal
  obtain ⟨hhigh, hlow⟩ := cut_bounds hd hlt hnormal
  have hshift : shiftToTargetExponent Format.binary64 (n / d) e (accuracyOfFraction (n % d) d) =
      (extended n (d * 2 ^ k), e + k) := by
    have hamount : (e + k - e).toNat = k := by omega
    simp only [shiftToTargetExponent, shiftToExponent, ← hk, hamount,
      ofMantissaAndAccuracy_fraction hd, shiftRight_extended hd]
  have hrounded := roundedMantissa_extended (n := n) (show 0 < d * 2 ^ k by positivity)
  rcases Nat.eq_zero_or_pos (nearestQuotient n (d * 2 ^ k)) with hzero | hpos
  · have hround : roundWithAccuracy Format.binary64 s (n / d) e (accuracyOfFraction (n % d) d) =
        .zero s := by
      simp only [roundWithAccuracy, hshift, hrounded, hzero,
        shiftToTarget_of_lt (show 0 < 2 ^ 53 by norm_num) hleast]
      rfl
    rw [hzero] at hnear
    rw [hround, unpack_pack_zero]
    exact .zero hnear
  · obtain ⟨m, f, hm, hround, hc, hvalue⟩ :=
      roundWithAccuracy_of_shift (s := s) hshift (hrounded ▸ hpos) hhigh hleast hlow
    rw [hround]
    exact .pack hnear hc (hrounded ▸ hvalue)

/-! ### Doubles above zero -/

/-- The parts of a product. -/
theorem parts_mul (x y : Float) :
    parts (x * y) =
      (Float.Model.pack (UnpackedFloat.mul Format.binary64 (parts x) (parts y))).unpack :=
  rfl

/-- The parts of a quotient. -/
theorem parts_div (x y : Float) :
    parts (x / y) =
      (Float.Model.pack (UnpackedFloat.div Format.binary64 (parts x) (parts y))).unpack :=
  rfl

variable {m₁ m₂ : Nat} {e₁ e₂ : Int} {h₁ : 0 < m₁} {h₂ : 0 < m₂}

/-- A product with fifty-two bits, or with an exponent that is not above the least one. -/
theorem mul_rounded (hbits : 2 ^ 52 ≤ m₁ * m₂ ∨ e₁ + e₂ ≤ -1074) :
    Rounded .positive ((m₁ * 2 ^ e₁) * (m₂ * 2 ^ e₂))
      (Float.Model.pack (UnpackedFloat.mul Format.binary64 (.finite .positive m₁ e₁ h₁)
        (.finite .positive m₂ e₂ h₂))).unpack := by
  have hexact := roundWithAccuracy_rounded (s := .positive) (n := m₁ * m₂) (d := 1) (e := e₁ + e₂)
    one_pos (by rwa [Nat.div_one])
  rw [Nat.div_one, Nat.mod_one] at hexact
  have hvalue : (m₁ * 2 ^ e₁ : ℚ) * (m₂ * 2 ^ e₂) =
      (m₁ * m₂ : Nat) / (1 : Nat) * 2 ^ (e₁ + e₂) := by
    rw [zpow_add₀ two_ne_zero]
    push_cast
    ring
  rw [hvalue]
  exact hexact

/-- The quotient is computed with bits to spare, unless it is too small for them. -/
theorem div_rounded :
    Rounded .positive ((m₁ * 2 ^ e₁) / (m₂ * 2 ^ e₂))
      (Float.Model.pack (UnpackedFloat.div Format.binary64 (.finite .positive m₁ e₁ h₁)
        (.finite .positive m₂ e₂ h₂))).unpack := by
  obtain ⟨t, ht⟩ : ∃ t, min (e₁ - e₂) (Format.binary64.targetExponent
      (totalExponent m₁ e₁ - totalExponent m₂ e₂)) = t := ⟨_, rfl⟩
  obtain ⟨k, hk⟩ : ∃ k : Nat, e₁ - e₂ = t + k := ⟨(e₁ - e₂ - t).toNat, by omega⟩
  have hamount : (e₁ - e₂ - t).toNat = k := by omega
  have hmin : Format.binary64.minExponent = -1074 := rfl
  have hmantissa : (Format.binary64.mantissaBits : Int) = 53 := rfl
  rw [Format.targetExponent, totalExponent, totalExponent, hmin, hmantissa] at ht
  have hbits : 2 ^ 52 ≤ m₁ * 2 ^ k / m₂ ∨ t ≤ -1074 := by
    by_cases hsmall : t ≤ -1074
    · exact Or.inr hsmall
    · left
      have hself := Nat.log2_self_le h₁.ne'
      have hnext := Nat.lt_log2_self (n := m₂)
      rw [Nat.le_div_iff_mul_le h₂]
      calc 2 ^ 52 * m₂ ≤ 2 ^ 52 * 2 ^ (m₂.log2 + 1) := by gcongr
        _ = 2 ^ (52 + (m₂.log2 + 1)) := (pow_add _ _ _).symm
        _ ≤ 2 ^ (m₁.log2 + k) := Nat.pow_le_pow_right (by norm_num) (by omega)
        _ = 2 ^ m₁.log2 * 2 ^ k := pow_add _ _ _
        _ ≤ m₁ * 2 ^ k := by gcongr
  have hquotient := roundWithAccuracy_rounded (s := .positive) h₂ hbits
  have hvalue : (m₁ * 2 ^ e₁ : ℚ) / (m₂ * 2 ^ e₂) = (m₁ * 2 ^ k : Nat) / m₂ * 2 ^ t := by
    have hsplit : (2 : ℚ) ^ e₁ = 2 ^ k * 2 ^ t * 2 ^ e₂ := by
      rw [show e₁ = t + k + e₂ by omega, zpow_add₀ two_ne_zero, two_zpow_add]
    have hpos : (0 : ℚ) < m₂ := by exact_mod_cast h₂
    rw [hsplit]
    push_cast
    field_simp
  rw [hvalue]
  have hcore : divCore Format.binary64 m₁ e₁ m₂ e₂ =
      (m₁ * 2 ^ k / m₂, t, accuracyOfFraction (m₁ * 2 ^ k % m₂) m₂) := by
    simp only [divCore, Format.targetExponent, totalExponent, hmin, hmantissa, ht, hamount,
      Nat.shiftLeft_eq]
  rw [UnpackedFloat.div, hcore]
  exact hquotient

/-- A product of two mantissas has bits enough, or its exponent is below the least one. -/
theorem Canonical.mul_bits (hc₁ : Canonical m₁ e₁) (hc₂ : Canonical m₂ e₂) :
    2 ^ 52 ≤ m₁ * m₂ ∨ e₁ + e₂ ≤ -1074 := by
  rcases hc₁.normal with hnormal | hleast
  · exact Or.inl (hnormal.trans (Nat.le_mul_of_pos_right m₁ hc₂.pos))
  · rcases hc₂.normal with hnormal | hleast'
    · exact Or.inl (hnormal.trans (Nat.le_mul_of_pos_left m₂ hc₁.pos))
    · exact Or.inr (by omega)

variable {x y : Float}

/-- **A product is rounded once.** -/
theorem rounded_mul (hx : x.isFinite) (hy : y.isFinite) (hxpos : 0 < value x)
    (hypos : 0 < value y) : Rounded .positive (value x * value y) (parts (x * y)) := by
  obtain ⟨m₁, e₁, h₁, hxp, hxc, -, hxv⟩ := canonical_of_pos hx hxpos
  obtain ⟨m₂, e₂, h₂, hyp, hyc, -, hyv⟩ := canonical_of_pos hy hypos
  rw [parts_mul, hxp, hyp, hxv, hyv]
  exact mul_rounded (hxc.mul_bits hyc)

/-- **A quotient is rounded once.** -/
theorem rounded_div (hx : x.isFinite) (hy : y.isFinite) (hxpos : 0 < value x)
    (hypos : 0 < value y) : Rounded .positive (value x / value y) (parts (x / y)) := by
  obtain ⟨m₁, e₁, h₁, hxp, -, -, hxv⟩ := canonical_of_pos hx hxpos
  obtain ⟨m₂, e₂, h₂, hyp, -, -, hyv⟩ := canonical_of_pos hy hypos
  rw [parts_div, hxp, hyp, hxv, hyv]
  exact div_rounded

end SolarBill.Double
