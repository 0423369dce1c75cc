import SolarBill.Proofs.Number.Division
import SolarBill.Proofs.Number.Integer

/-!
# The double closest to a number

Rounding works on mantissas and units; what it is for is said without them.  The double nearest to
a number has its sign, no finite double is closer, and of two that are equally close it is the one
with the even fraction.  Beyond the middle between the greatest double and `2 ^ 1024` it is an
infinity.

* `Nearest.closest_representable` — the nearest multiple of the unit is the closest of all values
  that a double can have, and what is as close is an odd multiple;
* `Nearest.lt_iff` — where rounding leaves the finite doubles;
* `NearestDouble`, `existsUnique_nearestDouble` — the double nearest to a number: there is one;
* `Rounded.nearestDouble` — rounding gives it.
-/

namespace SolarBill.Double

open Float.Model Float.Model.UnpackedFloat

/-! ### Closeness -/

namespace Nearest

variable {v q : ℚ} {h k : Nat} {t f : Int}

/-- Two multiples of a unit are a unit apart. -/
theorem units_apart {k : Nat} (hk : k ≠ h) (t : Int) :
    (2 : ℚ) ^ t ≤ |(k : ℚ) * 2 ^ t - h * 2 ^ t| := by
  have hunit : (0 : ℚ) < 2 ^ t := by positivity
  have hstep : (1 : ℚ) ≤ |(k : ℚ) - h| := by
    have hne : (k : Int) - h ≠ 0 := by omega
    exact_mod_cast Int.one_le_abs hne
  rw [← sub_mul, abs_mul, abs_of_pos hunit]
  exact le_mul_of_one_le_left hunit.le hstep

/-- No other multiple of the unit is closer. -/
theorem closest_units (hv : Nearest v h t) (k : Nat) :
    |(h : ℚ) * 2 ^ t - v| ≤ |(k : ℚ) * 2 ^ t - v| := by
  by_cases hk : k = h
  · rw [hk]
  · have hapart := units_apart hk t
    have htriangle := abs_sub_le ((k : ℚ) * 2 ^ t) v (h * 2 ^ t)
    rw [abs_sub_comm v] at htriangle
    have hnear := hv.near
    linarith

/-- If another one is as close, the number lies in the middle between two neighbours, and the
nearest is the even one. -/
theorem neighbours_of_tie (hv : Nearest v h t) (hk : k ≠ h)
    (htie : |(h : ℚ) * 2 ^ t - v| = |(k : ℚ) * 2 ^ t - v|) : Even h ∧ Odd k := by
  have hunit : (0 : ℚ) < 2 ^ t := by positivity
  have hapart := units_apart hk t
  have htriangle := abs_sub_le ((k : ℚ) * 2 ^ t) v (h * 2 ^ t)
  rw [abs_sub_comm v] at htriangle
  have hnear := hv.near
  have heven : Even h := hv.even (by linarith)
  have hstep : |(k : ℚ) - h| ≤ 1 := by
    have hle : |(k : ℚ) * 2 ^ t - h * 2 ^ t| ≤ 1 * 2 ^ t := by linarith
    rwa [← sub_mul, abs_mul, abs_of_pos hunit, mul_le_mul_iff_left₀ hunit] at hle
  have hnext : |(k : Int) - h| ≤ 1 := by exact_mod_cast hstep
  refine ⟨heven, ?_⟩
  rw [abs_le] at hnext
  rw [Nat.even_iff] at heven
  rw [Nat.odd_iff]
  omega

/-- No number of fifty-three bits is closer, and one that is as close is a multiple of the unit. -/
theorem closest (hv : Nearest v h t) (hk : k ≤ 2 ^ 53) (hf : -1074 ≤ f) :
    |(h : ℚ) * 2 ^ t - v| ≤ |(k : ℚ) * 2 ^ f - v| ∧
      (|(h : ℚ) * 2 ^ t - v| = |(k : ℚ) * 2 ^ f - v| →
        ∃ n : Nat, (k : ℚ) * 2 ^ f = n * 2 ^ t) := by
  rcases le_or_gt t f with htf | hft
  · obtain ⟨n, rfl⟩ := Int.le.dest htf
    rw [units_add]
    exact ⟨hv.closest_units (k * 2 ^ n), fun _ => ⟨_, rfl⟩⟩
  · -- The power of two with fifty-three bits at the unit lies between the two numbers.
    have hnormal : (2 : ℚ) ^ (t + 52) ≤ v := hv.normal.resolve_right (by omega)
    have hsmall := units_le_of_lt hk hft
    rw [zpow_add_eq_units] at hnormal hsmall
    have hle := hv.closest_units (2 ^ 52)
    have hpower : |((2 ^ 52 : Nat) : ℚ) * 2 ^ t - v| = v - (2 ^ 52 : Nat) * 2 ^ t := by
      rw [abs_sub_comm, abs_of_nonneg (by linarith)]
    have hother : |(k : ℚ) * 2 ^ f - v| = v - k * 2 ^ f := by
      rw [abs_sub_comm, abs_of_nonneg (by linarith)]
    rw [hother]
    rw [hpower] at hle
    exact ⟨by linarith, fun htie => ⟨2 ^ 52, by linarith⟩⟩

/-- No value of a double is closer, below zero also, and another one that is as close is an odd
multiple of the unit, while the nearest is an even one. -/
theorem closest_representable (hv : Nearest v h t) (hpos : 0 ≤ v) (hq : Representable q) :
    |(h : ℚ) * 2 ^ t - v| ≤ |q - v| ∧
      (q ≠ h * 2 ^ t → |(h : ℚ) * 2 ^ t - v| = |q - v| →
        Even h ∧ ∃ n, Odd n ∧ q = (n : Nat) * 2 ^ t) := by
  obtain ⟨k, f, hk, hf, -, habs⟩ := hq
  rcases le_or_gt 0 q with hq | hq
  · rw [abs_of_nonneg hq] at habs
    rw [habs]
    obtain ⟨hle, hunits⟩ := hv.closest hk.le hf
    refine ⟨hle, fun hne htie => ?_⟩
    obtain ⟨n, hn⟩ := hunits htie
    rw [hn] at hne htie ⊢
    obtain ⟨heven, hodd⟩ := hv.neighbours_of_tie (fun heq => hne (by rw [heq])) htie
    exact ⟨heven, n, hodd, rfl⟩
  · -- Zero is closer than what is below it.
    have hzero := hv.closest_units 0
    rw [Nat.cast_zero, zero_mul, zero_sub, abs_neg, abs_of_nonneg hpos] at hzero
    have hfar : |q - v| = v - q := by
      rw [abs_sub_comm, abs_of_pos (by linarith)]
    rw [hfar]
    exact ⟨by linarith, fun _ htie => absurd htie (by linarith : _ < v - q).ne⟩

/-- Multiples of the unit that are as close have fifty-three bits at it, if that is not the least
unit. -/
theorem normal_of_tie (hv : Nearest v h t) (htie : |(h : ℚ) * 2 ^ t - v| = |(k : ℚ) * 2 ^ t - v|) :
    2 ^ 52 ≤ k ∨ t = -1074 := by
  refine hv.normal.imp_left fun hnormal => ?_
  have hunit : (0 : ℚ) < 2 ^ t := by positivity
  have hnear := hv.near
  have hbelow := neg_abs_le ((k : ℚ) * 2 ^ t - v)
  rw [zpow_add_eq_units, Nat.cast_pow, Nat.cast_ofNat] at hnormal
  have hhalf : ((2 : ℚ) ^ 53 - 1) * 2 ^ t ≤ 2 * k * 2 ^ t := by linarith
  have hcast : (2 : ℚ) ^ 53 - 1 ≤ 2 * k := le_of_mul_le_mul_right hhalf hunit
  have hint : (2 : Int) ^ 53 - 1 ≤ 2 * k := by exact_mod_cast hcast
  omega

/-- A number rounds to 2 ^ 53 of its units at most. -/
theorem le_bits (hv : Nearest v h t) : h ≤ 2 ^ 53 := by
  have hpower : (2 : ℚ) ^ (t + 53) = (2 ^ 53 : Nat) * 2 ^ t := by
    rw [Nat.cast_pow, Nat.cast_ofNat]
    exact two_zpow_add t 53
  exact hv.le_units (hpower ▸ hv.lt.le)

/-- At a unit above that of the greatest double, rounding leaves the finite doubles. -/
theorem large_of_unit (hv : Nearest v h t) (ht : 971 < t) :
    (2 : ℚ) ^ (1024 : Int) ≤ v ∧ (2 : ℚ) ^ (1024 : Int) ≤ h * 2 ^ t := by
  have hnormal : (2 : ℚ) ^ (t + 52) ≤ v := hv.normal.resolve_right (by omega)
  have hpower : (2 : ℚ) ^ (1024 : Int) ≤ 2 ^ (t + 52) := zpow_le_zpow_right₀ one_le_two (by omega)
  rw [zpow_add_eq_units] at hnormal hpower
  have hunits := hv.ge_units hnormal
  exact ⟨hpower.trans hnormal, hpower.trans (by gcongr)⟩

/-- At the unit of the greatest double, `2 * u`, the limit is half a unit below the power of two:
this double has an odd mantissa. -/
theorem lt_iff_top {u : ℚ} (hu : 0 < u) (hnear : 2 * |(h : ℚ) * (2 * u) - v| ≤ 2 * u)
    (heven : 2 * |(h : ℚ) * (2 * u) - v| = 2 * u → Even h) :
    (h : ℚ) * (2 * u) < 2 ^ 54 * u ↔ v < 2 ^ 54 * u - u := by
  constructor
  · intro hlt
    by_contra hge
    have hless : (h : ℚ) < 2 ^ 53 := by nlinarith
    have hnext : (h : ℚ) + 1 ≤ 2 ^ 53 := by exact_mod_cast hless
    have hunits : ((h : ℚ) + 1) * (2 * u) ≤ 2 ^ 53 * (2 * u) := by gcongr
    have hbelow := neg_abs_le ((h : ℚ) * (2 * u) - v)
    have hgreatest : (2 : ℚ) ^ 53 ≤ h + 1 := by nlinarith
    have hodd : h = 2 ^ 53 - 1 := by
      have hless : h < 2 ^ 53 := by exact_mod_cast hless
      have hgreatest : 2 ^ 53 ≤ h + 1 := by exact_mod_cast hgreatest
      omega
    have htie : Even h := heven (by linarith)
    rw [hodd] at htie
    exact absurd htie (by decide)
  · intro hlt
    have habove := le_abs_self ((h : ℚ) * (2 * u) - v)
    linarith

/-- Rounding stays below `2 ^ 1024` up to the middle between that and the greatest double. -/
theorem lt_iff (hv : Nearest v h t) :
    (h : ℚ) * 2 ^ t < 2 ^ (1024 : Int) ↔ v < 2 ^ (1024 : Int) - 2 ^ (970 : Int) := by
  have hunit : (0 : ℚ) < 2 ^ (970 : Int) := by positivity
  have hlimit : (2 : ℚ) ^ (1024 : Int) = 2 ^ 54 * 2 ^ (970 : Int) := two_zpow_add 970 54
  rcases lt_trichotomy t 971 with hlt | rfl | hgt
  · -- Numbers with a smaller unit are far below.
    have hpower : (2 : ℚ) ^ (t + 53) ≤ 2 ^ 53 * 2 ^ (970 : Int) :=
      (zpow_le_zpow_right₀ one_le_two (by omega)).trans_eq (two_zpow_add 970 53)
    have hsmall : (h : ℚ) * 2 ^ t ≤ 2 ^ (t + 53) := by
      have hbits : (h : ℚ) ≤ 2 ^ 53 := by exact_mod_cast hv.le_bits
      calc (h : ℚ) * 2 ^ t ≤ 2 ^ 53 * 2 ^ t := by gcongr
        _ = 2 ^ (t + 53) := (two_zpow_add t 53).symm
    have hvlt := hv.lt
    rw [hlimit]
    generalize (2 : ℚ) ^ (970 : Int) = u at *
    exact iff_of_true (by linarith only [hsmall, hpower, hunit])
      (by linarith only [hvlt, hpower, hunit])
  · have htop : (2 : ℚ) ^ (971 : Int) = 2 * 2 ^ (970 : Int) := two_zpow_add 970 1
    have hnear := hv.near
    have heven := hv.even
    rw [htop] at hnear heven ⊢
    rw [hlimit]
    exact lt_iff_top hunit hnear heven
  · obtain ⟨hvlarge, hlarge⟩ := hv.large_of_unit hgt
    exact iff_of_false (not_lt.mpr hlarge) (not_lt.mpr ((sub_le_self _ hunit.le).trans hvlarge))

end Nearest

/-! ### Fields of a double -/

variable {x : Float} {s : Sign} {v : ℚ} {m h : Nat} {e t : Int} {hm : 0 < m}

/-- There are two signs. -/
theorem positive_ne_negative : Sign.positive ≠ .negative := by
  intro h
  cases h

/-- The sign bit of a finite number is its sign. -/
theorem isNegative_of_finite (hx : parts x = .finite s m e hm) :
    isNegative x = true ↔ s = .negative := by
  obtain ⟨hc, he⟩ := canonical_of_unpack hx
  have hlt := hc.lt
  rw [isNegative, decide_eq_true_eq, toNat_toBits hx]
  cases s with
  | positive =>
      rw [show Sign.positive.toBitVec.toNat = 0 from rfl]
      exact iff_of_false (by omega) positive_ne_negative
  | negative =>
      rw [show Sign.negative.toBitVec.toNat = 1 from rfl]
      exact iff_of_true (by omega) rfl

/-- The stored fraction of a finite number is even when its mantissa is. -/
theorem even_fraction_iff (hx : parts x = .finite s m e hm) : Even (fraction x) ↔ Even m := by
  rw [Nat.even_iff, Nat.even_iff, fraction, toNat_toBits hx]
  omega

/-- The sign bit of a zero is its sign. -/
theorem isNegative_of_zero (hx : parts x = .zero s) : isNegative x = true ↔ s = .negative := by
  cases s with
  | positive =>
      obtain rfl : x = 0.0 := parts_injective hx
      exact iff_of_false (by decide) positive_ne_negative
  | negative =>
      obtain rfl : x = -0.0 := parts_injective hx
      exact iff_of_true (by decide) rfl

/-- The fraction of a zero is even. -/
theorem even_fraction_of_zero (hx : parts x = .zero s) : Even (fraction x) := by
  cases s with
  | positive =>
      obtain rfl : x = 0.0 := parts_injective hx
      decide
  | negative =>
      obtain rfl : x = -0.0 := parts_injective hx
      decide

/-- The sign bit of an infinity is its sign. -/
theorem isNegative_of_infinity (hx : parts x = .infinity s) :
    isNegative x = true ↔ s = .negative := by
  cases s with
  | positive =>
      obtain rfl : x = 1.0 / 0.0 := parts_injective hx
      exact iff_of_false (by decide) positive_ne_negative
  | negative =>
      obtain rfl : x = -1.0 / 0.0 := parts_injective hx
      exact iff_of_true (by decide) rfl

/-! ### The nearest double -/

/-- A number from zero on, with a sign in front. -/
def signed (negative : Bool) (v : ℚ) : ℚ :=
  if negative then -v else v

/-- The double nearest to `v` or `-v`.  A zero keeps the sign of what it stands for. -/
structure NearestDouble (negative : Bool) (v : ℚ) (x : Float) : Prop where
  number : ¬ x.isNaN
  sign : isNegative x = negative
  finite_iff : x.isFinite = true ↔ v < 2 ^ (1024 : Int) - 2 ^ (970 : Int)
  closest : x.isFinite → ∀ y : Float, y.isFinite →
    |value x - signed negative v| ≤ |value y - signed negative v|
  even : x.isFinite → ∀ y : Float, y.isFinite → value y ≠ value x →
    |value x - signed negative v| = |value y - signed negative v| → Even (fraction x)

/-- The distance to a signed number is that of the other number with the sign. -/
theorem abs_sub_signed (negative : Bool) (a v : ℚ) :
    |a - signed negative v| = |signed negative a - v| := by
  cases negative with
  | false => rfl
  | true =>
      change |a - -v| = |-a - v|
      rw [← abs_neg, neg_sub, sub_eq_add_neg, add_comm, ← sub_eq_add_neg]

/-- Two signs cancel out. -/
theorem signed_signed (negative : Bool) (v : ℚ) : signed negative (signed negative v) = v := by
  cases negative with
  | false => rfl
  | true => exact neg_neg v

/-- A sign does not change the absolute value. -/
theorem abs_signed (negative : Bool) (q : ℚ) : |signed negative q| = |q| := by
  cases negative with
  | false => rfl
  | true => exact abs_neg q

/-- A double stands for the negated number too. -/
theorem Representable.signed {q : ℚ} (hq : Representable q) (negative : Bool) :
    Representable (signed negative q) := by
  cases negative with
  | false => exact hq
  | true =>
      obtain ⟨k, f, hk, hleast, hgreatest, habs⟩ := hq
      exact ⟨k, f, hk, hleast, hgreatest, (abs_signed true q).trans habs⟩

/-- The sign of the parts of a double. -/
def signOf (negative : Bool) : Sign :=
  if negative then .negative else .positive

/-- A sign is negative when it is said to be. -/
theorem signOf_eq_negative_iff {negative : Bool} :
    signOf negative = .negative ↔ negative = true := by
  cases negative <;> simp [signOf]

/-- Two signs are the same if both are negative or neither is. -/
theorem eq_signOf {s : Sign} {negative : Bool} (h : negative = true ↔ s = .negative) :
    s = signOf negative := by
  cases negative with
  | true => exact h.mp rfl
  | false =>
      cases s with
      | positive => rfl
      | negative => exact absurd (h.mpr rfl) Bool.false_ne_true

/-- A signed mantissa stands for the signed number. -/
theorem apply_signOf (negative : Bool) (m : Nat) (e : Int) :
    ((signOf negative).apply m : ℚ) * 2 ^ e = signed negative (m * 2 ^ e) := by
  cases negative with
  | false => simp [signOf, signed, Sign.apply]
  | true => simp [signOf, signed, Sign.apply]

/-! ### Rounding gives the nearest double -/

/-- A number of units of a larger power of two is a multiple of that number of the smaller ones. -/
theorem units_of_eq {a b k : Nat} {f : Int} (h : (a : ℚ) * 2 ^ (f + k) = b * 2 ^ f) :
    b = a * 2 ^ k := by
  have hunit : (2 : ℚ) ^ f ≠ 0 := by positivity
  rw [two_zpow_add, ← mul_assoc] at h
  exact_mod_cast (mul_right_cancel₀ hunit h).symm

/-- Canonical parts of an even number of units are even: the mantissa is this number, a multiple
of it, or half of it where rounding carried over. -/
theorem Canonical.even_of_units (hc : Canonical m e) (hbits : h ≤ 2 ^ 53) (ht : -1074 ≤ t)
    (hvalue : (m : ℚ) * 2 ^ e = h * 2 ^ t) (heven : Even h) : Even m := by
  rcases le_or_gt e t with hle | hgt
  · obtain ⟨k, rfl⟩ := Int.le.dest hle
    rw [units_of_eq hvalue.symm]
    exact heven.mul_right _
  · obtain ⟨k, hk⟩ := Int.le.dest hgt
    have hnormal : 2 ^ 52 ≤ m := hc.normal.resolve_right (by omega)
    rw [← hk, add_assoc, ← Nat.cast_one, ← Nat.cast_add] at hvalue
    have hm : m = 2 ^ 52 := by
      have hcarry : m * 2 ≤ h := by
        rw [units_of_eq hvalue]
        exact Nat.mul_le_mul_left m (Nat.le_self_pow (by omega) 2)
      omega
    rw [hm]
    decide

/-- Canonical parts of an odd number of units, fifty-three bits of them, are these units. -/
theorem Canonical.odd_of_units (hc : Canonical m e) (hodd : Odd h)
    (hnormal : 2 ^ 52 ≤ h ∨ t = -1074) (hvalue : (m : ℚ) * 2 ^ e = h * 2 ^ t) : Odd m := by
  rcases le_or_gt e t with hle | hgt
  · obtain ⟨k, rfl⟩ := Int.le.dest hle
    have hunits := units_of_eq hvalue.symm
    cases k with
    | zero =>
        rw [hunits, pow_zero, mul_one]
        exact hodd
    | succ k =>
        have hleast := hc.least
        have hlt := hc.lt
        have hdouble : h * 2 ≤ m := by
          rw [hunits]
          exact Nat.mul_le_mul_left h (Nat.le_self_pow k.succ_ne_zero 2)
        omega
  · obtain ⟨k, hk⟩ := Int.le.dest hgt
    rw [← hk, add_assoc, ← Nat.cast_one, ← Nat.cast_add] at hvalue
    have heven : Even h := by
      rw [units_of_eq hvalue]
      exact (Nat.even_pow.mpr ⟨even_two, by omega⟩).mul_left m
    exact absurd hodd (Nat.not_odd_iff_even.mpr heven)

variable {negative : Bool}

/-- A rounded number is a number of units, or an infinity. -/
theorem Rounded.finite_or_infinity (hx : Rounded (signOf negative) v (parts x)) :
    isNegative x = negative ∧ ∃ (h : Nat) (t : Int), Nearest v h t ∧
      (x.isFinite ∧ (h : ℚ) * 2 ^ t < 2 ^ (1024 : Int) ∧ value x = signed negative (h * 2 ^ t) ∧
          (Even h → Even (fraction x)) ∨
        parts x = .infinity (signOf negative) ∧ (2 : ℚ) ^ (1024 : Int) ≤ h * 2 ^ t) := by
  have hsign : (isNegative x = true ↔ signOf negative = .negative) → isNegative x = negative := by
    intro hnegative
    rw [Bool.eq_iff_iff, hnegative, signOf_eq_negative_iff]
  generalize hparts : parts x = p at hx
  cases hx with
  | zero hnear =>
      refine ⟨hsign (isNegative_of_zero hparts), 0, _, hnear,
        Or.inl ⟨isFinite_of_zero hparts, ?_, ?_, fun _ => even_fraction_of_zero hparts⟩⟩
      · rw [Nat.cast_zero, zero_mul]
        positivity
      · rw [value_of_zero hparts, Nat.cast_zero, zero_mul, signed, neg_zero, ite_self]
  | finite hnear hc hfit hvalue =>
      refine ⟨hsign (isNegative_of_finite hparts), _, _, hnear,
        Or.inl ⟨isFinite_of_finite hparts, ?_, ?_, fun heven => ?_⟩⟩
      · rw [← hvalue]
        exact hc.le_iff.mp hfit
      · rw [value_of_finite hparts, ← hvalue]
        exact apply_signOf negative _ _
      · rw [even_fraction_iff hparts]
        exact hc.even_of_units hnear.le_bits hnear.least hvalue heven
  | infinity hnear hlarge =>
      exact ⟨hsign (isNegative_of_infinity hparts), _, _, hnear, Or.inr ⟨rfl, hlarge⟩⟩

/-- An infinity is not finite. -/
theorem not_isFinite_of_infinity (hx : parts x = .infinity s) : ¬ x.isFinite = true := by
  change ¬ (parts x).isFinite = true
  rw [hx]
  exact Bool.false_ne_true

/-- **Rounding gives the nearest double.** -/
theorem Rounded.nearestDouble (hx : Rounded (signOf negative) v (parts x)) (hv : 0 ≤ v) :
    NearestDouble negative v x := by
  obtain ⟨hsign, h, t, hnear, ⟨hfinite, hlt, hvalue, heven⟩ | ⟨hparts, hlarge⟩⟩ :=
    hx.finite_or_infinity
  · have hclosest : ∀ y : Float, y.isFinite → _ := fun y hy =>
      hnear.closest_representable hv ((representable_value hy).signed negative)
    refine ⟨not_isNaN_of_isFinite hfinite, hsign, iff_of_true hfinite (hnear.lt_iff.mp hlt), ?_, ?_⟩
    · intro _ y hy
      rw [abs_sub_signed, abs_sub_signed, hvalue, signed_signed]
      exact (hclosest y hy).1
    · intro _ y hy hne htie
      rw [abs_sub_signed, abs_sub_signed, hvalue, signed_signed] at htie
      refine heven ((hclosest y hy).2 (fun heq => hne ?_) htie).1
      rw [hvalue, ← heq, signed_signed]
  · have hinfinite := not_isFinite_of_infinity hparts
    refine ⟨?_, hsign, iff_of_false hinfinite ?_, fun hfinite => absurd hfinite hinfinite,
      fun hfinite => absurd hfinite hinfinite⟩
    · rw [isNaN_iff, hparts]
      intro h
      cases h
    · rw [← hnear.lt_iff]
      exact not_lt.mpr hlarge

/-! ### There is one nearest double -/

/-- The negative zero is the zero with the sign bit. -/
theorem eq_negZero_iff_value (hx : x.isFinite) :
    x = -0.0 ↔ value x = 0 ∧ isNegative x = true := by
  rw [eq_negZero_iff]
  constructor
  · intro hparts
    exact ⟨value_of_zero hparts, (isNegative_of_zero hparts).mpr rfl⟩
  · rintro ⟨hvalue, hsign⟩
    obtain ⟨s, hparts⟩ := parts_of_value_zero hx hvalue
    rw [isNegative_of_zero hparts] at hsign
    rw [hparts, hsign]

/-- A finite double is known by its value and its sign bit. -/
theorem eq_of_value_of_isNegative {y : Float} (hx : x.isFinite) (hy : y.isFinite)
    (hvalue : value x = value y) (hsign : isNegative x = isNegative y) : x = y := by
  apply eq_of_value_of_negZero hx hy hvalue
  rw [eq_negZero_iff_value hx, eq_negZero_iff_value hy, hvalue, hsign]

/-- A double is not an odd number of units if its fraction is even. -/
theorem not_odd_of_even_fraction {k : Nat} (hx : x.isFinite) (heven : Even (fraction x))
    (hnormal : 2 ^ 52 ≤ k ∨ t = -1074) (hvalue : |value x| = k * 2 ^ t) : ¬ Odd k := by
  intro hodd
  rcases parts_of_isFinite hx with ⟨s, hparts⟩ | ⟨s, m, e, hm, hparts, hc, -⟩
  · have hunit : (2 : ℚ) ^ t ≠ 0 := by positivity
    rw [value_of_zero hparts, abs_zero, eq_comm, mul_eq_zero, or_iff_left hunit] at hvalue
    rw [Nat.cast_eq_zero.mp hvalue] at hodd
    exact absurd hodd (by decide)
  · rw [value_of_finite hparts, abs_apply] at hvalue
    rw [even_fraction_iff hparts, ← Nat.not_odd_iff_even] at heven
    exact heven (hc.odd_of_units hodd hnormal hvalue)

/-- What is nearest to a number is what the number is rounded to. -/
theorem NearestDouble.eq_of_rounded {z : Float} (hx : NearestDouble negative v x)
    (hz : Rounded (signOf negative) v (parts z)) (hv : 0 ≤ v) : x = z := by
  have hnearest := hz.nearestDouble hv
  have hsigns : isNegative x = isNegative z := hx.sign.trans hnearest.sign.symm
  obtain ⟨-, h, t, hnear, ⟨hzf, -, hvalue, -⟩ | ⟨hparts, -⟩⟩ := hz.finite_or_infinity
  · have hxf : x.isFinite := hx.finite_iff.mpr (hnearest.finite_iff.mp hzf)
    have htie : |value x - signed negative v| = |value z - signed negative v| :=
      le_antisymm (hx.closest hxf z hzf) (hnearest.closest hzf x hxf)
    by_cases heq : value x = value z
    · exact eq_of_value_of_isNegative hxf hzf heq hsigns
    · -- One of two that are as close is an odd number of units, but both have even fractions.
      exfalso
      have heven := hx.even hxf z hzf (Ne.symm heq) htie
      rw [abs_sub_signed, abs_sub_signed, hvalue, signed_signed] at htie
      have hother : signed negative (value x) ≠ h * 2 ^ t := by
        intro hsame
        rw [hvalue, ← hsame, signed_signed] at heq
        exact heq rfl
      obtain ⟨-, k, hodd, hk⟩ := (hnear.closest_representable hv
        ((representable_value hxf).signed negative)).2 hother htie.symm
      rw [hk] at htie
      refine not_odd_of_even_fraction hxf heven (hnear.normal_of_tie htie.symm) ?_ hodd
      rw [← abs_signed negative, hk, abs_of_nonneg (by positivity)]
  · have hinfinite : ¬ x.isFinite = true := fun hfinite =>
      not_isFinite_of_infinity hparts (hnearest.finite_iff.mpr (hx.finite_iff.mp hfinite))
    obtain ⟨s, hs⟩ := (number_cases hx.number).resolve_left hinfinite
    have hsign := isNegative_of_infinity hs
    rw [hx.sign] at hsign
    rw [eq_signOf hsign] at hs
    exact parts_injective (hs.trans hparts.symm)

/-- Every number from zero on is rounded to some double. -/
theorem exists_rounded (s : Sign) (hv : 0 ≤ v) : ∃ z, Rounded s v (parts z) := by
  obtain ⟨n, hn⟩ := Int.eq_ofNat_of_zero_le (Rat.num_nonneg.mpr hv)
  obtain ⟨k, hk⟩ : ∃ k : Nat, (-1074 : Int) = -k := ⟨1074, rfl⟩
  have hquotient := roundWithAccuracy_rounded (s := s) (n := n * 2 ^ k) (e := -k) v.den_pos
    (Or.inr hk.ge)
  have hvalue : ((n * 2 ^ k : Nat) / v.den : ℚ) * 2 ^ (-k : Int) = v := by
    conv_rhs => rw [← Rat.num_div_den v, hn]
    rw [zpow_neg, zpow_natCast]
    push_cast
    field_simp
  rw [hvalue] at hquotient
  exact ⟨Float.ofModel (Float.Model.pack _), hquotient⟩

/-- **There is one nearest double.** -/
theorem existsUnique_nearestDouble (negative : Bool) (hv : 0 ≤ v) :
    ∃! x, NearestDouble negative v x := by
  obtain ⟨z, hz⟩ := exists_rounded (signOf negative) hv
  exact ⟨z, hz.nearestDouble hv, fun x hx => hx.eq_of_rounded hz hv⟩

end SolarBill.Double
