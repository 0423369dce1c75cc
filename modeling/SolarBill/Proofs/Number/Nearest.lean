import SolarBill.Proofs.Number.Quotient
import SolarBill.Proofs.Number.Value

/-!
# Rounding to the nearest double

Rounding a positive number takes the nearest multiple of a unit `2 ^ t`, and of two nearest ones
the even multiple; the unit is the one at which the number has fifty-three bits, but never below
the least exponent.  `Nearest v h t` says so, and it determines `h` and `t`:

* `round_nearest`, `add_nearest` — what rounding does, for mantissas and for sums of doubles;
* `Nearest.unique` — there is only one such multiple;
* `Nearest.le_of_le`, `Nearest.ge_of_ge` — rounding never passes a number of at most fifty-three
  bits;
* `add_le` — a sum that is bounded by such a number is finite, and bounded by it after rounding;
* `sum_chunks` — a long sum stays finite while its addends together fill less than `2 ^ 53` chunks
  of `2 ^ 971`, the unit of the greatest doubles.
-/

namespace SolarBill.Double

open Float.Model Float.Model.UnpackedFloat

/-! ### The rule -/

/-- A power of two, some places up. -/
theorem two_zpow_add (f : Int) (n : Nat) : (2 : ℚ) ^ (f + n) = 2 ^ n * 2 ^ f := by
  rw [zpow_add₀ two_ne_zero, zpow_natCast, mul_comm]

/-- A positive number rounds to `h` units of `2 ^ t`. -/
structure Nearest (v : ℚ) (h : Nat) (t : Int) : Prop where
  least : -1074 ≤ t
  lt : v < 2 ^ (t + 53)
  normal : 2 ^ (t + 52) ≤ v ∨ t = -1074
  near : 2 * |(h : ℚ) * 2 ^ t - v| ≤ 2 ^ t
  even : 2 * |(h : ℚ) * 2 ^ t - v| = 2 ^ t → Even h

namespace Nearest

variable {v : ℚ} {h h' k : Nat} {t t' f : Int}

/-- The unit is the one at which the number has fifty-three bits, or the least one. -/
theorem unit_eq (hv : Nearest v h t) (hf : -1074 ≤ f) (hhigh : v < 2 ^ (f + 53))
    (hlow : 2 ^ (f + 52) ≤ v ∨ f = -1074) : t = f := by
  -- A number that has fifty-three bits at one unit has none above it.
  have hle : ∀ {a b : Int}, 2 ^ (a + 52) ≤ v → v < 2 ^ (b + 53) → a ≤ b := by
    intro a b ha hb
    have hpow : (2 : ℚ) ^ (a + 52) < 2 ^ (b + 53) := lt_of_le_of_lt ha hb
    rw [zpow_lt_zpow_iff_right₀ one_lt_two] at hpow
    omega
  have hleast := hv.least
  rcases hv.normal with hnormal | hnormal
  · have htf := hle hnormal hhigh
    rcases hlow with hlow | hlow
    · exact le_antisymm htf (hle hlow hv.lt)
    · omega
  · rcases hlow with hlow | hlow
    · have hft := hle hlow hv.lt
      omega
    · rw [hnormal, hlow]

/-- A number is rounded in one unit only. -/
theorem unit_unique (hv : Nearest v h t) (hv' : Nearest v h' t') : t = t' :=
  hv.unit_eq hv'.least hv'.lt hv'.normal

/-- Two multiples of a unit that are both nearest are the same: only one of two neighbours is
even. -/
theorem unique (hv : Nearest v h t) (hv' : Nearest v h' t') : h = h' ∧ t = t' := by
  obtain rfl := hv.unit_unique hv'
  refine ⟨?_, rfl⟩
  have hunit : (0 : ℚ) < 2 ^ t := by positivity
  by_contra hne
  wlog hlt : h < h' generalizing h h'
  · exact this hv' hv (Ne.symm hne) (lt_of_le_of_ne (not_lt.mp hlt) (Ne.symm hne))
  obtain ⟨d, hd⟩ : ∃ d, h' = h + d + 1 := ⟨h' - h - 1, by omega⟩
  have hgap : (h' : ℚ) * 2 ^ t - h * 2 ^ t = (d + 1) * 2 ^ t := by
    rw [hd]
    push_cast
    ring
  have hfar : (2 : ℚ) ^ t ≤ h' * 2 ^ t - h * 2 ^ t := by
    rw [hgap]
    nlinarith [mul_nonneg (Nat.cast_nonneg (α := ℚ) d) hunit.le]
  have hnear := hv.near
  have hnear' := hv'.near
  have habove := le_abs_self ((h' : ℚ) * 2 ^ t - v)
  have hbelow := neg_abs_le ((h : ℚ) * 2 ^ t - v)
  -- The number lies between them, halfway, so both multiples are even, but they are neighbours.
  have heven : Even h := hv.even (by linarith)
  have heven' : Even h' := hv'.even (by linarith)
  have hzero : (d : ℚ) * 2 ^ t ≤ 0 := by linarith
  have hd0 : (d : ℚ) ≤ 0 := nonpos_of_mul_nonpos_left hzero hunit
  have : d = 0 := by exact_mod_cast le_antisymm hd0 (Nat.cast_nonneg d)
  subst this
  rw [hd] at heven'
  exact absurd heven (by simpa [Nat.even_add_one] using heven')

/-- Rounding does not pass a multiple of its unit. -/
theorem le_units (hv : Nearest v h t) (hle : v ≤ k * 2 ^ t) : h ≤ k := by
  have hunit : (0 : ℚ) < 2 ^ t := by positivity
  by_contra hgt
  have hcast : (k : ℚ) + 1 ≤ h := by exact_mod_cast not_le.mp hgt
  have hmul : ((k : ℚ) + 1) * 2 ^ t ≤ h * 2 ^ t := by gcongr
  have hnear := hv.near
  have habs := le_abs_self ((h : ℚ) * 2 ^ t - v)
  linarith

/-- A whole number of units that is at most the number is at most what it rounds to. -/
theorem ge_units (hv : Nearest v h t) (hle : k * 2 ^ t ≤ v) : k ≤ h := by
  have hunit : (0 : ℚ) < 2 ^ t := by positivity
  by_contra hgt
  have hcast : (h : ℚ) + 1 ≤ k := by exact_mod_cast not_le.mp hgt
  have hmul : ((h : ℚ) + 1) * 2 ^ t ≤ k * 2 ^ t := by gcongr
  have hnear := hv.near
  have habs := neg_abs_le ((h : ℚ) * 2 ^ t - v)
  linarith

/-- Multiples of a unit are multiples of every smaller one. -/
theorem units_add (k : Nat) (t : Int) (n : Nat) :
    (k : ℚ) * 2 ^ (t + n) = (k * 2 ^ n : Nat) * 2 ^ t := by
  rw [two_zpow_add, Nat.cast_mul, Nat.cast_pow, Nat.cast_ofNat, mul_assoc]

/-- The least normal number of a unit is 2 ^ 52 units. -/
theorem zpow_add_eq_units (t : Int) : (2 : ℚ) ^ (t + 52) = (2 ^ 52 : Nat) * 2 ^ t := by
  rw [show t + 52 = t + (52 : Nat) from rfl, two_zpow_add, Nat.cast_pow, Nat.cast_ofNat]

/-- A number of at most fifty-three bits at a smaller unit. -/
theorem units_le_of_lt (hk : k ≤ 2 ^ 53) (hlt : f < t) : (k : ℚ) * 2 ^ f ≤ 2 ^ (t + 52) :=
  calc (k : ℚ) * 2 ^ f ≤ (2 ^ 53 : Nat) * 2 ^ f := by gcongr
    _ = 2 ^ (f + 53) := by
      rw [show f + 53 = f + (53 : Nat) from rfl, two_zpow_add, Nat.cast_pow, Nat.cast_ofNat]
    _ ≤ 2 ^ (t + 52) := zpow_le_zpow_right₀ one_le_two (by omega)

/-- **Rounding is monotone.**  It does not pass a number of at most fifty-three bits. -/
theorem le_of_le (hv : Nearest v h t) (hk : k ≤ 2 ^ 53) (hle : v ≤ k * 2 ^ f) (hf : -1074 ≤ f) :
    (h : ℚ) * 2 ^ t ≤ k * 2 ^ f := by
  rcases le_or_gt t f with htf | hft
  · obtain ⟨n, rfl⟩ := Int.le.dest htf
    rw [units_add] at hle ⊢
    have := hv.le_units hle
    gcongr
  · -- The number has fifty-three bits at a greater unit, so it reaches a power of two.
    have hnormal : (2 : ℚ) ^ (t + 52) ≤ v := hv.normal.resolve_right (by omega)
    have hunits : h ≤ 2 ^ 52 := by
      apply hv.le_units
      rw [← zpow_add_eq_units]
      exact hle.trans (units_le_of_lt hk hft)
    calc (h : ℚ) * 2 ^ t ≤ (2 ^ 52 : Nat) * 2 ^ t := by gcongr
      _ = 2 ^ (t + 52) := (zpow_add_eq_units t).symm
      _ ≤ k * 2 ^ f := hnormal.trans hle

/-- Nor does rounding pass such a number on the way down. -/
theorem ge_of_ge (hv : Nearest v h t) (hk : k ≤ 2 ^ 53) (hle : k * 2 ^ f ≤ v) (hf : -1074 ≤ f) :
    (k : ℚ) * 2 ^ f ≤ h * 2 ^ t := by
  rcases le_or_gt t f with htf | hft
  · obtain ⟨n, rfl⟩ := Int.le.dest htf
    rw [units_add] at hle ⊢
    have := hv.ge_units hle
    gcongr
  · have hnormal : (2 : ℚ) ^ (t + 52) ≤ v := hv.normal.resolve_right (by omega)
    have hunits : 2 ^ 52 ≤ h := by
      apply hv.ge_units
      rw [← zpow_add_eq_units]
      exact hnormal
    calc (k : ℚ) * 2 ^ f ≤ 2 ^ (t + 52) := units_le_of_lt hk hft
      _ = (2 ^ 52 : Nat) * 2 ^ t := zpow_add_eq_units t
      _ ≤ h * 2 ^ t := by gcongr

end Nearest

/-- A mantissa below fifty-three bits stays below the power of two. -/
theorem mul_zpow_lt {m : Nat} {e : Int} (hm : m < 2 ^ 53) : (m : ℚ) * 2 ^ e < 2 ^ (e + 53) := by
  have hunit : (0 : ℚ) < 2 ^ e := by positivity
  have hcast : (m : ℚ) < 2 ^ 53 := by exact_mod_cast hm
  rw [show e + 53 = e + (53 : Nat) from rfl, two_zpow_add]
  gcongr

/-- A normal mantissa is at least 2 ^ 52 units. -/
theorem zpow_le_mul {m : Nat} {e : Int} (hm : 2 ^ 52 ≤ m) : (2 : ℚ) ^ (e + 52) ≤ m * 2 ^ e := by
  have hcast : (2 : ℚ) ^ 52 ≤ m := by exact_mod_cast hm
  rw [show e + 52 = e + (52 : Nat) from rfl, two_zpow_add]
  gcongr

/-- A multiple of its unit rounds to itself. -/
theorem nearest_self {h : Nat} {t : Int} (hleast : -1074 ≤ t) (hlt : (h : ℚ) * 2 ^ t < 2 ^ (t + 53))
    (hnormal : 2 ^ (t + 52) ≤ (h : ℚ) * 2 ^ t ∨ t = -1074) : Nearest (h * 2 ^ t) h t where
  least := hleast
  lt := hlt
  normal := hnormal
  near := by
    rw [sub_self, abs_zero, mul_zero]
    positivity
  even htie := by
    rw [sub_self, abs_zero, mul_zero] at htie
    exact absurd htie (by positivity)

/-- A double above zero rounds to itself. -/
theorem Canonical.nearest {m : Nat} {e : Int} (h : Canonical m e) : Nearest (m * 2 ^ e) m e :=
  nearest_self h.least (mul_zpow_lt h.lt) (h.normal.imp_left zpow_le_mul)

/-! ### Rounding a mantissa -/

/-- The multiple of `2 ^ n` that is nearest to `m`, the even one of two, in units of `2 ^ n`. -/
def nearestUnits (m n : Nat) : Nat :=
  if 2 * (m % 2 ^ n) < 2 ^ n then m / 2 ^ n
  else if 2 * (m % 2 ^ n) = 2 ^ n then m / 2 ^ n + m / 2 ^ n % 2
  else m / 2 ^ n + 1

/-- The two bits that are kept of what is cut off decide as the whole would. -/
theorem roundedMantissa_shiftRight (m n : Nat) :
    (ExtendedMantissa.mk m false false >>> n).roundedMantissa = nearestUnits m n := by
  rw [← extended_one, shiftRight_extended one_pos, one_mul,
    roundedMantissa_extended (by positivity)]
  rfl

/-- The nearest multiple is at most half a unit away, and is even if it is just that far. -/
theorem nearestUnits_near (m n : Nat) :
    2 * |(nearestUnits m n : Int) * 2 ^ n - m| ≤ 2 ^ n ∧
      (2 * |(nearestUnits m n : Int) * 2 ^ n - m| = 2 ^ n → Even (nearestUnits m n)) := by
  have hnear := nearestQuotient_near m (show 0 < 2 ^ n by positivity)
  rw [Nat.cast_pow, Nat.cast_ofNat] at hnear
  exact hnear

/-- The place where a mantissa is cut leaves it fifty-three bits, or is the least exponent. -/
theorem target_bounds {m : Nat} {e t : Int} (hm : 0 < m)
    (ht : Format.binary64.targetExponent (totalExponent m e) = t) :
    -1074 ≤ t ∧ (m : ℚ) * 2 ^ e < 2 ^ (t + 53) ∧ (2 ^ (t + 52) ≤ (m : ℚ) * 2 ^ e ∨ t = -1074) := by
  rw [targetExponent_eq] at ht
  have hunit : (0 : ℚ) < 2 ^ e := by positivity
  have hself : (2 : ℚ) ^ m.log2 ≤ m := by exact_mod_cast Nat.log2_self_le hm.ne'
  have hnext : (m : ℚ) < 2 ^ (m.log2 + 1) := by exact_mod_cast Nat.lt_log2_self
  refine ⟨by omega, ?_, ?_⟩
  · calc (m : ℚ) * 2 ^ e < 2 ^ (m.log2 + 1) * 2 ^ e := by gcongr
      _ = 2 ^ ((m.log2 + 1 : Nat) + e) := by rw [zpow_add₀ two_ne_zero, zpow_natCast]
      _ ≤ 2 ^ (t + 53) := zpow_le_zpow_right₀ one_le_two (by push_cast; omega)
  · by_cases hleast : t = -1074
    · exact Or.inr hleast
    · left
      calc (2 : ℚ) ^ (t + 52) = 2 ^ ((m.log2 : Int) + e) := by
            congr 1
            omega
        _ = 2 ^ m.log2 * 2 ^ e := by rw [zpow_add₀ two_ne_zero, zpow_natCast]
        _ ≤ m * 2 ^ e := by gcongr

/-- Rounding a mantissa at an admissible exponent takes the nearest multiple. -/
theorem round_nearest {s : Sign} {m : Nat} {e : Int} (hm : 0 < m) (he : -1074 ≤ e) :
    ∃ m' e', ∃ hm' : 0 < m', UnpackedFloat.round Format.binary64 s m e = .finite s m' e' hm' ∧
      Canonical m' e' ∧ ∃ (h : Nat) (t : Int),
        (m' : ℚ) * 2 ^ e' = h * 2 ^ t ∧ Nearest (m * 2 ^ e) h t := by
  obtain ⟨hleast, hlt, hnormal⟩ := target_bounds (e := e) hm rfl
  rcases le_or_gt (Format.binary64.targetExponent (totalExponent m e)) e with hle | hgt
  · obtain ⟨n, hn⟩ := Int.le.dest hle
    obtain ⟨m', e', hm', heq, hcanonical, hvalue⟩ := round_of_lowered (s := s) (n := n)
      (t := Format.binary64.targetExponent (totalExponent m e)) hm (by rw [hn])
    rw [hn] at heq hvalue
    -- The mantissa is a multiple of the unit already.
    have hunits : (m : ℚ) * 2 ^ e =
        (m * 2 ^ n : Nat) * 2 ^ Format.binary64.targetExponent (totalExponent m e) := by
      conv_lhs => rw [← hn, zpow_add₀ two_ne_zero, zpow_natCast]
      push_cast
      ring
    refine ⟨m', e', hm', heq, hcanonical, m * 2 ^ n, _, hvalue.trans hunits, ?_⟩
    rw [hunits] at hlt hnormal ⊢
    exact nearest_self hleast hlt hnormal
  · obtain ⟨n, hn⟩ := Int.le.dest hgt.le
    obtain ⟨m', e', hm', heq, hcanonical, hvalue⟩ :=
      round_of_raised (s := s) hm he hn.symm (by omega)
    rw [roundedMantissa_shiftRight] at hvalue
    rw [← hn] at hleast hlt hnormal
    obtain ⟨hnear, heven⟩ := nearestUnits_near m n
    have hunit : (0 : ℚ) < 2 ^ e := by positivity
    have hdistance : 2 * |(nearestUnits m n : ℚ) * 2 ^ (e + n) - m * 2 ^ e| =
        ((2 * |(nearestUnits m n : Int) * 2 ^ n - m| : Int) : ℚ) * 2 ^ e := by
      have hfactor : (nearestUnits m n : ℚ) * 2 ^ (e + n) - m * 2 ^ e =
          (nearestUnits m n * 2 ^ n - m) * 2 ^ e := by
        rw [zpow_add₀ two_ne_zero, zpow_natCast]
        ring
      rw [hfactor, abs_mul, abs_of_pos hunit]
      push_cast
      ring
    have hpower : (2 : ℚ) ^ (e + n) = ((2 ^ n : Int) : ℚ) * 2 ^ e := by
      rw [zpow_add₀ two_ne_zero, zpow_natCast]
      push_cast
      ring
    refine ⟨m', e', hm', heq, hcanonical, nearestUnits m n, _, hvalue, hleast, hlt, hnormal, ?_, ?_⟩
    · rw [hdistance, hpower]
      gcongr
    · intro htie
      rw [hdistance, hpower] at htie
      exact heven (by exact_mod_cast mul_right_cancel₀ hunit.ne' htie)

/-! ### Sums -/

/-- Canonical parts of a value below the greatest power of two have an exponent that fits. -/
theorem Canonical.le_iff {m : Nat} {e : Int} (h : Canonical m e) :
    e ≤ 971 ↔ (m : ℚ) * 2 ^ e < 2 ^ (1024 : Int) := by
  constructor
  · intro he
    calc (m : ℚ) * 2 ^ e < 2 ^ (e + 53) := mul_zpow_lt h.lt
      _ ≤ 2 ^ (1024 : Int) := zpow_le_zpow_right₀ one_le_two (by omega)
  · intro hlt
    by_contra hgt
    have hnormal : 2 ^ 52 ≤ m := h.normal.resolve_right (by omega)
    have hpow : (2 : ℚ) ^ (e + 52) < 2 ^ (1024 : Int) := (zpow_le_mul hnormal).trans_lt hlt
    rw [zpow_lt_zpow_iff_right₀ one_lt_two] at hpow
    omega

/-- The value of a finite double is represented by it. -/
theorem representable_value {x : Float} (hx : x.isFinite) : Representable (value x) := by
  rcases parts_of_isFinite hx with ⟨s, hx⟩ | ⟨s, m, e, hm, hx, hc, he⟩
  · exact ⟨0, 0, by norm_num, by norm_num, by norm_num, by simp [value_of_zero hx]⟩
  · exact ⟨m, e, hc.lt, hc.least, he, by rw [value_of_finite hx, abs_apply]⟩

/-- A finite double above zero has canonical parts. -/
theorem canonical_of_pos {x : Float} (hx : x.isFinite) (hpos : 0 < value x) :
    ∃ m e, ∃ hm : 0 < m, parts x = .finite .positive m e hm ∧ Canonical m e ∧ e ≤ 971 ∧
      value x = m * 2 ^ e := by
  rcases parts_of_isFinite hx with ⟨s, hx⟩ | ⟨s, m, e, hm, hx, hc, he⟩
  · exact absurd hpos (by simp [value_of_zero hx])
  · have hunit : (0 : ℚ) < m * 2 ^ e := by positivity
    have hvalue := value_of_finite hx
    cases s with
    | positive => exact ⟨m, e, hm, hx, hc, he, by simpa [Sign.apply] using hvalue⟩
    | negative =>
        simp only [Sign.apply, Int.cast_neg, Int.cast_natCast, neg_mul] at hvalue
        linarith

/-- A sum with a zero is exact, and any other sum is a normalized whole number. -/
theorem add_cases {x y : Float} (hx : x.isFinite) (hy : y.isFinite) :
    Representable (value x + value y) ∨ ∃ k e : Int, -1074 ≤ e ∧
      (k : ℚ) * 2 ^ e = value x + value y ∧
      parts (x + y) = (Float.Model.pack
        (UnpackedFloat.normalize Format.binary64 k e .positive)).unpack := by
  rcases parts_of_isFinite hx with ⟨s, hxp⟩ | ⟨s, m, e, hm, hxp, hxc, -⟩
  · left
    rw [value_of_zero hxp, zero_add]
    exact representable_value hy
  rcases parts_of_isFinite hy with ⟨t, hyp⟩ | ⟨t, n, f, hn, hyp, hyc, -⟩
  · left
    rw [value_of_zero hyp, add_zero]
    exact representable_value hx
  obtain ⟨k, hsum, hvalue, -⟩ := parts_add_finite hxp hyp
  exact Or.inr ⟨k, min e f, le_min hxc.least hyc.least, hvalue, hsum⟩

/-- A sum above zero is rounded to the nearest multiple.  The result is finite unless that is too
great for a double, and then it is the value. -/
theorem add_nearest {x y : Float} (hx : x.isFinite) (hy : y.isFinite)
    (hpos : 0 < value x + value y) :
    ∃ (h : Nat) (t : Int), Nearest (value x + value y) h t ∧
      ((x + y).isFinite = true ↔ (h : ℚ) * 2 ^ t < 2 ^ (1024 : Int)) ∧
      ((x + y).isFinite = true → value (x + y) = h * 2 ^ t) := by
  rcases add_cases hx hy with hexact | ⟨k, e, hleast, hvalue, hsum⟩
  · -- A sum that is exact is its own nearest multiple.
    obtain ⟨hfinite, hvalue⟩ := value_add hx hy hexact
    obtain ⟨m, e, -, -, hc, he, heq⟩ := canonical_of_pos hfinite (hvalue ▸ hpos)
    refine ⟨m, e, ?_, ⟨fun _ => hc.le_iff.mp he, fun _ => hfinite⟩, fun _ => heq⟩
    rw [← hvalue, heq]
    exact hc.nearest
  rw [← hvalue] at hpos ⊢
  have hk : 0 < k := by
    have := pos_of_mul_pos_left hpos (by positivity)
    exact_mod_cast this
  obtain ⟨m', e', hm', hround, hcanonical, h, u, heq, hnear⟩ :=
    round_nearest (s := .positive) (m := k.toNat) (by omega) hleast
  have hcast : ((k.toNat : Nat) : ℚ) = k := by
    rw [← Int.cast_natCast, Int.toNat_of_nonneg hk.le]
  rw [hcast] at hnear
  rw [UnpackedFloat.normalize, Int.compare_eq_gt.mpr hk] at hsum
  change parts (x + y) =
    (Float.Model.pack (UnpackedFloat.round Format.binary64 .positive k.toNat e)).unpack at hsum
  rw [hround] at hsum
  refine ⟨h, u, hnear, ?_⟩
  rw [← heq, ← hcanonical.le_iff]
  rcases le_or_gt e' 971 with hfit | hover
  · rw [unpack_pack hcanonical hfit] at hsum
    exact ⟨⟨fun _ => hfit, fun _ => isFinite_of_finite hsum⟩, fun _ => value_of_finite hsum⟩
  · rw [unpack_pack_overflow hcanonical hover] at hsum
    have hinfinite : ¬ (x + y).isFinite = true := by
      change ¬ (parts (x + y)).isFinite = true
      rw [hsum]
      simp [UnpackedFloat.isFinite]
    exact ⟨⟨fun hc => absurd hc hinfinite, fun hc => by omega⟩, fun hc => absurd hc hinfinite⟩

/-- A sum that is at most some number of fifty-three bits is finite, and rounding does not pass
that number. -/
theorem add_le {x y : Float} {k : Nat} {f : Int} (hx : x.isFinite) (hy : y.isFinite)
    (hpos : 0 < value x + value y) (hk : k ≤ 2 ^ 53) (hf : -1074 ≤ f)
    (hfit : (k : ℚ) * 2 ^ f < 2 ^ (1024 : Int)) (hle : value x + value y ≤ k * 2 ^ f) :
    (x + y).isFinite ∧ value (x + y) ≤ k * 2 ^ f := by
  obtain ⟨h, t, hnear, hfinite, hvalue⟩ := add_nearest hx hy hpos
  have hbound := hnear.le_of_le hk hle hf
  have hsum := hfinite.mpr (hbound.trans_lt hfit)
  exact ⟨hsum, (hvalue hsum).trans_le hbound⟩

/-- Doubles above zero are known by their value. -/
theorem eq_of_value {x y : Float} (hx : x.isFinite) (hy : y.isFinite) (hpos : 0 < value x)
    (h : value x = value y) : x = y := by
  obtain ⟨m, e, hm, hxp, hxc, -, hxv⟩ := canonical_of_pos hx hpos
  obtain ⟨n, f, hn, hyp, hyc, -, hyv⟩ := canonical_of_pos hy (h ▸ hpos)
  have hnear : Nearest (m * 2 ^ e) n f := by
    rw [← hxv, h, hyv]
    exact hyc.nearest
  obtain ⟨rfl, rfl⟩ := hxc.nearest.unique hnear
  exact parts_injective (hxp.trans hyp.symm)

/-- A sum below zero is below zero, whatever rounding and overflow do. -/
theorem add_lt_zero {x y : Float} (hx : x.isFinite) (hy : y.isFinite)
    (hneg : value x + value y < 0) : x + y < 0.0 := by
  rcases add_cases hx hy with hexact | ⟨k, e, hleast, hvalue, hsum⟩
  · obtain ⟨hfinite, hvalue⟩ := value_add hx hy hexact
    exact (lt_zero_iff hfinite).mpr (hvalue ▸ hneg)
  rw [← hvalue] at hneg
  have hk : k < 0 := by
    have := neg_of_mul_neg_left hneg (by positivity)
    exact_mod_cast this
  obtain ⟨m', e', hm', hround, hcanonical, -⟩ :=
    round_nearest (s := .negative) (m := (-k).toNat) (by omega) hleast
  rw [UnpackedFloat.normalize, Int.compare_eq_lt.mpr hk] at hsum
  change parts (x + y) =
    (Float.Model.pack (UnpackedFloat.round Format.binary64 .negative (-k).toNat e)).unpack at hsum
  rw [hround] at hsum
  rw [lt_iff, parts_literal_zero]
  rcases le_or_gt e' 971 with hfit | hover
  · rw [hsum, unpack_pack hcanonical hfit]
    simp [UnpackedFloat.lt, UnpackedFloat.compare]
  · rw [hsum, unpack_pack_overflow hcanonical hover]
    simp [UnpackedFloat.lt, UnpackedFloat.compare]

/-! ### Sums that do not overflow -/

/-- The chunks of `2 ^ 971` that a double above zero fills, the last one perhaps in part. -/
def chunks (x : Float) : Nat :=
  ⌈value x / 2 ^ (971 : Int)⌉₊

theorem chunks_le_iff {x : Float} {k : Nat} : chunks x ≤ k ↔ value x ≤ k * 2 ^ (971 : Int) := by
  rw [chunks, Nat.ceil_le, div_le_iff₀ (by positivity)]

/-- A chunk at most. -/
theorem chunks_le_one {x : Float} (h : value x ≤ 2 ^ (971 : Int)) : chunks x ≤ 1 := by
  rw [chunks_le_iff, Nat.cast_one, one_mul]
  exact h

/-- Adding positive doubles with few chunks does not overflow and adds no chunks. -/
theorem add_chunks {x y : Float} (hx : isPositive x = true) (hy : isPositive y = true)
    (hlt : chunks x + chunks y < 2 ^ 53) :
    isPositive (x + y) = true ∧ chunks (x + y) ≤ chunks x + chunks y := by
  obtain ⟨hxf, hxv⟩ := isPositive_iff.mp hx
  obtain ⟨hyf, hyv⟩ := isPositive_iff.mp hy
  have hle : value x + value y ≤ (chunks x + chunks y : Nat) * 2 ^ (971 : Int) := by
    rw [Nat.cast_add, add_mul]
    exact add_le_add (chunks_le_iff.mp (le_refl (chunks x))) (chunks_le_iff.mp (le_refl (chunks y)))
  have hfit : ((chunks x + chunks y : Nat) : ℚ) * 2 ^ (971 : Int) < 2 ^ (1024 : Int) := by
    rw [show (1024 : Int) = 971 + 53 from rfl]
    exact mul_zpow_lt hlt
  obtain ⟨hfinite, hvalue⟩ := add_le hxf hyf (by linarith) hlt.le (by norm_num) hfit hle
  refine ⟨?_, chunks_le_iff.mpr hvalue⟩
  rw [isPositive, hfinite, decide_eq_true (add_pos (pos_of_isPositive hx) (pos_of_isPositive hy))]
  rfl

theorem sum_chunks {xs : List Float} (hne : xs ≠ []) (h : ∀ x ∈ xs, isPositive x = true)
    (hlt : (xs.map chunks).sum < 2 ^ 53) :
    isPositive (sum xs) = true ∧ chunks (sum xs) ≤ (xs.map chunks).sum := by
  have hfold : ∀ (ys : List Float) (a : Float), isPositive a = true →
      (∀ y ∈ ys, isPositive y = true) → chunks a + (ys.map chunks).sum < 2 ^ 53 →
      isPositive (ys.foldl (· + ·) a) = true ∧
        chunks (ys.foldl (· + ·) a) ≤ chunks a + (ys.map chunks).sum := by
    intro ys
    induction ys with
    | nil => intro a ha _ _; exact ⟨ha, le_refl _⟩
    | cons y rest ih =>
        intro a ha hys hlt
        rw [List.map_cons, List.sum_cons] at hlt ⊢
        obtain ⟨hpos, hchunks⟩ := add_chunks ha (hys y List.mem_cons_self) (by omega)
        obtain ⟨hfold, hle⟩ := ih (a + y) hpos
          (fun z hz => hys z (List.mem_cons_of_mem y hz)) (by omega)
        exact ⟨hfold, by rw [List.foldl_cons]; omega⟩
  cases xs with
  | nil => exact absurd rfl hne
  | cons x rest =>
      rw [sum, List.foldl_cons, negZero_add]
      exact hfold rest x (h x List.mem_cons_self) (fun y hy => h y (List.mem_cons_of_mem x hy)) hlt

end SolarBill.Double
