import SolarBill.Proofs.Number.Nearest

/-!
# Taking out and putting back

A quantity is subtracted from a level and added again.  The difference `d` is rounded first, to `x`
units of its own, so what comes back is the level plus the error of that rounding, rounded again.
The second rounding undoes the error as long as it is less than half a unit of the level.  It can
reach half a unit only if the difference has the same unit as the level, and then the even one of
two neighbours is taken: the level itself, if its mantissa is even.

* `Slips` — an odd level, and a quantity that leaves just half a unit to be rounded away;
* `add_back` — the level comes back exactly if it does not slip.
-/

namespace SolarBill.Double

open Float.Model Float.Model.UnpackedFloat

/-- A unit is two halves of it. -/
theorem two_zpow_eq (f : Int) : (2 : ℚ) ^ f = 2 * 2 ^ (f - 1) := by
  rw [← zpow_one_add₀ two_ne_zero, add_sub_cancel]

section Back

variable {d : ℚ} {x l h : Nat} {t f u : Int}

/-- A level and the error of the difference, where the difference has a smaller unit. -/
theorem back_of_lt (hd : Nearest d x t) (hl : Canonical l f) (htf : t < f) :
    ∃ (h : Nat) (u : Int), Nearest (l * 2 ^ f + (x * 2 ^ t - d)) h u ∧
      (h : ℚ) * 2 ^ u = l * 2 ^ f := by
  have hleast := hd.least
  have hf := two_zpow_eq f
  have hhalf : (0 : ℚ) < 2 ^ (f - 1) := by positivity
  have hsmall : 2 * |(x : ℚ) * 2 ^ t - d| ≤ 2 ^ (f - 1) :=
    hd.near.trans (zpow_le_zpow_right₀ one_le_two (by omega))
  have habove := le_abs_self ((x : ℚ) * 2 ^ t - d)
  have hbelow := neg_abs_le ((x : ℚ) * 2 ^ t - d)
  have hnormal := zpow_le_mul (e := f) (hl.normal.resolve_right (by omega))
  by_cases hlow : (2 : ℚ) ^ (f + 52) ≤ l * 2 ^ f + (x * 2 ^ t - d)
  · -- The level is its own nearest multiple.
    refine ⟨l, f, ⟨hl.least, ?_, Or.inl hlow, ?_, ?_⟩, rfl⟩
    · have hcast : (l : ℚ) + 1 ≤ 2 ^ 53 := by exact_mod_cast hl.lt
      have hnext : ((l : ℚ) + 1) * 2 ^ f ≤ 2 ^ 53 * 2 ^ f := by gcongr
      rw [show f + 53 = f + (53 : Nat) from rfl, two_zpow_add]
      linarith
    · rw [sub_add_cancel_left, abs_neg]
      linarith
    · intro htie
      rw [sub_add_cancel_left, abs_neg] at htie
      exact absurd htie (by linarith)
  · -- Below the power of two the unit is half as great, and the level is an even multiple of it.
    have hlevel : ((2 * l : Nat) : ℚ) * 2 ^ (f - 1) = l * 2 ^ f := by
      rw [hf]
      push_cast
      ring
    have herror : ((2 * l : Nat) : ℚ) * 2 ^ (f - 1) - (l * 2 ^ f + (x * 2 ^ t - d)) =
        -(x * 2 ^ t - d) := by
      rw [hlevel, sub_add_cancel_left]
    refine ⟨2 * l, f - 1, ⟨by omega, ?_, ?_, ?_, fun _ => even_two_mul l⟩, hlevel⟩
    · rw [show f - 1 + 53 = f + 52 by ring]
      exact not_le.mp hlow
    · left
      rw [show f + 52 = f - 1 + (53 : Nat) by push_cast; ring, two_zpow_add] at hnormal
      rw [show f - 1 + 52 = f - 1 + (52 : Nat) from rfl, two_zpow_add]
      linarith
    · rw [herror, abs_neg]
      exact hsmall

/-- Where the difference has the unit of the level, so has what comes back. -/
theorem back_bounds (hd : Nearest d x f) (hl : Canonical l f) (hle : d ≤ l * 2 ^ f) :
    (l : ℚ) * 2 ^ f + (x * 2 ^ f - d) < 2 ^ (f + 53) ∧
      (2 ^ (f + 52) ≤ (l : ℚ) * 2 ^ f + (x * 2 ^ f - d) ∨ f = -1074) := by
  have hunit : (0 : ℚ) < 2 ^ f := by positivity
  have hnear := hd.near
  have habove := le_abs_self ((x : ℚ) * 2 ^ f - d)
  constructor
  · have hcast : (l : ℚ) + 1 ≤ 2 ^ 53 := by exact_mod_cast hl.lt
    have hnext : ((l : ℚ) + 1) * 2 ^ f ≤ 2 ^ 53 * 2 ^ f := by gcongr
    rw [show f + 53 = f + (53 : Nat) from rfl, two_zpow_add]
    linarith
  · refine hd.normal.imp_left fun hnormal => ?_
    have hpower : (2 : ℚ) ^ (f + 52) = (2 ^ 52 : Nat) * 2 ^ f := by
      rw [show f + 52 = f + (52 : Nat) from rfl, two_zpow_add]
      push_cast
      rfl
    have hunits : 2 ^ 52 ≤ x := hd.ge_units (by rwa [← hpower])
    have hx : (2 : ℚ) ^ (f + 52) ≤ x * 2 ^ f := zpow_le_mul hunits
    linarith

/-- What comes back is the level, unless an odd level meets half a unit. -/
theorem back_eq (hd : Nearest d x t) (hl : Canonical l f) (hle : d ≤ l * 2 ^ f)
    (hslip : ¬ (Odd l ∧ t = f ∧ 2 * |(x : ℚ) * 2 ^ t - d| = 2 ^ t)) :
    ∃ (h : Nat) (u : Int), Nearest (l * 2 ^ f + (x * 2 ^ t - d)) h u ∧
      (h : ℚ) * 2 ^ u = l * 2 ^ f := by
  have htf : t ≤ f := by
    rcases hd.normal with hnormal | hleast
    · have hpow : (2 : ℚ) ^ (t + 52) < 2 ^ (f + 53) :=
        (hnormal.trans hle).trans_lt (mul_zpow_lt hl.lt)
      rw [zpow_lt_zpow_iff_right₀ one_lt_two] at hpow
      omega
    · exact hleast ▸ hl.least
  rcases htf.lt_or_eq with htf | rfl
  · exact back_of_lt hd hl htf
  · obtain ⟨hlt, hnormal⟩ := back_bounds hd hl hle
    refine ⟨l, t, ⟨hl.least, hlt, hnormal, ?_, ?_⟩, rfl⟩
    · rw [sub_add_cancel_left, abs_neg]
      exact hd.near
    · intro htie
      rw [sub_add_cancel_left, abs_neg] at htie
      by_contra hodd
      exact hslip ⟨Nat.not_even_iff_odd.mp hodd, rfl, htie⟩

/-- Half a unit takes an odd level to an even neighbour. -/
theorem back_ne (hd : Nearest d x f) (hl : Canonical l f) (hle : d ≤ l * 2 ^ f) (hodd : Odd l)
    (htie : 2 * |(x : ℚ) * 2 ^ f - d| = 2 ^ f)
    (hback : Nearest (l * 2 ^ f + (x * 2 ^ f - d)) h u) : (h : ℚ) * 2 ^ u ≠ l * 2 ^ f := by
  obtain ⟨hlt, hnormal⟩ := back_bounds hd hl hle
  obtain rfl := hback.unit_eq hl.least hlt hnormal
  intro heq
  have hunit : (0 : ℚ) < 2 ^ u := by positivity
  have hsame : h = l := by exact_mod_cast mul_right_cancel₀ hunit.ne' heq
  subst hsame
  have heven : Even h := by
    apply hback.even
    rw [sub_add_cancel_left, abs_neg]
    exact htie
  exact Nat.not_even_iff_odd.mpr hodd heven

/-- An error of half a unit, up or down, comes of a quantity that is an odd number of half units. -/
theorem halves_of_tie {q : ℚ} (htie : 2 * |(x : ℚ) * 2 ^ f - (l * 2 ^ f - q)| = 2 ^ f) :
    ∃ j : Int, q = (2 * j + 1) * 2 ^ (f - 1) := by
  rw [two_zpow_eq f] at htie
  rcases abs_cases ((x : ℚ) * (2 * 2 ^ (f - 1)) - (l * (2 * 2 ^ (f - 1)) - q)) with
    ⟨habs, -⟩ | ⟨habs, -⟩ <;> rw [habs] at htie
  · refine ⟨l - x, ?_⟩
    push_cast
    linarith
  · refine ⟨l - x - 1, ?_⟩
    push_cast
    linarith

/-- An odd number of half units is at least half a unit away from any unit. -/
theorem tie_of_halves {j : Int} (hd : Nearest (l * 2 ^ f - (2 * j + 1) * 2 ^ (f - 1)) x f) :
    2 * |(x : ℚ) * 2 ^ f - (l * 2 ^ f - (2 * j + 1) * 2 ^ (f - 1))| = 2 ^ f := by
  refine le_antisymm hd.near ?_
  have hhalf : (0 : ℚ) < 2 ^ (f - 1) := by positivity
  have herror : (x : ℚ) * 2 ^ f - (l * 2 ^ f - (2 * j + 1) * 2 ^ (f - 1)) =
      ((2 * (x - l + j) + 1 : Int) : ℚ) * 2 ^ (f - 1) := by
    rw [two_zpow_eq f]
    push_cast
    ring
  have hone : (1 : ℚ) ≤ |((2 * (x - l + j) + 1 : Int) : ℚ)| := by
    rw [← Int.cast_abs]
    exact_mod_cast Int.one_le_abs (by omega)
  rw [herror, abs_mul, abs_of_pos hhalf, two_zpow_eq f]
  gcongr
  exact le_mul_of_one_le_left hhalf.le hone

/-- A number of units is no odd number of half units. -/
theorem units_ne_halves (n j : Int) : (n : ℚ) * 2 ^ f ≠ (2 * j + 1) * 2 ^ (f - 1) := by
  intro heq
  have hhalf : (0 : ℚ) < 2 ^ (f - 1) := by positivity
  have hparity : (n * 2 : ℚ) = 2 * j + 1 := by
    apply mul_right_cancel₀ hhalf.ne'
    rw [← heq, two_zpow_eq f, mul_assoc]
  have : n * 2 = 2 * j + 1 := by exact_mod_cast hparity
  omega

/-- Just half a unit is rounded away exactly where the quantity is an odd number of half units and
the difference has the unit of the level. -/
theorem tie_iff {q : ℚ} (hd : Nearest (l * 2 ^ f - q) x t) (hl : Canonical l f)
    (hq : ∃ n : Int, q = n * 2 ^ (-1074 : Int)) (hpos : 0 ≤ q) :
    t = f ∧ 2 * |(x : ℚ) * 2 ^ t - (l * 2 ^ f - q)| = 2 ^ t ↔
      2 ^ (f + 52) ≤ l * 2 ^ f - q ∧ ∃ j : Int, q = (2 * j + 1) * 2 ^ (f - 1) := by
  constructor
  · rintro ⟨rfl, htie⟩
    have hhalves := halves_of_tie htie
    refine ⟨hd.normal.resolve_right ?_, hhalves⟩
    -- No double has half of the least unit.
    rintro rfl
    obtain ⟨j, hj⟩ := hhalves
    obtain ⟨n, hn⟩ := hq
    exact units_ne_halves n j (hn.symm.trans hj)
  · rintro ⟨hlow, j, rfl⟩
    have hlt : (l : ℚ) * 2 ^ f - (2 * j + 1) * 2 ^ (f - 1) < 2 ^ (f + 53) :=
      (sub_le_self _ hpos).trans_lt (mul_zpow_lt hl.lt)
    obtain rfl := hd.unit_eq hl.least hlt (Or.inl hlow)
    exact ⟨rfl, tie_of_halves hd⟩

end Back

/-! ### Levels and quantities -/

/-- The level is odd, the quantity is an odd number of halves of its unit, and what is left has the
same unit: so taking the quantity out and putting it back does not give the level again. -/
def Slips (level quantity : Float) : Prop :=
  ∃ l f hl, parts level = .finite .positive l f hl ∧ Odd l ∧
    2 ^ (f + 52) ≤ value level - value quantity ∧
    ∃ j : Int, value quantity = (2 * j + 1) * 2 ^ (f - 1)

/-- An even level does not slip. -/
theorem not_slips_of_even {level : Float} {l : Nat} {f : Int} {hl : 0 < l}
    (h : parts level = .finite .positive l f hl) (heven : Even l) (quantity : Float) :
    ¬ Slips level quantity := by
  rintro ⟨l', f', hl', h', hodd, -⟩
  rw [h] at h'
  cases h'
  exact Nat.not_even_iff_odd.mpr hodd heven

/-- Every finite double is a whole number of least units. -/
theorem exists_least_units {x : Float} (hx : x.isFinite) :
    ∃ n : Int, value x = n * 2 ^ (-1074 : Int) := by
  rcases parts_of_isFinite hx with ⟨s, hx⟩ | ⟨s, m, e, hm, hx, hc, -⟩
  · exact ⟨0, by rw [value_of_zero hx, Int.cast_zero, zero_mul]⟩
  · obtain ⟨n, hn⟩ := Int.le.dest hc.least
    refine ⟨s.apply m * 2 ^ n, ?_⟩
    rw [value_of_finite hx, ← hn, two_zpow_add, Int.cast_mul, Int.cast_pow, Int.cast_ofNat,
      mul_assoc]

/-- Taking everything leaves a zero, and what is put back is the level. -/
theorem add_back_of_eq {level quantity : Float} (hlevel : level.isFinite)
    (hquantity : isPositive quantity = true) (heq : value level = value quantity) :
    (level + -quantity).isFinite ∧ level + -quantity + quantity = level := by
  obtain ⟨hfinite, hpos⟩ := isPositive_iff.mp hquantity
  have hsum : value level + value (-quantity) = (0 : Int) := by
    rw [value_neg hfinite, heq, Int.cast_zero, add_neg_cancel]
  obtain ⟨hempty, hnone⟩ := value_add hlevel (isFinite_neg hfinite) (by
    rw [hsum]
    exact representable_intCast (by norm_num))
  have hback : value (level + -quantity) + value quantity = value level := by
    rw [hnone, hsum, heq, Int.cast_zero, zero_add]
  obtain ⟨hfull, hsame⟩ := value_add hempty hfinite (by
    rw [hback]
    exact representable_value hlevel)
  rw [hback] at hsame
  exact ⟨hempty, eq_of_value hfull hlevel (by rw [hsame, heq]; exact hpos) hsame⟩

/-- Taking less leaves the rounded difference, and what is put back is the level, up to the
rounding error, rounded again. -/
theorem add_back_of_lt {level quantity : Float} {l : Nat} {f : Int} (hlevel : level.isFinite)
    (hquantity : isPositive quantity = true) (hl : Canonical l f) (hfit : f ≤ 971)
    (hvalue : value level = l * 2 ^ f) (hlt : value quantity < value level) :
    (level + -quantity).isFinite ∧ ∃ (x : Nat) (t : Int) (h : Nat) (u : Int),
      Nearest (l * 2 ^ f - value quantity) x t ∧
      Nearest (l * 2 ^ f + (x * 2 ^ t - (l * 2 ^ f - value quantity))) h u ∧
      (level + -quantity + quantity = level ↔ (h : ℚ) * 2 ^ u = l * 2 ^ f) := by
  obtain ⟨hfinite, hpos⟩ := isPositive_iff.mp hquantity
  have hdiff : value level + value (-quantity) = l * 2 ^ f - value quantity := by
    rw [value_neg hfinite, hvalue, sub_eq_add_neg]
  obtain ⟨x, t, hnear, hleft_iff, hleft_value⟩ :=
    add_nearest hlevel (isFinite_neg hfinite) (by rw [hdiff, ← hvalue]; exact sub_pos.mpr hlt)
  rw [hdiff] at hnear
  have hbelow := hnear.le_of_le hl.lt.le (sub_le_self _ hpos.le) hl.least
  have hleft := hleft_iff.mpr (hbelow.trans_lt (hl.le_iff.mp hfit))
  have hback : value (level + -quantity) + value quantity =
      l * 2 ^ f + (x * 2 ^ t - (l * 2 ^ f - value quantity)) := by
    rw [hleft_value hleft]
    ring
  obtain ⟨h, u, hagain, hback_iff, hback_value⟩ :=
    add_nearest hleft hfinite (by rw [hleft_value hleft]; positivity)
  rw [hback] at hagain
  refine ⟨hleft, x, t, h, u, hnear, hagain, ?_, ?_⟩
  · intro heq
    rw [← hback_value (heq.symm ▸ hlevel), heq, hvalue]
  · intro heq
    have hsum := hback_iff.mpr (heq ▸ hl.le_iff.mp hfit)
    have hsame : value (level + -quantity + quantity) = value level := by
      rw [hback_value hsum, heq, hvalue]
    exact eq_of_value hsum hlevel (by rw [hsame]; exact hpos.trans hlt) hsame

/-- **Putting back what was taken out.**  A quantity that a level can give leaves a finite level,
and adding it again gives the level exactly if it does not slip. -/
theorem add_back {level quantity : Float} (hlevel : level.isFinite)
    (hquantity : isPositive quantity = true) (hgiven : ¬ level + -quantity < 0.0) :
    (level + -quantity).isFinite ∧
      (level + -quantity + quantity = level ↔ ¬ Slips level quantity) := by
  obtain ⟨hfinite, hpos⟩ := isPositive_iff.mp hquantity
  have hle : value quantity ≤ value level := by
    by_contra hlt
    apply hgiven
    apply add_lt_zero hlevel (isFinite_neg hfinite)
    rw [value_neg hfinite, ← sub_eq_add_neg]
    exact sub_neg.mpr (not_le.mp hlt)
  rcases hle.eq_or_lt with heq | hlt
  · obtain ⟨hempty, hback⟩ := add_back_of_eq hlevel hquantity heq.symm
    refine ⟨hempty, fun _ => ?_, fun _ => hback⟩
    rintro ⟨l, f, hl, -, -, hlow, -⟩
    rw [heq, sub_self] at hlow
    exact absurd hlow (not_le.mpr (by positivity))
  · obtain ⟨l, f, hl, hparts, hcanonical, hfit, hvalue⟩ :=
      canonical_of_pos hlevel (hpos.trans hlt)
    obtain ⟨hleft, x, t, h, u, hnear, hagain, hback⟩ :=
      add_back_of_lt hlevel hquantity hcanonical hfit hvalue hlt
    have hle : (l : ℚ) * 2 ^ f - value quantity ≤ l * 2 ^ f := sub_le_self _ hpos.le
    have htie := tie_iff hnear hcanonical (exists_least_units hfinite) hpos.le
    refine ⟨hleft, hback.trans ⟨?_, ?_⟩⟩
    · rintro heq ⟨l', f', hl', hparts', hodd, hlow, hhalves⟩
      rw [hparts] at hparts'
      cases hparts'
      rw [hvalue] at hlow
      obtain ⟨rfl, hhalf⟩ := htie.mpr ⟨hlow, hhalves⟩
      exact back_ne hnear hcanonical hle hodd hhalf hagain heq
    · intro hsteady
      have hslip : ¬ (Odd l ∧ t = f ∧
          2 * |(x : ℚ) * 2 ^ t - (l * 2 ^ f - value quantity)| = 2 ^ t) := by
        rintro ⟨hodd, hhalf⟩
        obtain ⟨hlow, hhalves⟩ := htie.mp hhalf
        exact hsteady ⟨l, f, hl, hparts, hodd, hvalue ▸ hlow, hhalves⟩
      obtain ⟨h', u', hagain', heq⟩ := back_eq hnear hcanonical hle hslip
      obtain ⟨rfl, rfl⟩ := hagain.unique hagain'
      exact heq

end SolarBill.Double
