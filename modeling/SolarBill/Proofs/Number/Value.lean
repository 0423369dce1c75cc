import SolarBill.Proofs.Number.Rounding

/-!
# The exact value of a double

A finite double stands for a rational number, `value`.  Sums of doubles are rounded, but some things
are known of them without a look at the rounding, and these are what quantities of a bill need:

* `value_add` — when the exact sum is itself the value of a double, it is the computed one;
* `add_pos` — a sum of doubles above zero is above zero, whatever rounding and overflow do;
* `add_not_le_zero` — the same with not-a-number among the addends: the sum is not zero or below;
* `sum_induction` — what adding two doubles keeps, a sum of many keeps.

A double that is not zero or below compares equal to itself only (`eq_of_beq`), as there is no
second zero among them; not-a-number compares equal to nothing.
-/

namespace SolarBill.Double

open Float.Model Float.Model.UnpackedFloat

/-- The parts of a double. -/
def parts (x : Float) : UnpackedFloat :=
  x.toModel.unpack

/-- The exact value of a finite double; zero for infinities and not-a-number. -/
def value (x : Float) : ℚ :=
  match parts x with
  | .finite s m e _ => s.apply m * 2 ^ e
  | _ => 0

/-- The value of a finite number. -/
theorem value_of_finite {x : Float} {s : Sign} {m : Nat} {e : Int} {hm : 0 < m}
    (h : parts x = .finite s m e hm) : value x = s.apply m * 2 ^ e := by
  rw [value, h]

/-- A zero of either sign has the value zero. -/
theorem value_of_zero {x : Float} {s : Sign} (h : parts x = .zero s) : value x = 0 := by
  rw [value, h]

/-! ### A double and its parts -/

/-- A double is known by its parts. -/
theorem parts_injective {x y : Float} (h : parts x = parts y) : x = y := by
  cases x with
  | ofModel a =>
      cases y with
      | ofModel b =>
          have hab : a.unpack = b.unpack := h
          rw [← pack_unpack a, hab, pack_unpack b]

/-- The parts of a sum. -/
theorem parts_add (x y : Float) :
    parts (x + y) =
      (Float.Model.pack (UnpackedFloat.add Format.binary64 (parts x) (parts y))).unpack :=
  rfl

/-- Packing the parts of a double and taking them apart again changes nothing. -/
theorem unpack_pack_parts (x : Float) : (Float.Model.pack (parts x)).unpack = parts x := by
  rw [parts, pack_unpack]

/-- A zero is packed and taken out again. -/
theorem unpack_pack_zero (s : Sign) : (Float.Model.pack (.zero s)).unpack = .zero s :=
  unpack_zero s

/-- The parts of a finite double: a zero, or canonical ones that fit. -/
theorem parts_of_isFinite {x : Float} (h : x.isFinite) :
    (∃ s, parts x = .zero s) ∨
      ∃ s m e, ∃ hm : 0 < m, parts x = .finite s m e hm ∧ Canonical m e ∧ e ≤ 971 := by
  change (parts x).isFinite at h
  cases hx : parts x with
  | notANumber => simp [hx, UnpackedFloat.isFinite] at h
  | infinity s => simp [hx, UnpackedFloat.isFinite] at h
  | zero s => exact Or.inl ⟨s, rfl⟩
  | finite s m e hm => exact Or.inr ⟨s, m, e, hm, rfl, canonical_of_unpack hx⟩

/-- A zero is finite. -/
theorem isFinite_of_zero {x : Float} {s : Sign} (h : parts x = .zero s) : x.isFinite := by
  change (parts x).isFinite
  rw [h, UnpackedFloat.isFinite]

theorem isFinite_of_finite {x : Float} {s : Sign} {m : Nat} {e : Int} {hm : 0 < m}
    (h : parts x = .finite s m e hm) : x.isFinite := by
  change (parts x).isFinite
  rw [h, UnpackedFloat.isFinite]

/-! ### Sign changes -/

/-- The parts of the negated double. -/
theorem parts_neg (x : Float) : parts (-x) = (parts x).neg := by
  change (Float.Model.pack (parts x).neg).unpack = _
  cases hx : parts x with
  | notANumber => rw [UnpackedFloat.neg, ← hx, unpack_pack_parts]
  | infinity s => exact unpack_infinity _
  | zero s => exact unpack_pack_zero _
  | finite s m e hm =>
      obtain ⟨hcanonical, hmax⟩ := canonical_of_unpack hx
      exact unpack_pack hcanonical hmax

/-- Negation keeps doubles finite. -/
theorem isFinite_neg {x : Float} (h : x.isFinite) : (-x).isFinite := by
  have hparts := parts_neg x
  rcases parts_of_isFinite h with ⟨s, hx⟩ | ⟨s, m, e, hm, hx, -, -⟩ <;> rw [hx] at hparts
  · exact isFinite_of_zero hparts
  · exact isFinite_of_finite hparts

/-- Negation changes the sign. -/
theorem apply_neg (s : Sign) (n : Int) : (-s).apply n = -s.apply n := by
  cases s with
  | negative => exact (neg_neg n).symm
  | positive => rfl

/-- It negates the value. -/
theorem value_neg {x : Float} (h : x.isFinite) : value (-x) = -value x := by
  have hparts := parts_neg x
  rcases parts_of_isFinite h with ⟨s, hx⟩ | ⟨s, m, e, hm, hx, -, -⟩ <;> rw [hx] at hparts
  · rw [value_of_zero hx, value_of_zero hparts, neg_zero]
  · rw [value_of_finite hx, value_of_finite hparts, apply_neg]
    push_cast
    ring

/-! ### Comparison with zero -/

/-- The order of doubles is that of their parts. -/
theorem lt_iff (x y : Float) : x < y ↔ (parts x).lt (parts y) = true := by
  change decide ((parts x).lt (parts y) = true) = true ↔ _
  exact decide_eq_true_iff

/-- The literal is the positive zero. -/
theorem parts_literal_zero : parts 0.0 = .zero .positive :=
  rfl

/-- A finite double is below zero when its value is. -/
theorem lt_zero_iff {x : Float} (h : x.isFinite) : x < 0.0 ↔ value x < 0 := by
  rw [lt_iff, parts_literal_zero]
  rcases parts_of_isFinite h with ⟨s, hx⟩ | ⟨s, m, e, hm, hx, -, -⟩
  · rw [value_of_zero hx, hx]
    simp [UnpackedFloat.lt, UnpackedFloat.compare]
  · rw [value_of_finite hx, hx]
    have hpos : (0 : ℚ) < m * 2 ^ e := by positivity
    cases s with
    | positive => simp [UnpackedFloat.lt, UnpackedFloat.compare, Sign.apply, hpos.le]
    | negative => simp [UnpackedFloat.lt, UnpackedFloat.compare, Sign.apply, hpos]

/-- It is above zero when its value is. -/
theorem zero_lt_iff {x : Float} (h : x.isFinite) : 0.0 < x ↔ 0 < value x := by
  rw [lt_iff, parts_literal_zero]
  rcases parts_of_isFinite h with ⟨s, hx⟩ | ⟨s, m, e, hm, hx, -, -⟩
  · rw [value_of_zero hx, hx]
    simp [UnpackedFloat.lt, UnpackedFloat.compare]
  · rw [value_of_finite hx, hx]
    have hpos : (0 : ℚ) < m * 2 ^ e := by positivity
    cases s with
    | positive => simp [UnpackedFloat.lt, UnpackedFloat.compare, Sign.apply, hpos]
    | negative => simp [UnpackedFloat.lt, UnpackedFloat.compare, Sign.apply, hpos.le]

/-- The doubles above zero: positive infinity and the finite ones with a positive sign. -/
theorem pos_iff {x : Float} :
    0.0 < x ↔ parts x = .infinity .positive ∨ ∃ m e hm, parts x = .finite .positive m e hm := by
  rw [lt_iff, parts_literal_zero]
  cases hx : parts x with
  | notANumber => simp [UnpackedFloat.lt, UnpackedFloat.compare]
  | infinity s => cases s <;> simp [UnpackedFloat.lt, UnpackedFloat.compare]
  | zero s => simp [UnpackedFloat.lt, UnpackedFloat.compare]
  | finite s m e hm => cases s <;> simp [UnpackedFloat.lt, UnpackedFloat.compare, hm]

/-- What is not zero or less is above zero, or not a number. -/
theorem not_le_zero_iff {x : Float} : ¬ x ≤ 0.0 ↔ 0.0 < x ∨ parts x = .notANumber := by
  have hle : x ≤ 0.0 ↔ (parts x).le (.zero .positive) = true := by
    change decide ((parts x).le (parts 0.0) = true) = true ↔ _
    rw [decide_eq_true_iff, parts_literal_zero]
  rw [hle, lt_iff, parts_literal_zero]
  cases parts x with
  | notANumber => simp [UnpackedFloat.le, UnpackedFloat.compare]
  | infinity s => cases s <;> simp [UnpackedFloat.le, UnpackedFloat.lt, UnpackedFloat.compare]
  | zero s => simp [UnpackedFloat.le, UnpackedFloat.lt, UnpackedFloat.compare]
  | finite s m e hm =>
      cases s <;> simp [UnpackedFloat.le, UnpackedFloat.lt, UnpackedFloat.compare]

/-- Doubles compare equal when their parts do. -/
theorem beq_iff (x y : Float) : (x == y) = true ↔ (parts x).compare (parts y) = some .eq := by
  change ((parts x).compare (parts y) == some .eq) = true ↔ _
  exact beq_iff_eq

/-- What is above zero is not zero or less. -/
theorem not_le_zero_of_pos {x : Float} (h : 0.0 < x) : ¬ x ≤ 0.0 :=
  not_le_zero_iff.mpr (Or.inl h)

/-- Doubles that are not zero or below are equal if they compare equal; not-a-number does not even
compare equal to itself. -/
theorem eq_of_beq {x y : Float} (hx : ¬ x ≤ 0.0) (h : (x == y) = true) : x = y := by
  rw [beq_iff] at h
  apply parts_injective
  rcases not_le_zero_iff.mp hx with hx | hx
  · rcases pos_iff.mp hx with hx | ⟨m, e, hm, hx⟩ <;> rw [hx] at h ⊢
    · rcases hy : parts y with s | _ | s | ⟨s, m', e', hm'⟩ <;> rw [hy] at h
      · cases s with
        | negative => simp [UnpackedFloat.compare, compare] at h
        | positive => rfl
      all_goals simp [UnpackedFloat.compare] at h
    · rcases hy : parts y with s | _ | s | ⟨s, m', e', hm'⟩ <;> rw [hy] at h
      · cases s <;> simp [UnpackedFloat.compare] at h
      · simp [UnpackedFloat.compare] at h
      · simp [UnpackedFloat.compare] at h
      · cases s with
        | negative => simp [UnpackedFloat.compare] at h
        | positive =>
            simp only [UnpackedFloat.compare, Option.some.injEq, Ordering.then_eq_eq,
              Int.compare_eq_eq, Nat.compare_eq_eq] at h
            obtain ⟨rfl, rfl⟩ := h
            rfl
  · rw [hx] at h
    simp [UnpackedFloat.compare] at h

/-- What is above zero compares equal to itself. -/
theorem beq_self {x : Float} (hx : 0.0 < x) : (x == x) = true := by
  rw [beq_iff]
  rcases pos_iff.mp hx with h | ⟨m, e, hm, h⟩ <;> rw [h]
  · rfl
  · simp [UnpackedFloat.compare]

/-! ### Sums -/

/-- Lowering the exponent of signed parts keeps their value. -/
theorem apply_decreaseExponent (s : Sign) (m : Nat) {e t : Int} (h : t ≤ e) :
    (s.apply (decreaseExponent m e t).1 : ℚ) * 2 ^ t = s.apply m * 2 ^ e := by
  obtain ⟨n, rfl⟩ := Int.le.dest h
  have hn : (t + n - t).toNat = n := by omega
  simp only [decreaseExponent, hn, Nat.shiftLeft_eq]
  rw [zpow_add₀ two_ne_zero, zpow_natCast]
  cases s <;> simp only [Sign.apply] <;> push_cast <;> ring

/-- Rounding a signed whole number at an admissible exponent: the result is canonical, has the
sign of the number, and is exact when the number is short. -/
theorem normalize_spec {n e : Int} (hn : n ≠ 0) (he : -1074 ≤ e) (zero : Sign) :
    ∃ s m' e', ∃ hm' : 0 < m',
      UnpackedFloat.normalize Format.binary64 n e zero = .finite s m' e' hm' ∧
      Canonical m' e' ∧ (0 < n → s = .positive) ∧
      (Short n.natAbs → (s.apply m' : ℚ) * 2 ^ e' = n * 2 ^ e) := by
  rcases lt_or_gt_of_ne hn with hneg | hpos
  · obtain ⟨m', e', hm', hround, hcanonical, hvalue⟩ :=
      round_spec (s := .negative) (m := (-n).toNat) (by omega) he
    refine ⟨.negative, m', e', hm', ?_, hcanonical, by omega, fun hshort => ?_⟩
    · rw [UnpackedFloat.normalize, Int.compare_eq_lt.mpr hneg]
      exact hround
    · have habs : n.natAbs = (-n).toNat := by omega
      have hcast : (((-n).toNat : Nat) : ℚ) = -n := by
        rw [← Int.cast_natCast, Int.toNat_of_nonneg (by omega)]
        push_cast
        ring
      have := hvalue (habs ▸ hshort)
      rw [hcast] at this
      simp only [Sign.apply]
      push_cast
      linarith
  · obtain ⟨m', e', hm', hround, hcanonical, hvalue⟩ :=
      round_spec (s := .positive) (m := n.toNat) (by omega) he
    refine ⟨.positive, m', e', hm', ?_, hcanonical, fun _ => rfl, fun hshort => ?_⟩
    · rw [UnpackedFloat.normalize, Int.compare_eq_gt.mpr hpos]
      exact hround
    · have habs : n.natAbs = n.toNat := by omega
      have hcast : ((n.toNat : Nat) : ℚ) = n := by
        rw [← Int.cast_natCast, Int.toNat_of_nonneg (by omega)]
      have := hvalue (habs ▸ hshort)
      rw [hcast] at this
      simpa only [Sign.apply, Int.cast_natCast] using this

/-- The sum of two doubles other than zero is a normalized whole number. -/
theorem parts_add_finite {x y : Float} {s t : Sign} {m n : Nat} {e f : Int}
    {hm : 0 < m} {hn : 0 < n} (hx : parts x = .finite s m e hm) (hy : parts y = .finite t n f hn) :
    ∃ k : Int, parts (x + y) = (Float.Model.pack
        (UnpackedFloat.normalize Format.binary64 k (min e f) .positive)).unpack ∧
      (k : ℚ) * 2 ^ min e f = value x + value y ∧ (s = .positive → t = .positive → 0 < k) := by
  refine ⟨s.apply (decreaseExponent m e (min e f)).1 + t.apply (decreaseExponent n f (min e f)).1,
    ?_, ?_, ?_⟩
  · rw [parts_add, hx, hy]
    rfl
  · rw [value_of_finite hx, value_of_finite hy]
    push_cast
    rw [add_mul, apply_decreaseExponent s m (min_le_left e f),
      apply_decreaseExponent t n (min_le_right e f)]
  · rintro rfl rfl
    have hpos : 0 < m <<< (e - min e f).toNat := by
      rw [Nat.shiftLeft_eq]
      positivity
    simp only [Sign.apply, decreaseExponent]
    exact add_pos_of_pos_of_nonneg (Int.natCast_pos.mpr hpos) (Int.natCast_nonneg _)

/-- A number that is the value of a double. -/
def Representable (q : ℚ) : Prop :=
  ∃ (k : Nat) (f : Int), k < 2 ^ 53 ∧ -1074 ≤ f ∧ f ≤ 971 ∧ |q| = k * 2 ^ f

/-- Whole numbers below 2 ^ 53 are represented. -/
theorem representable_intCast {k : Int} (h : k.natAbs < 2 ^ 53) : Representable k :=
  ⟨k.natAbs, 0, h, by norm_num, by norm_num, by simp [Nat.cast_natAbs]⟩

/-- The absolute value of a number is its mantissa at its exponent. -/
theorem abs_apply (s : Sign) (m : Nat) (e : Int) :
    |((s.apply m : Int) : ℚ) * 2 ^ e| = m * 2 ^ e := by
  have hpos : (0 : ℚ) < 2 ^ e := by positivity
  rw [abs_mul, abs_of_pos hpos]
  cases s <;> simp [Sign.apply]

/-- Canonical parts of a representable value have an exponent that fits. -/
theorem Canonical.le_of_representable {s : Sign} {m : Nat} {e : Int} (h : Canonical m e)
    (hr : Representable ((s.apply m : Int) * 2 ^ e)) : e ≤ 971 := by
  by_contra hgt
  obtain ⟨k, f, hk, -, hf, heq⟩ := hr
  rw [abs_apply] at heq
  have hnormal : 2 ^ 52 ≤ m := h.normal.resolve_right (by omega)
  obtain ⟨n, hn⟩ := Int.le.dest (show f + 1 ≤ e by omega)
  have hmk : m * 2 ^ (n + 1) = k := by
    have hpos : (0 : ℚ) < 2 ^ f := by positivity
    rw [← hn, add_assoc, zpow_add₀ two_ne_zero, add_comm 1, ← Nat.cast_succ, zpow_natCast] at heq
    have : (m : ℚ) * 2 ^ (n + 1) = k := by
      apply mul_right_cancel₀ hpos.ne'
      rw [← heq, Nat.succ_eq_add_one]
      ring
    exact_mod_cast this
  have hlow : 2 ^ 52 * 2 ^ 1 ≤ m * 2 ^ (n + 1) :=
    Nat.mul_le_mul hnormal (Nat.pow_le_pow_right (by norm_num) (by omega))
  omega

/-- **Exact sums.**  A sum whose exact value is that of a double is computed exactly. -/
theorem value_add {x y : Float} (hx : x.isFinite) (hy : y.isFinite)
    (h : Representable (value x + value y)) :
    (x + y).isFinite ∧ value (x + y) = value x + value y := by
  rcases parts_of_isFinite hx with ⟨s, hx⟩ | ⟨s, m, e, hm, hx, hxc, hxf⟩
  · rcases parts_of_isFinite hy with ⟨t, hy⟩ | ⟨t, n, f, hn, hy, hyc, hyf⟩
    · have hsum : ∃ u, parts (x + y) = .zero u := by
        rw [parts_add, hx, hy, UnpackedFloat.add]
        split_ifs <;> exact ⟨_, unpack_pack_zero _⟩
      obtain ⟨u, hsum⟩ := hsum
      rw [value_of_zero hx, value_of_zero hy, add_zero]
      exact ⟨isFinite_of_zero hsum, value_of_zero hsum⟩
    · have hsum : x + y = y := by
        apply parts_injective
        rw [parts_add, hx, hy]
        exact unpack_pack hyc hyf
      rw [value_of_zero hx, zero_add, hsum]
      exact ⟨isFinite_of_finite hy, rfl⟩
  · rcases parts_of_isFinite hy with ⟨t, hy⟩ | ⟨t, n, f, hn, hy, hyc, -⟩
    · have hsum : x + y = x := by
        apply parts_injective
        rw [parts_add, hx, hy]
        exact unpack_pack hxc hxf
      rw [value_of_zero hy, add_zero, hsum]
      exact ⟨isFinite_of_finite hx, rfl⟩
    · obtain ⟨k, hsum, hvalue, -⟩ := parts_add_finite hx hy
      rw [← hvalue] at h ⊢
      -- A sum of zero has no leading bit to normalise.
      rcases eq_or_ne k 0 with rfl | hk
      · have hzero : parts (x + y) = .zero .positive := hsum.trans (unpack_pack_zero _)
        exact ⟨isFinite_of_zero hzero, by rw [value_of_zero hzero]; simp⟩
      · have hleast : -1074 ≤ min e f := le_min hxc.least hyc.least
        obtain ⟨u, m', e', hm', hnorm, hcanonical, -, hexact⟩ :=
          normalize_spec hk hleast .positive
        -- The sum is representable, so normalising it loses no bit.
        have hshort : Short k.natAbs := by
          obtain ⟨l, g, hl, -, -, heq⟩ := h
          apply short_of_eq (e := min e f) (f := g) (by omega) hl
          rw [← heq, abs_mul, abs_of_pos (by positivity : (0 : ℚ) < 2 ^ min e f),
            Nat.cast_natAbs, Int.cast_abs]
        have hfit := hcanonical.le_of_representable (s := u) (by rw [hexact hshort]; exact h)
        rw [hnorm, unpack_pack hcanonical hfit] at hsum
        exact ⟨isFinite_of_finite hsum, (value_of_finite hsum).trans (hexact hshort)⟩

/-- A sum of doubles above zero is above zero. -/
theorem add_pos {x y : Float} (hx : 0.0 < x) (hy : 0.0 < y) : 0.0 < x + y := by
  rw [pos_iff]
  rcases pos_iff.mp hx with hx | ⟨m, e, hm, hx⟩
  · left
    rcases pos_iff.mp hy with hy | ⟨n, f, hn, hy⟩
    all_goals
      rw [parts_add, hx, hy]
      exact unpack_infinity .positive
  · rcases pos_iff.mp hy with hy | ⟨n, f, hn, hy⟩
    · left
      rw [parts_add, hx, hy]
      exact unpack_infinity .positive
    · obtain ⟨k, hsum, -, hpos⟩ := parts_add_finite hx hy
      have hk := hpos rfl rfl
      have hleast : -1074 ≤ min e f :=
        le_min (canonical_of_unpack hx).1.least (canonical_of_unpack hy).1.least
      obtain ⟨u, m', e', hm', hnorm, hcanonical, hsign, -⟩ :=
        normalize_spec hk.ne' hleast .positive
      obtain rfl := hsign hk
      rw [hnorm] at hsum
      rcases le_or_gt e' 971 with hfit | hover
      · exact Or.inr ⟨m', e', hm', hsum.trans (unpack_pack hcanonical hfit)⟩
      · exact Or.inl (hsum.trans (unpack_pack_overflow hcanonical hover))

/-- A sum with not-a-number is not a number. -/
theorem parts_add_notANumber {x y : Float} (h : parts x = .notANumber ∨ parts y = .notANumber) :
    parts (x + y) = .notANumber := by
  have hadd : UnpackedFloat.add Format.binary64 (parts x) (parts y) = .notANumber := by
    rcases h with h | h <;> rw [h]
    · cases parts y <;> rfl
    · cases parts x <;> rfl
  rw [parts_add, hadd]
  rfl

/-- Not-a-number and the doubles above zero are closed under addition. -/
theorem add_not_le_zero {x y : Float} (hx : ¬ x ≤ 0.0) (hy : ¬ y ≤ 0.0) : ¬ x + y ≤ 0.0 := by
  rw [not_le_zero_iff] at hx hy ⊢
  rcases hx with hx | hx
  · rcases hy with hy | hy
    · exact Or.inl (add_pos hx hy)
    · exact Or.inr (parts_add_notANumber (Or.inr hy))
  · exact Or.inr (parts_add_notANumber (Or.inl hx))

/-- The start of a sum changes no addend, not even a zero or not-a-number. -/
theorem negZero_add (x : Float) : -0.0 + x = x := by
  apply parts_injective
  rw [parts_add, show parts (-0.0) = .zero .negative from rfl]
  have hadd : UnpackedFloat.add Format.binary64 (.zero .negative) (parts x) = parts x := by
    rcases parts x with s | _ | s | ⟨s, m, e, hm⟩
    · rfl
    · rfl
    · cases s <;> rfl
    · rfl
  rw [hadd, unpack_pack_parts]

/-- Adding two doubles does not depend on their order. -/
theorem add_commutes (x y : Float) : x + y = y + x := by
  apply parts_injective
  rw [parts_add, parts_add]
  have hadd : UnpackedFloat.add Format.binary64 (parts x) (parts y) =
      UnpackedFloat.add Format.binary64 (parts y) (parts x) := by
    rcases parts x with s | _ | s | ⟨s, m, e, hm⟩ <;>
      rcases parts y with t | _ | t | ⟨t, n, f, hn⟩
    case infinity.infinity => cases s <;> cases t <;> rfl
    case zero.zero => cases s <;> cases t <;> rfl
    case finite.finite =>
      simp only [UnpackedFloat.add, min_comm f e]
      rw [Int.add_comm]
    all_goals rfl
  rw [hadd]

/-- What holds of all addends and is kept by adding two holds of a sum that is not empty. -/
theorem sum_induction {P : Float → Prop} (hadd : ∀ x y, P x → P y → P (x + y)) {xs : List Float}
    (hne : xs ≠ []) (h : ∀ x ∈ xs, P x) : P (sum xs) := by
  have hfold : ∀ (ys : List Float) (a : Float), P a → (∀ y ∈ ys, P y) → P (ys.foldl (· + ·) a) := by
    intro ys
    induction ys with
    | nil => intro a ha _; exact ha
    | cons y rest ih =>
        intro a ha hys
        exact ih (a + y) (hadd a y ha (hys y List.mem_cons_self))
          (fun z hz => hys z (List.mem_cons_of_mem y hz))
  cases xs with
  | nil => exact absurd rfl hne
  | cons x rest =>
      rw [sum, List.foldl_cons, negZero_add]
      exact hfold rest x (h x List.mem_cons_self) (fun y hy => h y (List.mem_cons_of_mem x hy))

/-- Sorting rearranges the numbers. -/
theorem sort_perm (xs : List Float) : (sort xs).Perm xs :=
  List.mergeSort_perm xs _

theorem sum_sort_singleton (x : Float) : sum (sort [x]) = x := by
  rw [sort, List.mergeSort_singleton, sum, List.foldl_cons, List.foldl_nil, negZero_add]

/-- Two doubles may be sorted before they are added up. -/
theorem sum_sort_pair (x y : Float) : sum (sort [x, y]) = x + y := by
  rcases List.perm_pair.mp (sort_perm [x, y]) with hsort | hsort
  · rw [hsort, sum, List.foldl_cons, List.foldl_cons, List.foldl_nil, negZero_add]
  · rw [hsort, sum, List.foldl_cons, List.foldl_cons, List.foldl_nil, negZero_add, add_commutes]

/-- A positive double is above zero. -/
theorem pos_of_isPositive {x : Float} (h : isPositive x = true) : 0.0 < x := by
  rw [isPositive, Bool.and_eq_true, decide_eq_true_eq] at h
  exact h.2

/-- What is not zero or below, and finite, is above zero. -/
theorem isPositive_iff_isFinite {x : Float} (h : ¬ x ≤ 0.0) : isPositive x = true ↔ x.isFinite := by
  rw [isPositive, Bool.and_eq_true, decide_eq_true_eq]
  refine ⟨And.left, fun hfinite => ⟨hfinite, ?_⟩⟩
  rcases not_le_zero_iff.mp h with hpos | hnan
  · exact hpos
  · change (parts x).isFinite at hfinite
    rw [hnan] at hfinite
    exact absurd hfinite (by simp [UnpackedFloat.isFinite])

/-- A double is positive when it is finite and its value is. -/
theorem isPositive_iff {x : Float} : isPositive x = true ↔ x.isFinite ∧ 0 < value x := by
  rw [isPositive, Bool.and_eq_true, decide_eq_true_eq]
  exact and_congr_right zero_lt_iff

end SolarBill.Double
