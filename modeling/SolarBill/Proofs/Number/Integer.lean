import SolarBill.Proofs.Number.Order

/-!
# Sums of whole numbers

Whole numbers, of either sign, are added exactly while their absolute values together stay below
`2 ^ 53`, so neither their order nor sums of some of them make a difference (`sum_sort_absorb`).

The value does not say everything about such a sum, as a zero has a sign.  A sum of doubles is the
negative zero only if all of them are (`add_eq_negZero_iff`), and this the order does not change
either.
-/

namespace SolarBill.Double

open Float.Model Float.Model.UnpackedFloat

/-! ### The negative zero -/

/-- The negative zero is known by its parts. -/
theorem eq_negZero_iff {x : Float} : x = -0.0 ↔ parts x = .zero .negative := by
  have hparts : parts (-0.0) = .zero .negative := rfl
  constructor
  · rintro rfl
    exact hparts
  · intro h
    exact parts_injective (h.trans hparts.symm)

/-- Finite numbers that are no zeros have a value other than zero. -/
theorem value_ne_zero {x : Float} {s : Sign} {m : Nat} {e : Int} {hm : 0 < m}
    (h : parts x = .finite s m e hm) : value x ≠ 0 := by
  have hpos : (0 : ℚ) < m * 2 ^ e := by positivity
  rw [← abs_pos, value_of_finite h, abs_apply]
  exact hpos

/-- The doubles of value zero are the two zeros. -/
theorem parts_of_value_zero {x : Float} (hx : x.isFinite) (h : value x = 0) :
    ∃ s, parts x = .zero s := by
  rcases parts_of_isFinite hx with hzero | ⟨s, m, e, hm, hparts, -, -⟩
  · exact hzero
  · exact absurd h (value_ne_zero hparts)

/-- A sum of finite doubles is the negative zero only if both are. -/
theorem add_eq_negZero_iff {x y : Float} (hx : x.isFinite) (hy : y.isFinite)
    (h : Representable (value x + value y)) : x + y = -0.0 ↔ x = -0.0 ∧ y = -0.0 := by
  constructor
  · intro hsum
    have hzero : value x + value y = 0 := by
      rw [← (value_add hx hy h).2, hsum]
      exact value_of_zero (eq_negZero_iff.mp rfl)
    rw [eq_negZero_iff] at hsum ⊢
    rw [eq_negZero_iff]
    rcases parts_of_isFinite hx with ⟨s, hxp⟩ | ⟨s, m, e, hm, hxp, -, -⟩
    · rw [value_of_zero hxp, zero_add] at hzero
      obtain ⟨t, hyp⟩ := parts_of_value_zero hy hzero
      rw [parts_add, hxp, hyp] at hsum
      rw [hxp, hyp]
      cases s <;> cases t <;> first | exact ⟨rfl, rfl⟩ | cases hsum
    · -- Doubles that cancel each other out leave the positive zero.
      rcases parts_of_isFinite hy with ⟨t, hyp⟩ | ⟨t, n, f, hn, hyp, -, -⟩
      · rw [value_of_zero hyp, add_zero] at hzero
        exact absurd hzero (value_ne_zero hxp)
      · obtain ⟨k, hparts, hvalue, -⟩ := parts_add_finite hxp hyp
        have hunit : (2 : ℚ) ^ min e f ≠ 0 := by positivity
        have hk : k = 0 := by
          rw [hzero, mul_eq_zero] at hvalue
          exact_mod_cast hvalue.resolve_right hunit
        rw [hsum, hk] at hparts
        cases hparts.trans (unpack_pack_zero .positive)
  · rintro ⟨rfl, rfl⟩
    exact negZero_add _

/-- Negating twice changes nothing. -/
theorem neg_negated (x : Float) : -(-x) = x := by
  apply parts_injective
  rw [parts_neg, parts_neg]
  rcases parts x with s | _ | s | ⟨s, m, e, hm⟩
  · cases s <;> rfl
  · rfl
  · cases s <;> rfl
  · cases s <;> rfl

/-- A finite double is determined by its value and, if it is a zero, by its sign. -/
theorem eq_of_value_of_negZero {x y : Float} (hx : x.isFinite) (hy : y.isFinite)
    (hvalue : value x = value y) (hzero : x = -0.0 ↔ y = -0.0) : x = y := by
  rcases lt_trichotomy (value x) 0 with hneg | heq | hpos
  · have hopposite : -x = -y := by
      apply eq_of_value (isFinite_neg hx) (isFinite_neg hy)
      · rw [value_neg hx]
        linarith
      · rw [value_neg hx, value_neg hy, hvalue]
    rw [← neg_negated x, ← neg_negated y, hopposite]
  · obtain ⟨s, hxp⟩ := parts_of_value_zero hx heq
    obtain ⟨t, hyp⟩ := parts_of_value_zero hy (hvalue ▸ heq)
    rw [eq_negZero_iff, eq_negZero_iff, hxp, hyp] at hzero
    apply parts_injective
    rw [hxp, hyp]
    cases s <;> cases t
    · rfl
    · cases hzero.mp rfl
    · cases hzero.mpr rfl
    · rfl
  · exact eq_of_value hx hy hpos hvalue

/-! ### Whole numbers -/

/-- A whole number, of either sign. -/
def IsInteger (x : Float) : Prop :=
  x.isFinite ∧ ∃ k : Int, value x = k

/-- The sum of the absolute values. -/
def absSum (xs : List Float) : ℚ :=
  (xs.map fun x => |value x|).sum

/-- The absolute values of the first number and of the others. -/
theorem absSum_cons (x : Float) (rest : List Float) : absSum (x :: rest) = |value x| + absSum rest := by
  rw [absSum, List.map_cons, List.sum_cons, absSum]

theorem absSum_append (xs ys : List Float) : absSum (xs ++ ys) = absSum xs + absSum ys := by
  rw [absSum, List.map_append, List.sum_append, absSum, absSum]

/-- A sum of absolute values does not depend on the order. -/
theorem absSum_perm {xs ys : List Float} (h : xs.Perm ys) : absSum xs = absSum ys :=
  (h.map _).sum_eq

/-- They are not negative. -/
theorem absSum_nonneg (xs : List Float) : 0 ≤ absSum xs := by
  induction xs with
  | nil => exact le_refl 0
  | cons x rest ih =>
      rw [absSum_cons]
      exact add_nonneg (abs_nonneg _) ih

/-- Fewer numbers have the smaller sum of absolute values. -/
theorem absSum_sublist {xs ys : List Float} (h : xs.Sublist ys) : absSum xs ≤ absSum ys := by
  induction h with
  | slnil => exact le_refl _
  | cons x _ ih =>
      rw [absSum_cons]
      exact ih.trans (le_add_of_nonneg_left (abs_nonneg _))
  | cons_cons x _ ih =>
      rw [absSum_cons, absSum_cons]
      exact add_le_add_right ih _

/-- The sum of values is bounded by it. -/
theorem abs_sum_le (xs : List Float) : |(xs.map value).sum| ≤ absSum xs := by
  induction xs with
  | nil => simp [absSum]
  | cons x rest ih =>
      rw [List.map_cons, List.sum_cons, absSum_cons]
      exact (abs_add_le _ _).trans (add_le_add_right ih _)

/-- What a sum of whole numbers is: its value, and its sign if it is a zero. -/
structure SumsTo (xs : List Float) (x : Float) : Prop where
  isInteger : IsInteger x
  value_eq : value x = (xs.map value).sum
  negZero_iff : x = -0.0 ↔ ∀ y ∈ xs, y = -0.0

namespace SumsTo

variable {xs ys : List Float} {x y : Float}

/-- The sum of no numbers is the negative zero, where summation begins. -/
theorem nil : SumsTo [] (-0.0) where
  isInteger := ⟨by decide, 0, by rw [value_of_zero (eq_negZero_iff.mp rfl), Int.cast_zero]⟩
  value_eq := by
    rw [value_of_zero (eq_negZero_iff.mp rfl)]
    rfl
  negZero_iff := by
    simp

/-- One addend more. -/
theorem concat (h : SumsTo xs x) (hy : IsInteger y) (hlt : absSum (xs ++ [y]) < 2 ^ 53) :
    SumsTo (xs ++ [y]) (x + y) := by
  obtain ⟨⟨hxf, k, hk⟩, hvalue, hzero⟩ := h
  obtain ⟨hyf, l, hl⟩ := hy
  have hexact : value x + value y = ((k + l : Int) : ℚ) := by
    rw [hk, hl, Int.cast_add]
  have hsum : value x + value y = ((xs ++ [y]).map value).sum := by
    rw [hvalue, List.map_append, List.sum_append, List.map_singleton, List.sum_singleton]
  have hsmall : (k + l).natAbs < 2 ^ 53 := by
    have habs : |((k + l : Int) : ℚ)| < 2 ^ 53 := by
      rw [← hexact, hsum]
      exact (abs_sum_le _).trans_lt hlt
    have hcast : ((k + l).natAbs : ℚ) < 2 ^ 53 := by
      rw [Nat.cast_natAbs, Int.cast_abs]
      exact habs
    exact_mod_cast hcast
  have hrepresentable : Representable (value x + value y) := by
    rw [hexact]
    exact representable_intCast hsmall
  obtain ⟨hfinite, hadd⟩ := value_add hxf hyf hrepresentable
  refine ⟨⟨hfinite, k + l, hadd.trans hexact⟩, hadd.trans hsum, ?_⟩
  rw [add_eq_negZero_iff hxf hyf hrepresentable, hzero]
  simp only [List.mem_append, List.mem_singleton, or_imp, forall_and, forall_eq]

/-- What numbers sum to does not depend on their order. -/
theorem perm (h : SumsTo xs x) (hperm : xs.Perm ys) : SumsTo ys x where
  isInteger := h.isInteger
  value_eq := h.value_eq.trans (hperm.map value).sum_eq
  negZero_iff := by
    rw [h.negZero_iff]
    simp only [hperm.mem_iff]

/-- There is one such double. -/
theorem unique (hx : SumsTo xs x) (hy : SumsTo xs y) : x = y := by
  apply eq_of_value_of_negZero hx.isInteger.1 hy.isInteger.1
  · rw [hx.value_eq, hy.value_eq]
  · rw [hx.negZero_iff, hy.negZero_iff]

/-- A sum may stand for its addends. -/
theorem expand (hx : SumsTo xs x) (hy : SumsTo (x :: ys) y) : SumsTo (xs ++ ys) y where
  isInteger := hy.isInteger
  value_eq := by
    rw [hy.value_eq, List.map_cons, List.sum_cons, hx.value_eq, List.map_append, List.sum_append]
  negZero_iff := by
    rw [hy.negZero_iff, List.forall_mem_cons, hx.negZero_iff, List.forall_mem_append]

/-- A sum is bounded by the absolute values. -/
theorem abs_le (h : SumsTo xs x) : |value x| ≤ absSum xs := by
  rw [h.value_eq]
  exact abs_sum_le xs

end SumsTo

/-- **Whole numbers are added exactly** while their absolute values together are small. -/
theorem sumsTo_sum {xs : List Float} (h : ∀ x ∈ xs, IsInteger x) (hlt : absSum xs < 2 ^ 53) :
    SumsTo xs (sum xs) := by
  have hfold : ∀ (rest before : List Float) (a : Float), SumsTo before a →
      (∀ x ∈ rest, IsInteger x) → absSum (before ++ rest) < 2 ^ 53 →
      SumsTo (before ++ rest) (rest.foldl (· + ·) a) := by
    intro rest
    induction rest with
    | nil =>
        intro before a ha _ _
        rw [List.append_nil]
        exact ha
    | cons x rest ih =>
        intro before a ha hrest hsmall
        have hsplit : before ++ x :: rest = (before ++ [x]) ++ rest := by
          rw [List.append_assoc, List.singleton_append]
        rw [hsplit] at hsmall ⊢
        rw [absSum_append] at hsmall
        have hnonneg := absSum_nonneg rest
        have hnext := ha.concat (hrest x List.mem_cons_self) (by linarith)
        exact ih (before ++ [x]) (a + x) hnext (fun y hy => hrest y (List.mem_cons_of_mem x hy))
          (by rw [absSum_append]; exact hsmall)
  exact hfold xs [] (-0.0) SumsTo.nil h hlt

/-- Sorting does not matter to such a sum. -/
theorem sumsTo_sum_sort {xs : List Float} (h : ∀ x ∈ xs, IsInteger x) (hlt : absSum xs < 2 ^ 53) :
    SumsTo xs (sum (sort xs)) := by
  have hsorted : SumsTo (sort xs) (sum (sort xs)) := by
    apply sumsTo_sum
    · intro x hx
      exact h x ((sort_perm xs).mem_iff.mp hx)
    · rw [absSum_perm (sort_perm xs)]
      exact hlt
  exact hsorted.perm (sort_perm xs)

/-- **A sum may stand for its addends** among whole numbers. -/
theorem sum_sort_absorb {xs ys : List Float} (h : ∀ x ∈ xs ++ ys, IsInteger x)
    (hlt : absSum (xs ++ ys) < 2 ^ 53) :
    sum (sort (sum (sort xs) :: ys)) = sum (sort (xs ++ ys)) := by
  have hxs : ∀ x ∈ xs, IsInteger x := fun x hx => h x (List.mem_append_left ys hx)
  have hys : ∀ y ∈ ys, IsInteger y := fun y hy => h y (List.mem_append_right xs hy)
  have hsplit := absSum_append xs ys
  have hrest := absSum_nonneg ys
  have hfirst : SumsTo xs (sum (sort xs)) := sumsTo_sum_sort hxs (by linarith)
  have hle := hfirst.abs_le
  have hall : SumsTo (sum (sort xs) :: ys) (sum (sort (sum (sort xs) :: ys))) := by
    apply sumsTo_sum_sort
    · intro x hx
      rcases List.mem_cons.mp hx with rfl | hx
      · exact hfirst.isInteger
      · exact hys x hx
    · rw [absSum_cons]
      linarith
  exact (hfirst.expand hall).unique (sumsTo_sum_sort h hlt)

end SolarBill.Double
