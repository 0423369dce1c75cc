import SolarBill.Proofs.Number.Remark
import SolarBill.Proofs.Number.Scientific
import SolarBill.Proofs.Yaml.Counts

/-!
# Numbers with group marks

A large number is written with a point between groups of three digits, and decimals stand behind a
comma.  Read back, it is the double nearest to the number, whatever unit or remark follows, as long
as that does not go on with the number.

* `grouped`, `withoutPoints_grouped` — the digits of a number in groups;
* `isGrouped_grouped` — its points are seen to be group marks exactly if there are any;
* `front?_whole`, `front?_fraction` — the exact value in front of a text;
* `grouped_number_read` — reading back gives the nearest double.
-/

namespace SolarBill

open Text Double

namespace Locale

open Numeral

/-! ### Writing -/

/-- Three digits of a number below a thousand, with leading zeros. -/
def threeDigits (n : Nat) : List Char :=
  [Nat.digitChar (n / 100), Nat.digitChar (n / 10 % 10), Nat.digitChar (n % 10)]

/-- The digits of a number, with a point between groups of three. -/
def grouped (n : Nat) : List Char :=
  if n < 1000 then Nat.toDigits 10 n
  else grouped (n / 1000) ++ '.' :: threeDigits (n % 1000)
termination_by n
decreasing_by omega

/-- What decimals add to a whole number. -/
def fractionOf : List Char → ℚ
  | [] => 0
  | c :: r => ((c.toNat - '0'.toNat : Nat) + fractionOf r) / 10

/-- What does not go on with a number in front of it: nothing, or a text that begins with neither
a digit nor a mark of decimals, groups or exponents. -/
def Detached (t : List Char) : Prop :=
  ∀ c ∈ t.head?, isDigit c = false ∧ c ≠ '.' ∧ c ≠ ',' ∧ c ≠ 'e' ∧ c ≠ 'E'

/-- Three digits at most need no point. -/
theorem grouped_of_lt {n : Nat} (h : n < 1000) : grouped n = Nat.toDigits 10 n := by
  rw [grouped, if_pos h]

/-- A longer number has its last three digits behind a point. -/
theorem grouped_of_ge {n : Nat} (h : 1000 ≤ n) :
    grouped n = grouped (n / 1000) ++ '.' :: threeDigits (n % 1000) := by
  rw [grouped, if_neg (by omega)]

/-- Without the point these are its last three digits too. -/
theorem toDigits_of_ge {n : Nat} (h : 1000 ≤ n) :
    Nat.toDigits 10 n = Nat.toDigits 10 (n / 1000) ++ threeDigits (n % 1000) := by
  rw [Nat.toDigits_of_base_le (by decide) (show 10 ≤ n by omega),
    Nat.toDigits_of_base_le (by decide) (show 10 ≤ n / 10 by omega),
    Nat.toDigits_of_base_le (by decide) (show 10 ≤ n / 10 / 10 by omega), threeDigits,
    List.append_assoc, List.append_assoc,
    show n / 10 / 10 / 10 = n / 1000 by omega, show n / 10 / 10 % 10 = n % 1000 / 100 by omega,
    show n / 10 % 10 = n % 1000 / 10 % 10 by omega, show n % 10 = n % 1000 % 10 by omega]
  rfl

/-! ### Digits -/

/-- The digits of numerals are ASCII digits with their values. -/
theorem digitValue?_of_ascii {c : Char} (h : c.isDigit = true) :
    digitValue? c = some (c.toNat - '0'.toNat) := by
  rw [Char.isDigit, Bool.and_eq_true, decide_eq_true_eq, decide_eq_true_eq] at h
  have hrange : '0' ≤ c ∧ c ≤ '9' := h
  rw [digitValue?, if_pos hrange]

/-- They are digits. -/
theorem isDigit_of_ascii {c : Char} (h : c.isDigit = true) : isDigit c = true :=
  isDigit_of_digitValue? (digitValue?_of_ascii h)

/-- They are no white space. -/
theorem isSpace_of_ascii {c : Char} (h : c.isDigit = true) : isSpace c = false := by
  rw [Char.isDigit, Bool.and_eq_true, decide_eq_true_eq, decide_eq_true_eq] at h
  have hlow : 48 ≤ c.toNat := h.1
  have hhigh : c.toNat ≤ 57 := h.2
  simp only [isSpace, Bool.or_eq_false_iff, Bool.and_eq_false_iff, decide_eq_false_iff_not,
    beq_eq_false_iff_ne]
  omega

/-- They are no marks. -/
theorem ne_of_ascii {c : Char} (h : c.isDigit = true) (mark : Char)
    (hmark : mark.isDigit = false) : c ≠ mark := by
  rintro rfl
  rw [h] at hmark
  cases hmark

/-- A group consists of digits. -/
theorem ascii_threeDigits {n : Nat} (h : n < 1000) : ∀ c ∈ threeDigits n, c.isDigit = true := by
  intro c hc
  simp only [threeDigits, List.mem_cons, List.not_mem_nil, or_false] at hc
  rcases hc with rfl | rfl | rfl <;> rw [Nat.isDigit_digitChar, decide_eq_true_eq] <;> omega

theorem withoutPoints_append (xs ys : List Char) :
    withoutPoints (xs ++ ys) = withoutPoints xs ++ withoutPoints ys :=
  List.filter_append xs ys

/-- Digits stay when points are left out. -/
theorem withoutPoints_of_ascii {cs : List Char} (h : ∀ c ∈ cs, c.isDigit = true) :
    withoutPoints cs = cs := by
  rw [withoutPoints, List.filter_eq_self]
  intro c hc
  exact bne_iff_ne.mpr (ne_of_ascii (h c hc) '.' (by decide))

/-- **Without its points** the number is written in plain digits. -/
theorem withoutPoints_grouped (n : Nat) : withoutPoints (grouped n) = Nat.toDigits 10 n := by
  induction n using Nat.strongRecOn with
  | ind n ih =>
      rcases Nat.lt_or_ge n 1000 with hlt | hge
      · rw [grouped_of_lt hlt, withoutPoints_of_ascii (Yaml.isDigit_toDigits n)]
      · have hpoint : ∀ cs, withoutPoints ('.' :: cs) = withoutPoints cs := fun cs =>
          List.filter_cons_of_neg (by decide)
        rw [grouped_of_ge hge, withoutPoints_append, ih (n / 1000) (by omega), hpoint,
          withoutPoints_of_ascii (ascii_threeDigits (by omega)), toDigits_of_ge hge]

/-- A grouped number consists of digits and points. -/
theorem mem_grouped {n : Nat} {c : Char} (hc : c ∈ grouped n) : c.isDigit = true ∨ c = '.' := by
  by_cases hpoint : c = '.'
  · exact Or.inr hpoint
  · left
    apply Yaml.isDigit_toDigits n
    rw [← withoutPoints_grouped]
    exact List.mem_filter.mpr ⟨hc, bne_iff_ne.mpr hpoint⟩

/-! ### Group marks -/

/-- Digits are taken up to what is no digit. -/
theorem takeDigits_of_digits {ds t : List Char} (hds : ∀ c ∈ ds, isDigit c = true)
    (ht : ∀ c ∈ t.head?, isDigit c = false) : takeDigits (ds ++ t) = (ds, t) := by
  have hnone : t.takeWhile isDigit = [] ∧ t.dropWhile isDigit = t := by
    cases t with
    | nil => exact ⟨rfl, rfl⟩
    | cons c r =>
        have hc := ht c rfl
        exact ⟨List.takeWhile_cons_of_neg (by simp [hc]), List.dropWhile_cons_of_neg (by simp [hc])⟩
  rw [takeDigits, List.takeWhile_append_of_pos hds, List.dropWhile_append_of_pos hds, hnone.1,
    hnone.2, List.append_nil]

/-- Where a group of three digits may end: before another one, or before the end of the number. -/
def GroupEnd (t : List Char) : Prop :=
  (∃ r, t = '.' :: r ∧ groups r = true) ∨ ∀ c ∈ t.head?, isDigit c = false ∧ c ≠ ',' ∧ c ≠ '.'

/-- Behind a group there is no digit. -/
theorem GroupEnd.not_digit {t : List Char} (h : GroupEnd t) : ∀ c ∈ t.head?, isDigit c = false := by
  rcases h with ⟨r, rfl, -⟩ | h
  · rintro c ⟨rfl⟩
    decide
  · exact fun c hc => (h c hc).1

/-- Three digits at the end of a group are a group. -/
theorem groups_threeDigits {n : Nat} (hn : n < 1000) {t : List Char} (h : GroupEnd t) :
    groups (threeDigits n ++ t) = true := by
  have hdigit : ∀ c ∈ threeDigits n, isDigit c = true :=
    fun c hc => isDigit_of_ascii (ascii_threeDigits hn c hc)
  simp only [threeDigits, List.forall_mem_cons] at hdigit
  obtain ⟨ha, hb, hc, -⟩ := hdigit
  rw [threeDigits]
  rcases h with ⟨r, rfl, hr⟩ | h
  · simp [groups, ha, hb, hc, hr]
  · cases t with
    | nil => simp [groups, ha, hb, hc]
    | cons d r =>
        obtain ⟨hd, hcomma, hpoint⟩ := h d rfl
        simp [groups, ha, hb, hc, hd, hcomma]

/-- The digits up to the first point, and what is behind them. -/
theorem takeDigits_grouped (n : Nat) {t : List Char} (h : GroupEnd t) :
    ∃ whole rest, takeDigits (grouped n ++ t) = (whole, rest) ∧ 1 ≤ whole.length ∧
      whole.length ≤ 3 ∧ (n < 1000 → rest = t) ∧
      (1000 ≤ n → ∃ r, rest = '.' :: r ∧ groups r = true) := by
  induction n using Nat.strongRecOn generalizing t with
  | ind n ih =>
      rcases Nat.lt_or_ge n 1000 with hlt | hge
      · have hdigits : ∀ c ∈ Nat.toDigits 10 n, isDigit c = true :=
          fun c hc => isDigit_of_ascii (Yaml.isDigit_toDigits n c hc)
        rw [grouped_of_lt hlt]
        exact ⟨_, _, takeDigits_of_digits hdigits h.not_digit, Nat.length_toDigits_pos,
          (Nat.length_toDigits_le_iff (by decide) (by decide)).mpr hlt, fun _ => rfl, by omega⟩
      · have hgroups := groups_threeDigits (show n % 1000 < 1000 by omega) h
        have hend : GroupEnd ('.' :: (threeDigits (n % 1000) ++ t)) := Or.inl ⟨_, rfl, hgroups⟩
        obtain ⟨whole, rest, htake, hone, hthree, hsmall, hlarge⟩ := ih (n / 1000) (by omega) hend
        rw [grouped_of_ge hge, List.append_assoc, List.cons_append]
        refine ⟨whole, rest, htake, hone, hthree, by omega, fun _ => ?_⟩
        rcases Nat.lt_or_ge (n / 1000) 1000 with hlt | hge
        · exact ⟨_, hsmall hlt, hgroups⟩
        · exact hlarge hge

/-! ### What follows the number -/

namespace Detached

variable {t u : List Char}

/-- What is detached does not begin with a digit. -/
theorem not_digit (h : Detached t) : ∀ c ∈ t.head?, isDigit c = false :=
  fun c hc => (h c hc).1

/-- It ends a group. -/
theorem groupEnd (h : Detached t) : GroupEnd t :=
  Or.inr fun c hc => ⟨(h c hc).1, (h c hc).2.2.1, (h c hc).2.1⟩

/-- Its beginning is detached too. -/
theorem shorten (h : Detached u) (hstart : t <+: u) : Detached t := by
  intro c hc
  obtain ⟨r, rfl⟩ := List.head?_eq_some_iff.mp hc
  obtain ⟨s, rfl⟩ := hstart
  exact h c rfl

/-- Taking points out leaves the first character, as it is none. -/
theorem withoutPoints (h : Detached t) : Detached (withoutPoints t) := by
  cases t with
  | nil => exact h
  | cons c r =>
      have hc := h c rfl
      have hkept : Locale.withoutPoints (c :: r) = c :: Locale.withoutPoints r :=
        List.filter_cons_of_pos (bne_iff_ne.mpr hc.2.1)
      rw [hkept]
      rintro d ⟨rfl⟩
      exact hc

/-- So does turning commas into points. -/
theorem map_decimal (h : Detached t) :
    Detached (t.map fun c => if c == ',' then '.' else c) := by
  cases t with
  | nil => exact h
  | cons c r =>
      have hc := h c rfl
      rw [List.map_cons, if_neg (by simpa using hc.2.2.1)]
      rintro d ⟨rfl⟩
      exact hc

/-- It does not begin with an exponent. -/
theorem takeScale (h : Detached t) : takeScale t = (none, t) := by
  cases t with
  | nil => rfl
  | cons c r =>
      obtain ⟨-, -, -, hsmall, hlarge⟩ := h c rfl
      simp [Numeral.takeScale, hsmall, hlarge]

/-- A point does not follow, so there are no decimals. -/
theorem takeMantissa_whole {ds : List Char} (h : Detached t) (hds : ∀ c ∈ ds, isDigit c = true)
    (hne : ds ≠ []) : takeMantissa (ds ++ t) = some ((ds, []), t) := by
  obtain ⟨a, r, rfl⟩ := List.exists_cons_of_ne_nil hne
  rw [takeMantissa, takeDigits_of_digits hds h.not_digit]
  cases t with
  | nil => rfl
  | cons c r =>
      have hpoint := (h c rfl).2.1
      simp [hpoint]

/-- A mantissa with digits on both sides of its point. -/
theorem takeMantissa_fraction {ds fs : List Char} (h : Detached t)
    (hds : ∀ c ∈ ds, isDigit c = true) (hne : ds ≠ []) (hfs : ∀ c ∈ fs, isDigit c = true) :
    takeMantissa (ds ++ '.' :: (fs ++ t)) = some ((ds, fs), t) := by
  have hpoint : ∀ c ∈ ('.' :: (fs ++ t)).head?, isDigit c = false := by
    rintro c ⟨rfl⟩
    decide
  obtain ⟨a, r, rfl⟩ := List.exists_cons_of_ne_nil hne
  rw [takeMantissa, takeDigits_of_digits hds hpoint]
  simp only [takeDigits_of_digits hfs h.not_digit]

end Detached

/-- The signs that may stand in front of a number. -/
def signs : List (List Char) :=
  [[], ['+'], ['-']]

/-- A sign in front of a digit is taken, and it is a minus or it is none. -/
theorem takeSign_of_digit {sign cs : List Char} (hsign : sign ∈ signs)
    (hcs : ∃ c ∈ cs.head?, c.isDigit = true) : takeSign (sign ++ cs) = (sign == ['-'], cs) := by
  obtain ⟨c, hc, hdigit⟩ := hcs
  obtain ⟨r, rfl⟩ := List.head?_eq_some_iff.mp hc
  have hplus := ne_of_ascii hdigit '+' (by decide)
  have hminus := ne_of_ascii hdigit '-' (by decide)
  simp only [signs, List.mem_cons, List.not_mem_nil, or_false] at hsign
  rcases hsign with rfl | rfl | rfl
  · simp [takeSign, hplus, hminus]
  · rfl
  · rfl

theorem head?_toDigits_append (n : Nat) (t : List Char) :
    ∃ c ∈ (Nat.toDigits 10 n ++ t).head?, c.isDigit = true := by
  obtain ⟨c, r, hdigits⟩ := List.exists_cons_of_ne_nil (Nat.toDigits_ne_nil (n := n) (b := 10))
  rw [hdigits]
  exact ⟨c, rfl, Yaml.isDigit_toDigits n c (hdigits ▸ List.mem_cons_self)⟩

theorem head?_grouped_append (n : Nat) (t : List Char) :
    ∃ c ∈ (grouped n ++ t).head?, c.isDigit = true := by
  induction n using Nat.strongRecOn generalizing t with
  | ind n ih =>
      rcases Nat.lt_or_ge n 1000 with hlt | hge
      · rw [grouped_of_lt hlt]
        exact head?_toDigits_append n t
      · rw [grouped_of_ge hge, List.append_assoc]
        exact ih (n / 1000) (by omega) _

/-- **Points are group marks** exactly if there are any. -/
theorem isGrouped_grouped {sign : List Char} (hsign : sign ∈ signs) (n : Nat) {t : List Char}
    (h : Detached t) : isGrouped (sign ++ (grouped n ++ t)) = decide (1000 ≤ n) := by
  obtain ⟨whole, rest, htake, hone, hthree, hsmall, hlarge⟩ := takeDigits_grouped n h.groupEnd
  rw [isGrouped, takeSign_of_digit hsign (head?_grouped_append n t), htake]
  rcases Nat.lt_or_ge n 1000 with hlt | hge
  · rw [hsmall hlt, decide_eq_false (by omega)]
    cases t with
    | nil => rfl
    | cons c r =>
        have hpoint := (h c rfl).2.1
        simp [hpoint]
  · obtain ⟨r, rfl, hgroups⟩ := hlarge hge
    simp [hone, hthree, hgroups, hge]

/-! ### The value -/

/-- Decimals add to the value what they stand for at their places. -/
theorem foldl_digits {ds : List Char} (hds : ∀ c ∈ ds, c.isDigit = true) (n : Nat) :
    ∃ k : Nat, ds.foldl (fun acc c => acc.bind fun v => (digitValue? c).map (10 * v + ·))
        (some n) = some k ∧ (k : ℚ) * 10 ^ (-(ds.length : Int)) = n + fractionOf ds := by
  induction ds generalizing n with
  | nil => exact ⟨n, rfl, by simp [fractionOf]⟩
  | cons c r ih =>
      rw [List.forall_mem_cons] at hds
      obtain ⟨k, hfold, hvalue⟩ := ih hds.2 (10 * n + (c.toNat - '0'.toNat))
      refine ⟨k, ?_, ?_⟩
      · rw [List.foldl_cons, Option.bind_some, digitValue?_of_ascii hds.1, Option.map_some]
        exact hfold
      · have hpower : (10 : ℚ) ^ (-((c :: r).length : Int)) = 10 ^ (-(r.length : Int)) / 10 := by
          rw [List.length_cons, Nat.cast_succ, neg_add, zpow_add₀ (by norm_num)]
          norm_num
          ring
        rw [hpower, ← mul_div_assoc, hvalue, fractionOf]
        push_cast
        ring

/-- The digits of a number, and decimals behind them, have the value of the decimal fraction. -/
theorem digitsValue?_append {ds : List Char} (hds : ∀ c ∈ ds, c.isDigit = true) (n : Nat) :
    ∃ k : Nat, digitsValue? (Nat.toDigits 10 n ++ ds) = some k ∧
      (k : ℚ) * 10 ^ (-(ds.length : Int)) = n + fractionOf ds := by
  rw [digitsValue?, List.foldl_append, Yaml.foldl_toDigits (by decide)]
  exact foldl_digits hds n

/-- A number is written in digits. -/
theorem isDigit_toDigits (n : Nat) : ∀ c ∈ Nat.toDigits 10 n, isDigit c = true :=
  fun c hc => isDigit_of_ascii (Yaml.isDigit_toDigits n c hc)

section Front

variable {sign t : List Char}

/-- A whole number in front of a text. -/
theorem front?_whole (hsign : sign ∈ signs) (n : Nat) (h : Detached t) :
    front? (sign ++ (Nat.toDigits 10 n ++ t)) = some ⟨sign == ['-'], n, 0⟩ := by
  have hvalue : digitsValue? (Nat.toDigits 10 n) = some n := Yaml.foldl_toDigits (by decide) n
  simp only [front?, leading?, takeSign_of_digit hsign (head?_toDigits_append n t),
    h.takeMantissa_whole (isDigit_toDigits n) Nat.toDigits_ne_nil]
  simp [h.takeScale, toDecimal?, hvalue]

/-- A number with decimals in front of a text. -/
theorem front?_fraction (hsign : sign ∈ signs) (n : Nat) {ds : List Char}
    (hds : ∀ c ∈ ds, c.isDigit = true) (h : Detached t) :
    ∃ k : Nat, front? (sign ++ (Nat.toDigits 10 n ++ '.' :: (ds ++ t))) =
        some ⟨sign == ['-'], k, -ds.length⟩ ∧
      (k : ℚ) * 10 ^ (-(ds.length : Int)) = n + fractionOf ds := by
  obtain ⟨k, hdigits, hvalue⟩ := digitsValue?_append hds n
  refine ⟨k, ?_, hvalue⟩
  simp only [front?, leading?, takeSign_of_digit hsign (head?_toDigits_append n _),
    h.takeMantissa_fraction (isDigit_toDigits n) Nat.toDigits_ne_nil
      fun c hc => isDigit_of_ascii (hds c hc)]
  simp [h.takeScale, toDecimal?, hdigits]

/-! ### Reading -/

/-- There is no comma in a grouped number. -/
theorem not_comma_of_mem (hsign : sign ∈ signs) (n : Nat) : ',' ∉ sign ++ grouped n := by
  rw [List.mem_append, not_or]
  refine ⟨?_, fun hmem => ?_⟩
  · revert sign
    decide
  · rcases mem_grouped hmem with hdigit | hpoint
    · exact absurd hdigit (by decide)
    · exact absurd hpoint (by decide)

/-- There is no white space in it either. -/
theorem isSpace_of_mem (hsign : sign ∈ signs) (n : Nat) :
    ∀ c ∈ sign ++ grouped n, isSpace c = false := by
  intro c hc
  rcases List.mem_append.mp hc with hmem | hmem
  · have hsigns : ∀ sign ∈ signs, ∀ c ∈ sign, isSpace c = false := by
      simp [signs, isSpace]
    exact hsigns sign hsign c hmem
  · rcases mem_grouped hmem with hdigit | rfl
    · exact isSpace_of_ascii hdigit
    · decide

/-- A sign has no points. -/
theorem withoutPoints_sign (hsign : sign ∈ signs) : withoutPoints sign = sign := by
  revert sign
  decide

/-- Without a comma, what is left of a number in groups is a number in plain digits. -/
theorem normalise_whole (hsign : sign ∈ signs) (n : Nat) (h : Detached t) (hcomma : ',' ∉ t) :
    ∃ r, normalise (sign ++ grouped n ++ t) = sign ++ (Nat.toDigits 10 n ++ r) ∧ Detached r := by
  have hnone : ',' ∉ sign ++ grouped n ++ t := by
    rw [List.mem_append]
    exact not_or.mpr ⟨not_comma_of_mem hsign n, hcomma⟩
  rw [normalise_of_no_comma hnone, List.append_assoc, isGrouped_grouped hsign n h]
  rcases Nat.lt_or_ge n 1000 with hlt | hge
  · rw [if_neg (by simpa using hlt), grouped_of_lt hlt]
    exact ⟨t, rfl, h⟩
  · rw [if_pos (decide_eq_true hge), withoutPoints_append, withoutPoints_append,
      withoutPoints_sign hsign, withoutPoints_grouped]
    exact ⟨_, rfl, h.withoutPoints⟩

/-- A comma turns into the point. -/
theorem normalise_fraction (hsign : sign ∈ signs) (n : Nat) {ds : List Char}
    (hds : ∀ c ∈ ds, c.isDigit = true) (h : Detached t) :
    ∃ r, normalise (sign ++ grouped n ++ ',' :: ds ++ t) =
      sign ++ (Nat.toDigits 10 n ++ '.' :: (ds ++ r)) ∧ Detached r := by
  have hmem : ',' ∈ sign ++ grouped n ++ ',' :: ds ++ t := by simp
  have hdigits : ∀ {cs : List Char}, (∀ c ∈ cs, c.isDigit = true) →
      cs.map (fun c => if c == ',' then '.' else c) = cs :=
    fun hcs => map_decimal_of_no_comma fun hmem => ne_of_ascii (hcs _ hmem) ',' (by decide) rfl
  have hsigns : ∀ sign ∈ signs, sign.map (fun c => if c == ',' then '.' else c) = sign := by
    decide
  have hcomma : withoutPoints (',' :: ds ++ t) = ',' :: (ds ++ withoutPoints t) := by
    rw [List.cons_append, ← withoutPoints_of_ascii hds, ← withoutPoints_append,
      withoutPoints_of_ascii hds]
    exact List.filter_cons_of_pos (by decide)
  refine ⟨_, ?_, h.withoutPoints.map_decimal⟩
  rw [normalise_of_comma hmem, List.append_assoc, withoutPoints_append, withoutPoints_append,
    withoutPoints_sign hsign, withoutPoints_grouped, hcomma, List.map_append, List.map_append,
    List.map_cons, List.map_append, hsigns sign hsign, hdigits (Yaml.isDigit_toDigits n),
    hdigits hds, List.append_assoc]
  rfl

end Front

section Exact

variable {sign u : String}

/-- A grouped number is not empty. -/
theorem ne_nil_of_grouped (sign : List Char) (n : Nat) : sign ++ grouped n ≠ [] := by
  obtain ⟨c, hc, -⟩ := head?_grouped_append n []
  intro hnil
  rw [List.append_nil, (List.append_eq_nil_iff.mp hnil).2] at hc
  cases hc

/-- The exact value of a whole number in groups. -/
theorem decimal?_whole (hsign : sign.toList ∈ signs) (n : Nat) (hu : Detached u.toList)
    (hcomma : ',' ∉ u.toList) :
    decimal? (sign ++ String.ofList (grouped n) ++ u) = some ⟨sign.toList == ['-'], n, 0⟩ := by
  have htext : (sign ++ String.ofList (grouped n) ++ u).toList =
      sign.toList ++ grouped n ++ u.toList := by
    simp [String.toList_append]
  have hend := prefix_trimEnd u.toList
  obtain ⟨r, hnormal, hr⟩ := normalise_whole hsign n (hu.shorten hend)
    fun hmem => hcomma (hend.subset hmem)
  rw [decimal?_eq, htext,
    trimChars_append (ne_nil_of_grouped sign.toList n) (isSpace_of_mem hsign n), hnormal,
    front?_whole hsign n hr]

/-- The exact value of a number in groups, with decimals. -/
theorem decimal?_fraction (hsign : sign.toList ∈ signs) (n : Nat) {d : String}
    (hd : ∀ c ∈ d.toList, c.isDigit = true) (hu : Detached u.toList) :
    ∃ k : Nat, decimal? (sign ++ String.ofList (grouped n) ++ "," ++ d ++ u) =
        some ⟨sign.toList == ['-'], k, -d.toList.length⟩ ∧
      (k : ℚ) * 10 ^ (-(d.toList.length : Int)) = n + fractionOf d.toList := by
  have htext : (sign ++ String.ofList (grouped n) ++ "," ++ d ++ u).toList =
      sign.toList ++ grouped n ++ ',' :: d.toList ++ u.toList := by
    simp [String.toList_append]
  have hspace : ∀ c ∈ sign.toList ++ grouped n ++ ',' :: d.toList, isSpace c = false := by
    intro c hc
    rw [List.mem_append, List.mem_cons] at hc
    rcases hc with hmem | rfl | hmem
    · exact isSpace_of_mem hsign n c hmem
    · decide
    · exact isSpace_of_ascii (hd c hmem)
  obtain ⟨r, hnormal, hr⟩ :=
    normalise_fraction hsign n hd (hu.shorten (prefix_trimEnd u.toList))
  obtain ⟨k, hfront, hvalue⟩ := front?_fraction hsign n hd hr
  refine ⟨k, ?_, hvalue⟩
  rw [decimal?_eq, htext, trimChars_append (by simp) hspace, hnormal, hfront]

end Exact

/-- What is read is the double nearest to the exact value, unless that is infinite. -/
theorem number?_of_decimal {text : String} {exact : Decimal} (h : decimal? text = some exact) :
    ∃ x, NearestDouble exact.negative (exact.mantissa * 10 ^ exact.exponent) x ∧
      number? text = if x.isFinite then some x else none := by
  refine ⟨exact.toFloat, exact.toFloat_nearest, ?_⟩
  rw [number?, h, Option.map_some, Option.filter_some]

/-- **Numbers with group marks are read back.**  A whole number, with a sign or none, is written
with a point between groups of three digits, and perhaps with a comma and decimals.  Let something
follow that does not go on with the number and, if there are no decimals, has no comma.  What is
read is the double nearest to the number, and nothing exactly if that is infinite. -/
theorem grouped_number_read (sign : String) (hsign : sign ∈ ["", "+", "-"]) (n : Nat) (u : String)
    (hu : Detached u.toList) :
    (',' ∉ u.toList → ∃ x, NearestDouble (sign == "-") n x ∧
      number? (sign ++ String.ofList (grouped n) ++ u) = if x.isFinite then some x else none) ∧
    ∀ d : String, (∀ c ∈ d.toList, c.isDigit = true) →
      ∃ x, NearestDouble (sign == "-") (n + fractionOf d.toList) x ∧
        number? (sign ++ String.ofList (grouped n) ++ "," ++ d ++ u) =
          if x.isFinite then some x else none := by
  have hchars : sign.toList ∈ signs ∧ (sign.toList == ['-']) = (sign == "-") := by
    simp only [List.mem_cons, List.not_mem_nil, or_false] at hsign
    rcases hsign with rfl | rfl | rfl <;> exact ⟨by decide, by decide⟩
  obtain ⟨hsigns, hnegative⟩ := hchars
  rw [← hnegative]
  constructor
  · intro hcomma
    have hresult := number?_of_decimal (decimal?_whole hsigns n hu hcomma)
    rwa [zpow_zero, mul_one] at hresult
  · intro d hd
    obtain ⟨k, hread, hvalue⟩ := decimal?_fraction hsigns n hd hu
    have hresult := number?_of_decimal hread
    rwa [hvalue] at hresult

/-- A length in millimetres, without decimals and with one. -/
theorem grouped_number_read_millimetres :
    "-" ∈ ["", "+", "-"] ∧ Detached " mm".toList ∧ ',' ∉ " mm".toList ∧
      (∀ c ∈ "5".toList, c.isDigit = true) ∧
      number? "-1.250.000 mm" = some (-1250000.0) ∧
      NearestDouble true 1250000 (-1250000.0) ∧
      number? "-1.250.000,5 mm" = some (-1250000.5) ∧
      NearestDouble true (1250000 + 1 / 2) (-1250000.5) := by
  have hgrouped : grouped 1250000 = "1.250.000".toList := by
    rw [grouped_of_ge (by decide), grouped_of_ge (by decide), grouped_of_lt (by decide)]
    rfl
  have hunit : Detached " mm".toList := by
    rintro c ⟨rfl⟩
    decide
  have hdigit : ∀ c ∈ "5".toList, c.isDigit = true := by
    simp
  have hwhole : number? "-1.250.000 mm" = some (-1250000.0) := by
    decide
  have hhalf : number? "-1.250.000,5 mm" = some (-1250000.5) := by
    decide
  obtain ⟨hplain, hdecimals⟩ := grouped_number_read "-" (by decide) 1250000 " mm" hunit
  obtain ⟨x, hx, hxread⟩ := hplain (by decide)
  obtain ⟨y, hy, hyread⟩ := hdecimals "5" hdigit
  rw [hgrouped] at hxread hyread
  have hxtext : number? "-1.250.000 mm" = if x.isFinite then some x else none := hxread
  have hytext : number? "-1.250.000,5 mm" = if y.isFinite then some y else none := hyread
  rw [hwhole] at hxtext
  rw [hhalf] at hytext
  have hxvalue : x = -1250000.0 := by
    split_ifs at hxtext
    exact (Option.some.inj hxtext).symm
  have hyvalue : y = -1250000.5 := by
    split_ifs at hytext
    exact (Option.some.inj hytext).symm
  have hfraction : fractionOf "5".toList = 1 / 2 := by
    change ((5 : Nat) + 0 : ℚ) / 10 = 1 / 2
    norm_num
  subst hxvalue hyvalue
  rw [hfraction] at hy
  exact ⟨by decide, hunit, by decide, hdigit, hwhole, hx, hhalf, hy⟩

end Locale

end SolarBill
