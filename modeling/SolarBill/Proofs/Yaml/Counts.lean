import Mathlib.Algebra.Group.Nat.Defs
import SolarBill.Proofs.Yaml.Words

/-!
# Counts are read back

The digits of a natural number are a plain text (`plainText_toDigits`), and what they mean is the
number, if it fits an integer (`Meaning.of_toDigits`): they have no sign, no leading zero and no
mark of another base.
-/

namespace SolarBill.Yaml

open Print Scalar

/-! ### Digits -/

/-- A positive number has no leading zero. -/
theorem head?_toDigits {n : Nat} (h : 0 < n) : (Nat.toDigits 10 n).head? ≠ some '0' := by
  induction n using Nat.strongRecOn with
  | ind n ih =>
      rw [Nat.toDigits_eq_if (by decide)]
      by_cases hlt : n < 10
      · have hall : ∀ i : Fin 10, 0 < i.val → [Nat.digitChar i].head? ≠ some '0' := by
          decide
        rw [if_pos hlt]
        exact hall ⟨n, hlt⟩ h
      · have hrest := ih (n / 10) (by omega) (by omega)
        rw [if_neg hlt]
        cases hdigits : Nat.toDigits 10 (n / 10) with
        | nil => exact absurd hdigits Nat.toDigits_ne_nil
        | cons c cs =>
            rw [hdigits] at hrest
            exact hrest

/-- A number is written in ASCII digits. -/
theorem isDigit_toDigits (n : Nat) : ∀ c ∈ Nat.toDigits 10 n, c.isDigit = true :=
  fun _ hc => Nat.isDigit_of_mem_toDigits (by decide) (by decide) hc

/-- Digits may stand in words. -/
theorem wordChars_toDigits (n : Nat) : ∀ c ∈ Nat.toDigits 10 n, isWordChar c = true := by
  intro c hc
  rw [isWordChar, isDigit_toDigits n c hc, Bool.or_true, Bool.true_or]

/-- Digits stand as they are. -/
theorem plainText_toDigits (n : Nat) : PlainText (Nat.toDigits 10 n) :=
  plainText_of_wordChars Nat.toDigits_ne_nil (wordChars_toDigits n)

/-- A number is written without a sign. -/
theorem takeSign_toDigits (n : Nat) :
    Numeral.takeSign (Nat.toDigits 10 n) = (false, Nat.toDigits 10 n) :=
  takeSign_of_wordChars (wordChars_toDigits n)

/-! ### The meaning of digits -/

/-- Whoever knows the ten digits reads the number back. -/
theorem foldl_toDigits {f : Char → Option Nat} (hf : ∀ d < 10, f (Nat.digitChar d) = some d)
    (n : Nat) :
    (Nat.toDigits 10 n).foldl (fun acc c => acc.bind fun v => (f c).map (10 * v + ·)) (some 0) =
      some n := by
  induction n using Nat.strongRecOn with
  | ind n ih =>
      rw [Nat.toDigits_eq_if (by decide)]
      by_cases hlt : n < 10
      · rw [if_pos hlt, List.foldl_cons, List.foldl_nil, Option.bind_some, hf n hlt,
          Option.map_some]
        congr 1
        omega
      · rw [if_neg hlt, List.foldl_append, ih (n / 10) (by omega), List.foldl_cons, List.foldl_nil,
          Option.bind_some, hf (n % 10) (by omega), Option.map_some]
        congr 1
        omega

/-- Digits are read as the number that they write. -/
theorem readInt?_toDigits (n : Nat) :
    readInt? 10 (String.ofList (Nat.toDigits 10 n)) = some (n : Int) := by
  rw [readInt?, String.toList_ofList, takeSign_toDigits n]
  cases hdigits : Nat.toDigits 10 n with
  | nil => exact absurd hdigits Nat.toDigits_ne_nil
  | cons c cs =>
      simp only
      rw [← hdigits, foldl_toDigits]
      · rfl
      · decide

/-- No number is padded with zeros. -/
theorem isZeroPadded_toDigits (n : Nat) :
    isZeroPadded (String.ofList (Nat.toDigits 10 n)) = false := by
  rw [isZeroPadded, String.toList_ofList, takeSign_toDigits n]
  by_cases hpos : 0 < n
  · have hhead := head?_toDigits hpos
    split
    · next heq =>
        simp only at heq
        rw [heq] at hhead
        exact absurd rfl hhead
    · rfl
  · rw [Nat.eq_zero_of_not_pos hpos, Nat.toDigits_zero]
    rfl

/-- The digits are read as a natural number. -/
theorem naturalOfChars?_toDigits (n : Nat) : naturalOfChars? (Nat.toDigits 10 n) = some n := by
  have hnatural : naturalOfChars?.natural? 10 (Nat.toDigits 10 n) = some n := by
    have hread := readInt?_toDigits n
    have hdigit := isDigit_toDigits n
    unfold naturalOfChars?.natural?
    split
    · next heq =>
        rw [heq] at hdigit
        exact absurd (hdigit _ List.mem_cons_self) (by decide)
    · next heq =>
        rw [heq] at hdigit
        exact absurd (hdigit _ List.mem_cons_self) (by decide)
    · rw [hread]
      rfl
  have hmark : ∀ c ds, c.isDigit = false → Nat.toDigits 10 n ≠ '0' :: c :: ds := by
    intro c ds hc heq
    have hdigit := isDigit_toDigits n c (by simp [heq])
    rw [hc] at hdigit
    cases hdigit
  unfold naturalOfChars?
  split
  · next heq => exact absurd heq (hmark _ _ (by decide))
  · next heq => exact absurd heq (hmark _ _ (by decide))
  · next heq => exact absurd heq (hmark _ _ (by decide))
  · exact hnatural

/-- Numbers that fit are read as integers. -/
theorem integer?_toDigits {n : Nat} (h : n < 2 ^ 128) :
    integer? (String.ofList (Nat.toDigits 10 n)) = some (n : Int) := by
  have hfits : fitsInteger n = true := by
    simp only [fitsInteger, Bool.and_eq_true, decide_eq_true_eq]
    omega
  rw [integer?, isZeroPadded_toDigits, if_neg Bool.false_ne_true, String.toList_ofList,
    takeSign_toDigits n]
  simp only
  rw [naturalOfChars?_toDigits]
  change (some (n : Int)).filter fitsInteger = some (n : Int)
  rw [Option.filter_some, if_pos hfits]

/-- **Digits mean the number** that they write. -/
theorem Meaning.of_toDigits {n : Nat} (h : n < 2 ^ 128) :
    Meaning.of (String.ofList (Nat.toDigits 10 n)) = .integer n := by
  have hword : ∀ word : String, word.toList.all Char.isDigit = false →
      String.ofList (Nat.toDigits 10 n) ≠ word := by
    rintro word hnot rfl
    rw [String.toList_ofList, List.all_eq_false] at hnot
    obtain ⟨c, hc, hdigit⟩ := hnot
    exact hdigit (isDigit_toDigits n c hc)
  have hempty : (String.ofList (Nat.toDigits 10 n)).isEmpty = false := by
    rw [String.isEmpty_eq_false_iff]
    simp
  have hnull : isNullWord (String.ofList (Nat.toDigits 10 n)) = false := by
    simp [isNullWord, hword]
  have hflag : flagWord? (String.ofList (Nat.toDigits 10 n)) = none := by
    simp [flagWord?, hword]
  rw [Meaning.of, hempty, hnull, hflag, integer?_toDigits h]
  rfl

end SolarBill.Yaml
