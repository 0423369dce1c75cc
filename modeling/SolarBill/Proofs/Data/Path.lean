import SolarBill.Settings.Path
import Mathlib

/-!
# Paths are read back

A path is written as its first name, and behind it names after a point and places in brackets.  It is
read back step by step: a name ends where the next mark stands, and a place ends at its bracket.  So
paths with different steps are written differently.

* `PathStep.stepsFrom_chars` — the steps behind the first one are read back;
* `PathStep.ofText?_text` — a path is read back;
* `PathStep.text_inj` — a written path tells its steps.
-/

namespace SolarBill.PathStep

/-- A step behind the first one, with its mark. -/
def chars : PathStep → List Char
  | .field name => '.' :: name.toList
  | .index place => '[' :: ((toString place).toList ++ [']'])

/-- A name stands behind a point. -/
@[simp] theorem chars_field (name : String) : chars (.field name) = '.' :: name.toList := rfl

/-- A place stands in brackets. -/
@[simp] theorem chars_index (n : Nat) :
    chars (.index n) = '[' :: ((toString n).toList ++ [']']) := rfl

/-- A path as it is written. -/
def text (first : String) (steps : List PathStep) : String :=
  String.ofList (first.toList ++ steps.flatMap chars)

/-- A name of a path: not empty, and without marks. -/
def IsName (name : String) : Prop :=
  name.toList ≠ [] ∧ name.toList.all isNameChar = true

instance (name : String) : Decidable (IsName name) :=
  inferInstanceAs (Decidable (_ ∧ _))

/-- A step that is read as it is written. -/
def Readable : PathStep → Prop
  | .field name => IsName name
  | .index _ => True

/-! ### Names and places -/

/-- What follows a name is no part of it. -/
def EndsName (rest : List Char) : Prop :=
  rest.takeWhile isNameChar = []

/-- What follows a name begins with a point or a bracket. -/
theorem endsName_chars (steps : List PathStep) : EndsName (steps.flatMap chars) := by
  cases steps with
  | nil => rfl
  | cons step rest => cases step <;> rfl

theorem name?_append {name : String} (h : IsName name) {rest : List Char} (hrest : EndsName rest) :
    name? (name.toList ++ rest) = some (name, rest) := by
  obtain ⟨hne, hall⟩ := h
  have hchars : ∀ c ∈ name.toList, isNameChar c = true := List.all_eq_true.mp hall
  have hdrop : rest.dropWhile isNameChar = rest := by
    have hsplit := List.takeWhile_append_dropWhile (p := isNameChar) (l := rest)
    rwa [hrest, List.nil_append] at hsplit
  rw [name?, List.takeWhile_append_of_pos hchars, List.dropWhile_append_of_pos hchars, hrest,
    List.append_nil, hdrop]
  cases hname : name.toList with
  | nil => exact absurd hname hne
  | cons c cs => simp only [← hname, String.ofList_toList]

/-- A number is written in digits. -/
theorem isDigit_toString (n : Nat) : ∀ c ∈ (toString n).toList, c.isDigit = true := by
  intro c hc
  rw [Nat.toString_eq_repr, Nat.toList_repr] at hc
  exact Nat.isDigit_of_mem_toDigits (by decide) (by decide) hc

theorem toString_ne_nil (n : Nat) : (toString n).toList ≠ [] := by
  rw [Nat.toString_eq_repr, Nat.toList_repr]
  exact Nat.toDigits_ne_nil

/-- The digits of a place, up to the bracket. -/
theorem digits_append (n : Nat) (rest : List Char) :
    ((toString n).toList ++ ']' :: rest).takeWhile Char.isDigit = (toString n).toList ∧
      ((toString n).toList ++ ']' :: rest).dropWhile Char.isDigit = ']' :: rest := by
  have hdigits := isDigit_toString n
  rw [List.takeWhile_append_of_pos hdigits, List.dropWhile_append_of_pos hdigits]
  exact ⟨List.append_nil _, rfl⟩

/-- The digits of a number are read as this number. -/
theorem foldl_digits (n : Nat) :
    (toString n).toList.foldl (fun n c => 10 * n + (c.toNat - '0'.toNat)) 0 = n := by
  rw [Nat.toString_eq_repr, Nat.toList_repr]
  exact Nat.ofDigitChars_ten_toDigits

/-- A place is read up to its bracket, with its sign. -/
theorem place?_append (place : Int) (rest : List Char) :
    place? ((toString place).toList ++ ']' :: rest) = some (place, rest) := by
  cases place with
  | ofNat n =>
      obtain ⟨htake, hdrop⟩ := digits_append n rest
      have hvalue := foldl_digits n
      change place? ((toString n).toList ++ ']' :: rest) = some (Int.ofNat n, rest)
      cases hdigits : (toString n).toList with
      | nil => exact absurd hdigits (toString_ne_nil n)
      | cons c cs =>
          rw [hdigits] at htake hdrop hvalue
          rw [place?, htake, hdrop]
          · simp only [hvalue]
            rfl
          · intro ds hminus
            have hdigit := isDigit_toString n c (by rw [hdigits]; exact List.mem_cons_self)
            rw [(List.cons.inj hminus).1] at hdigit
            exact absurd hdigit (by decide)
  | negSucc n =>
      obtain ⟨htake, hdrop⟩ := digits_append (n + 1) rest
      have hvalue := foldl_digits (n + 1)
      have hminus : (toString (Int.negSucc n)).toList = '-' :: (toString (n + 1)).toList := by
        change ("-" ++ toString (n + 1)).toList = _
        rw [String.toList_append]
        rfl
      cases hdigits : (toString (n + 1)).toList with
      | nil => exact absurd hdigits (toString_ne_nil (n + 1))
      | cons c cs =>
          rw [hdigits] at htake hdrop hvalue hminus
          rw [hminus, List.cons_append, place?, htake, hdrop]
          simp only [hvalue]
          rfl

/-! ### Steps -/

/-- The steps behind the first one are read back, if at least as many may be read as there are
characters. -/
theorem stepsFrom_chars {steps : List PathStep} (h : ∀ step ∈ steps, step.Readable) {fuel : Nat}
    (hfuel : (steps.flatMap chars).length ≤ fuel) :
    stepsFrom fuel (steps.flatMap chars) = some steps := by
  induction steps generalizing fuel with
  | nil => cases fuel <;> rfl
  | cons step rest ih =>
      obtain ⟨hstep, hrest⟩ := List.forall_mem_cons.mp h
      cases fuel with
      | zero => cases step <;> simp [chars] at hfuel
      | succ fuel =>
          have hlength : (rest.flatMap chars).length ≤ fuel := by
            rw [List.flatMap_cons, List.length_append] at hfuel
            have hmark : 0 < step.chars.length := by cases step <;> exact Nat.succ_pos _
            omega
          have hread := ih hrest hlength
          cases step with
          | field name =>
              rw [List.flatMap_cons, chars, List.cons_append, stepsFrom,
                name?_append hstep (endsName_chars rest), Option.bind_eq_bind, Option.bind_some]
              simp only [hread]
              rfl
          | index place =>
              rw [List.flatMap_cons, chars, List.cons_append, List.append_assoc, stepsFrom,
                List.singleton_append, place?_append place, Option.bind_eq_bind, Option.bind_some]
              simp only [hread]
              rfl

/-- **A path is read back.** -/
theorem ofText?_text {first : String} {steps : List PathStep} (hfirst : IsName first)
    (h : ∀ step ∈ steps, step.Readable) :
    ofText? (text first steps) = some (.field first :: steps) := by
  have hread := stepsFrom_chars h le_rfl
  rw [ofText?, text, String.toList_ofList, name?_append hfirst (endsName_chars steps),
    Option.bind_eq_bind, Option.bind_some]
  simp only [hread]
  rfl

/-- **A written path tells its steps.** -/
theorem text_inj {first other : String} {steps others : List PathStep} (hfirst : IsName first)
    (h : ∀ step ∈ steps, step.Readable) (hother : IsName other)
    (hothers : ∀ step ∈ others, step.Readable) :
    text first steps = text other others ↔ first = other ∧ steps = others := by
  constructor
  · intro heq
    have hread := ofText?_text hfirst h
    rw [heq, ofText?_text hother hothers] at hread
    simpa [eq_comm] using hread
  · rintro ⟨rfl, rfl⟩
    rfl

end SolarBill.PathStep
