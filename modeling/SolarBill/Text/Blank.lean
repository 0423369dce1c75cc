/-!
# Blank text

Identifiers and attribute values come from people and from documents that drifted over the
years, so a text made of white space only counts as no text at all.  White space is the Unicode
property of that name, not the ASCII set: a no-break space left behind by a spreadsheet is blank,
a zero-width space is not.

* `trim` drops white space at both ends and nothing else;
* `isBlank` holds exactly of texts that `trim` empties (`isBlank_iff_trim`).
-/

namespace SolarBill.Text

/-- The characters with the Unicode property *White_Space*. -/
def isSpace (c : Char) : Bool :=
  let n := c.toNat
  (0x9 ≤ n && n ≤ 0xD) || n == 0x20 || n == 0x85 || n == 0xA0 || n == 0x1680 ||
    (0x2000 ≤ n && n ≤ 0x200A) || n == 0x2028 || n == 0x2029 || n == 0x202F || n == 0x205F ||
    n == 0x3000

/-- Drop white space at the front. -/
def trimStart (cs : List Char) : List Char :=
  cs.dropWhile isSpace

/-- Drop white space at both ends. -/
def trimChars (cs : List Char) : List Char :=
  (trimStart (trimStart cs).reverse).reverse

/-- The text without the white space at its ends. -/
def trim (s : String) : String :=
  String.ofList (trimChars s.toList)

/-- A blank text holds white space only. -/
def isBlank (s : String) : Bool :=
  s.toList.all isSpace

/-- An identifier that names something: present and not blank. -/
def nonBlank? (id : Option String) : Option String :=
  id.filter fun s => !isBlank s

/-- A name that is not blank. -/
theorem nonBlank?_eq_some_iff {id : Option String} {name : String} :
    nonBlank? id = some name ↔ id = some name ∧ isBlank name = false := by
  simp [nonBlank?, Option.filter_eq_some_iff]

/-- Every white space character that core knows is one here. -/
theorem isSpace_of_isWhitespace {c : Char} (h : c.isWhitespace = true) : isSpace c = true := by
  simp only [Char.isWhitespace, Bool.or_eq_true, decide_eq_true_eq] at h
  rcases h with ((rfl | rfl) | rfl) | rfl <;> decide

/-- Nothing is left of a text of white space. -/
theorem trimStart_eq_nil_iff {cs : List Char} : trimStart cs = [] ↔ cs.all isSpace = true := by
  induction cs with
  | nil => simp [trimStart]
  | cons c r ih =>
    by_cases h : isSpace c = true
    · simp only [trimStart, List.dropWhile_cons, h, if_true, List.all_cons, Bool.true_and]
      exact ih
    · simp [trimStart, h]

/-- Nothing that ends in a visible character is trimmed away. -/
theorem trimStart_reverse_eq_nil {cs : List Char} (h : trimStart (trimStart cs).reverse = []) :
    trimStart cs = [] := by
  rw [trimStart_eq_nil_iff, List.all_reverse, ← trimStart_eq_nil_iff] at h
  induction cs with
  | nil => rfl
  | cons c r ih =>
    by_cases hc : isSpace c = true
    · simp only [trimStart, List.dropWhile_cons, hc, if_true] at h ih ⊢
      exact ih h
    · simp [trimStart, hc] at h

/-- A text is blank exactly when trimming leaves nothing. -/
theorem isBlank_iff_trim {s : String} : isBlank s = true ↔ trimChars s.toList = [] := by
  rw [isBlank, trimChars, List.reverse_eq_nil_iff, ← trimStart_eq_nil_iff]
  constructor
  · intro h
    rw [h]
    rfl
  · exact trimStart_reverse_eq_nil

end SolarBill.Text
