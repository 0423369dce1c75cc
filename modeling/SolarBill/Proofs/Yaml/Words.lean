import SolarBill.Proofs.Yaml.Plain
import SolarBill.Yaml.Meaning

/-!
# Words stand for themselves

Small letters, digits and underscores can be written plainly (`plainText_of_wordChars`).  A word of
them that begins with a letter has no sign, no digit and no point in front, so that it is no number
of any kind; it is a text, unless it is one of a few words with a meaning of their own
(`Meaning.of_word`).
-/

namespace SolarBill.Yaml

open Print Scalar Text

/-- A small letter, a digit or an underscore. -/
def isWordChar (c : Char) : Bool :=
  c.isLower || c.isDigit || c == '_'

variable {c d : Char} {cs : List Char}

/-- The small letters by their codes. -/
theorem isLower_iff : c.isLower = true ↔ 97 ≤ c.toNat ∧ c.toNat ≤ 122 := by
  change (decide (c.val ≥ 'a'.val) && decide (c.val ≤ 'z'.val)) = true ↔ _
  rw [Bool.and_eq_true, decide_eq_true_eq, decide_eq_true_eq, ge_iff_le, UInt32.le_iff_toNat_le,
    UInt32.le_iff_toNat_le]
  rfl

/-- No capital letters are among them. -/
theorem wordChar_bounds (h : isWordChar c = true) :
    48 ≤ c.toNat ∧ c.toNat ≤ 122 ∧ (c.toNat < 65 ∨ 90 < c.toNat) := by
  rw [isWordChar, Bool.or_eq_true, Bool.or_eq_true, beq_iff_eq] at h
  rcases h with (h | h) | rfl
  · have hbounds := isLower_iff.mp h
    omega
  · have hbounds : 48 ≤ c.toNat ∧ c.toNat ≤ 57 := Char.isDigit_iff_toNat.mp h
    omega
  · decide

/-- A character of a word is no other character. -/
theorem ne_of_wordChar (h : isWordChar c = true) (hd : isWordChar d = false) : c ≠ d := by
  rintro rfl
  rw [hd] at h
  cases h

theorem beq_of_wordChar (h : isWordChar c = true) (hd : isWordChar d = false) : (c == d) = false :=
  beq_eq_false_iff_ne.mpr (ne_of_wordChar h hd)

/-! ### Plain texts -/

/-- The characters of words may stand in a line. -/
theorem inline_of_wordChar (h : isWordChar c = true) : isInline c = true := by
  obtain ⟨hlow, hhigh, -⟩ := wordChar_bounds h
  have hprintable : isPrintable c = true := by
    simp only [isPrintable, Bool.or_eq_true, Bool.and_eq_true, beq_iff_eq, bne_iff_ne,
      decide_eq_true_eq]
    omega
  have hnot : ∀ d, isWordChar d = false → (c == d) = false := fun d hd => beq_of_wordChar h hd
  have hends : endsLine c = false := by
    simp only [endsLine, isBreak, hnot _ (by decide : isWordChar '\n' = false),
      hnot _ (by decide : isWordChar '\u2028' = false),
      hnot _ (by decide : isWordChar '\u2029' = false),
      hnot _ (by decide : isWordChar '\r' = false), hnot _ (by decide : isWordChar '\x85' = false),
      Bool.or_self]
  rw [isInline, hprintable, hends]
  rfl

/-- Nothing in a word has to be quoted. -/
theorem holdsSpecial_of_wordChars (h : ∀ c ∈ cs, isWordChar c = true) :
    holdsSpecial cs = false := by
  induction cs with
  | nil => rfl
  | cons c cs ih =>
      cases cs with
      | nil => rfl
      | cons d rest =>
          rw [List.forall_mem_cons] at h
          have hd := h.2 d List.mem_cons_self
          rw [holdsSpecial, beq_of_wordChar hd (by decide), beq_of_wordChar hd (by decide), ih h.2]
          rfl

/-- Small letters, digits and underscores stand as they are. -/
theorem plainText_of_wordChars (hne : cs ≠ []) (h : ∀ c ∈ cs, isWordChar c = true) :
    PlainText cs := by
  have hspace : ¬ isWordChar ' ' = true := by
    decide
  refine ⟨hne, fun c hc => inline_of_wordChar (h c hc), ?_, ?_, ?_, holdsSpecial_of_wordChars h⟩
  · intro heq
    exact hspace (h _ (List.mem_of_mem_head? heq))
  · intro heq
    exact hspace (h _ (List.mem_of_getLast? heq))
  · cases cs with
    | nil => exact absurd rfl hne
    | cons c rest =>
        have hc := h c List.mem_cons_self
        have hnot : ∀ d, isWordChar d = false → ¬ c = d := fun d hd => ne_of_wordChar hc hd
        unfold startsSpecially
        split
        · next heq =>
            cases heq
            exact absurd rfl (hnot '-' (by decide))
        · next heq =>
            cases heq
            exact absurd rfl (hnot '.' (by decide))
        · next heq =>
            cases heq
            simp [hnot, isWordChar]
        · rfl

/-- No word begins with a sign. -/
theorem takeSign_of_wordChars (h : ∀ c ∈ cs, isWordChar c = true) :
    Numeral.takeSign cs = (false, cs) := by
  cases cs with
  | nil => rfl
  | cons c rest =>
      have hc := h c List.mem_cons_self
      unfold Numeral.takeSign
      split
      · next heq =>
          cases heq
          exact absurd hc (by decide)
      · next heq =>
          cases heq
          exact absurd hc (by decide)
      · rfl

/-! ### Words -/

/-- Words with a meaning of their own. -/
def reservedWords : List String :=
  ["null", "true", "false", "inf", "infinity", "nan"]

/-- A word of small letters, digits and underscores that begins with a letter. -/
structure IsWord (s : String) : Prop where
  head : s.toList.head?.any Char.isLower = true
  chars : s.toList.all isWordChar = true
  free : s ∉ reservedWords

instance : DecidablePred IsWord := fun s =>
  decidable_of_iff (s.toList.head?.any Char.isLower = true ∧ s.toList.all isWordChar = true ∧
      s ∉ reservedWords)
    ⟨fun h => ⟨h.1, h.2.1, h.2.2⟩, fun h => ⟨h.head, h.chars, h.free⟩⟩

namespace IsWord

variable {s : String}

/-- A word consists of characters of words. -/
theorem wordChars (h : IsWord s) : ∀ c ∈ s.toList, isWordChar c = true :=
  List.all_eq_true.mp h.chars

theorem exists_cons (h : IsWord s) : ∃ c rest, s.toList = c :: rest ∧ c.isLower = true := by
  have hhead := h.head
  cases hs : s.toList with
  | nil =>
      rw [hs] at hhead
      cases hhead
  | cons c rest =>
      rw [hs] at hhead
      exact ⟨c, rest, rfl, hhead⟩

/-- A word does not begin with a sign, a digit or a point. -/
theorem toList_ne (h : IsWord s) (hd : d.isLower = false) (more : List Char) :
    s.toList ≠ d :: more := by
  obtain ⟨c, rest, hs, hc⟩ := h.exists_cons
  rw [hs]
  rintro ⟨⟩
  rw [hd] at hc
  cases hc

/-- It may be written plainly. -/
theorem plainText (h : IsWord s) : PlainText s.toList := by
  obtain ⟨c, rest, hs, -⟩ := h.exists_cons
  exact plainText_of_wordChars (by simp [hs]) h.wordChars

/-- It is not a text that is no word. -/
theorem ne_of_not (h : IsWord s) {text : String} (htext : ¬ IsWord text) : s ≠ text := by
  rintro rfl
  exact htext h

/-- It has no sign. -/
theorem takeSign_eq (h : IsWord s) : Numeral.takeSign s.toList = (false, s.toList) :=
  takeSign_of_wordChars h.wordChars

/-- A letter is no digit in base ten. -/
theorem foldl_letter {f : Char → Option Nat} (hf : f c = none) (rest : List Char) :
    (c :: rest).foldl (fun acc c => acc.bind fun v => (f c).map (10 * v + ·)) (some 0) = none := by
  have hnone : rest.foldl (fun acc c => acc.bind fun v => (f c).map (10 * v + ·)) none = none := by
    induction rest with
    | nil => rfl
    | cons d rest ih => exact ih
  rw [List.foldl_cons, Option.bind_some, hf]
  exact hnone

/-- It is no integer. -/
theorem readInt?_eq (h : IsWord s) : readInt? 10 s = none := by
  obtain ⟨c, rest, hs, hc⟩ := h.exists_cons
  obtain ⟨hlow, hhigh⟩ := isLower_iff.mp hc
  rw [readInt?, h.takeSign_eq, hs]
  simp only
  rw [foldl_letter]
  · rfl
  · rw [if_neg]
    repeat' split
    all_goals omega

/-- A small letter is no digit. -/
theorem isDigit_of_lower (hc : c.isLower = true) : isDigit c = false := by
  obtain ⟨hlow, hhigh⟩ := isLower_iff.mp hc
  have hzeros : ∀ z ∈ zeroDigits, z = 0x30 ∨ 0x660 ≤ z := by
    decide
  rw [isDigit, List.any_eq_false]
  intro z hz
  rw [Bool.and_eq_true, decide_eq_true_eq, decide_eq_true_eq]
  have hzero := hzeros z hz
  omega

/-- A word begins with no numeral. -/
theorem leading?_eq (h : IsWord s) : Numeral.leading? s.toList = none := by
  obtain ⟨c, rest, hs, hc⟩ := h.exists_cons
  have hpoint : c ≠ '.' := by
    rintro rfl
    exact absurd hc (by decide)
  have hdigits : Numeral.takeDigits (c :: rest) = ([], c :: rest) := by
    simp [Numeral.takeDigits, isDigit_of_lower hc]
  have hmantissa : Numeral.takeMantissa (c :: rest) = none := by
    rw [Numeral.takeMantissa, hdigits]
    split
    · next heq =>
      cases heq
      exact absurd rfl hpoint
    · rfl
    · next heq =>
      cases heq
      exact absurd rfl hpoint
    · next hne _ heq =>
      cases heq
      exact absurd rfl hne
  rw [Numeral.leading?, h.takeSign_eq, hs]
  simp only [hmantissa]
  rfl

/-- It is in lower case already. -/
theorem lowerAscii_eq (h : IsWord s) : lowerAscii s = s := by
  have hmap : s.toList.map Char.toLower = s.toList.map id := by
    apply List.map_congr_left
    intro c hc
    have hbounds := wordChar_bounds (h.wordChars c hc)
    have hupper : ¬ (c.val ≥ 'A'.val ∧ c.val ≤ 'Z'.val) := by
      intro ⟨hlow, hhigh⟩
      have hlow : 65 ≤ c.toNat := UInt32.le_iff_toNat_le.mp hlow
      have hhigh : c.toNat ≤ 90 := UInt32.le_iff_toNat_le.mp hhigh
      omega
    exact dif_neg hupper
  rw [← String.toList_inj, lowerAscii, String.toList_map, hmap, List.map_id]

/-- A word is no number. -/
theorem readFloat?_eq (h : IsWord s) : readFloat? s = none := by
  have hfree := h.free
  rw [readFloat?, h.takeSign_eq]
  simp only [String.ofList_toList, h.lowerAscii_eq]
  split
  · exact absurd (by decide) hfree
  · exact absurd (by decide) hfree
  · exact absurd (by decide) hfree
  · rw [Decimal.ofChars?, h.leading?_eq]
    rfl

/-- It is not padded with zeros. -/
theorem isZeroPadded_eq (h : IsWord s) : isZeroPadded s = false := by
  rw [isZeroPadded, h.takeSign_eq]
  split
  · next heq => exact absurd heq (h.toList_ne (by decide) _)
  · rfl

/-- It is no natural number. -/
theorem naturalOfChars?_eq (h : IsWord s) : naturalOfChars? s.toList = none := by
  have hnatural : naturalOfChars?.natural? 10 s.toList = none := by
    unfold naturalOfChars?.natural?
    split
    · next heq => exact absurd heq (h.toList_ne (by decide) _)
    · next heq => exact absurd heq (h.toList_ne (by decide) _)
    · rw [String.ofList_toList, h.readInt?_eq]
      rfl
  unfold naturalOfChars?
  split
  · next heq => exact absurd heq (h.toList_ne (by decide) _)
  · next heq => exact absurd heq (h.toList_ne (by decide) _)
  · next heq => exact absurd heq (h.toList_ne (by decide) _)
  · exact hnatural

/-- It is no integer in any notation. -/
theorem integer?_eq (h : IsWord s) : integer? s = none := by
  rw [integer?, h.isZeroPadded_eq, if_neg Bool.false_ne_true, h.takeSign_eq]
  simp only [h.naturalOfChars?_eq]
  rfl

/-- A word is not among texts that are none. -/
theorem not_contains (h : IsWord s) {texts : List String} (htexts : ∀ t ∈ texts, ¬ IsWord t) :
    texts.contains s = false := by
  rw [← Bool.not_eq_true, List.contains_iff_mem]
  exact fun hs => htexts s hs h

/-- It is no number. -/
theorem float?_eq (h : IsWord s) : float? s = none := by
  have hinf : [".inf", ".Inf", ".INF"].contains s = false := h.not_contains (by decide)
  have hnegative : ["-.inf", "-.Inf", "-.INF"].contains s = false := h.not_contains (by decide)
  have hnan : [".nan", ".NaN", ".NAN"].contains s = false := h.not_contains (by decide)
  unfold float?
  split
  · next heq => exact absurd heq (h.toList_ne (by decide) _)
  · simp only [String.ofList_toList, hinf, hnegative, hnan, h.readFloat?_eq, Option.filter_none,
      Bool.false_eq_true, if_false, ite_self]

end IsWord

/-- **A word means a text.** -/
theorem Meaning.of_word {s : String} (h : IsWord s) : Meaning.of s = .text := by
  have hempty : s.isEmpty = false := by
    rw [String.isEmpty_eq_false_iff]
    rintro rfl
    exact absurd h (by decide)
  have hnull : isNullWord s = false := h.not_contains (by decide)
  have htrue : ["true", "True", "TRUE"].contains s = false := h.not_contains (by decide)
  have hfalse : ["false", "False", "FALSE"].contains s = false := h.not_contains (by decide)
  have hflag : flagWord? s = none := by
    rw [flagWord?, htrue, hfalse]
    rfl
  rw [Meaning.of, hempty, hnull, hflag, h.integer?_eq, h.isZeroPadded_eq, h.float?_eq]
  rfl

/-- A word that is short enough for the name of a field. -/
def IsNameWord (n : String) : Prop :=
  IsWord n ∧ n.utf8ByteSize ≤ 128

instance : DecidablePred IsNameWord :=
  fun n => inferInstanceAs (Decidable (IsWord n ∧ n.utf8ByteSize ≤ 128))

/-- A word that is short enough is a simple name. -/
theorem IsNameWord.isSimpleName {n : String} (h : IsNameWord n) : isSimpleName n = true := by
  have hends : n.toList.any endsLine = false := by
    rw [List.any_eq_false]
    exact fun c hc => Bool.eq_false_iff.mp (endsLine_of_inline (h.1.plainText.inline c hc))
  rw [Print.isSimpleName, hends, Bool.not_false, Bool.true_and, decide_eq_true_eq]
  exact h.2

end SolarBill.Yaml
