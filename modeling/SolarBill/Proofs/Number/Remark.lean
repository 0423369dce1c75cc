import Mathlib
import SolarBill.Number.Locale

/-!
# A number and the remark behind it

Behind a number stands a unit or a remark, apart from it by a space.  The numeral is cut off at the
front, and what its points mean is seen from the digits around them, so a remark changes neither;
with one exception: a comma anywhere in the text says that its points are group marks.

* `Numeral.leading?_append` — the numeral at the front of a text and of the text with a remark;
* `front?_normalise_append` — the exact value that is read in either case;
* `number_before_remark` — a remark without a comma leaves the number alone, one with a comma takes
  its points out, and that changes nothing where there are none or where they mark thousands;
* `remark_with_comma` — one and a half amperes, read as fifteen.
-/

namespace SolarBill

open Text

/-! ### The numeral at the front -/

namespace Numeral

/-- What stands apart from the text before it: nothing, or something behind a space. -/
def Apart (t : List Char) : Prop :=
  t = [] ∨ ∃ r, t = ' ' :: r

variable {t : List Char}

/-- A space is no digit. -/
theorem isDigit_space : isDigit ' ' = false := by
  decide

/-- The sign of a numeral is read before what stands apart from it. -/
theorem takeSign_append (h : Apart t) (cs : List Char) :
    takeSign (cs ++ t) = ((takeSign cs).1, (takeSign cs).2 ++ t) := by
  cases cs with
  | nil => rcases h with rfl | ⟨r, rfl⟩ <;> rfl
  | cons c rest =>
      by_cases hplus : c = '+'
      · subst hplus
        rfl
      · by_cases hminus : c = '-'
        · subst hminus
          rfl
        · simp [takeSign, hplus, hminus]

theorem takeDigits_append (h : Apart t) (cs : List Char) :
    takeDigits (cs ++ t) = ((takeDigits cs).1, (takeDigits cs).2 ++ t) := by
  induction cs with
  | nil => rcases h with rfl | ⟨r, rfl⟩ <;> simp [takeDigits, isDigit_space]
  | cons c rest ih =>
      simp only [takeDigits, Prod.mk.injEq] at ih
      by_cases hc : isDigit c = true
      · simp [takeDigits, hc, ih]
      · simp [takeDigits, hc]

theorem takeScale_append (h : Apart t) (cs : List Char) :
    takeScale (cs ++ t) = ((takeScale cs).1, (takeScale cs).2 ++ t) := by
  cases cs with
  | nil => rcases h with rfl | ⟨r, rfl⟩ <;> rfl
  | cons c rest =>
      simp only [List.cons_append, takeScale, takeSign_append h, takeDigits_append h]
      by_cases hc : (c == 'e' || c == 'E') = true
      · simp only [hc, if_true]
        cases hdigits : (takeDigits (takeSign rest).2).1 <;> grind
      · simp [hc]

theorem takeMantissa_append (h : Apart t) (cs : List Char) :
    takeMantissa (cs ++ t) = (takeMantissa cs).map fun m => (m.1, m.2 ++ t) := by
  simp only [takeMantissa, takeDigits_append h]
  obtain ⟨whole, rest⟩ := takeDigits cs
  -- A point that opens the rest opens it with the remark behind it, and nothing else does.
  by_cases hpoint : ∃ r, rest = '.' :: r
  · obtain ⟨r, rfl⟩ := hpoint
    cases whole with
    | nil =>
        simp only [List.cons_append, takeDigits_append h]
        obtain ⟨fraction, rest⟩ := takeDigits r
        cases fraction <;> rfl
    | cons d ds => simp [takeDigits_append h]
  · have hopen : ∀ r, rest ++ t ≠ '.' :: r := by
      intro r heq
      cases rest with
      | nil => rcases h with rfl | ⟨u, rfl⟩ <;> simp at heq
      | cons c u => exact hpoint ⟨u, by simp_all⟩
    cases whole <;> grind

/-- **The numeral at the front stays the same**, whatever follows the text apart from it. -/
theorem leading?_append (h : Apart t) (cs : List Char) :
    leading? (cs ++ t) = (leading? cs).map fun n => (n.1, n.2 ++ t) := by
  simp only [leading?, takeSign_append h, takeMantissa_append h, Option.bind_eq_bind]
  cases takeMantissa (takeSign cs).2 with
  | none => rfl
  | some m => simp [takeScale_append h]

end Numeral

namespace Locale

open Numeral

variable {t : List Char}

/-- Groups begin with three digits. -/
theorem isDigit_of_groups {cs : List Char} (h : groups cs = true) :
    3 ≤ cs.length ∧ ∀ c ∈ cs.take 3, isDigit c = true := by
  unfold groups at h
  split at h <;> simp_all

/-- Fewer than three characters make no group, and a space behind them is no digit. -/
theorem not_groups_space {cs : List Char} (hlength : cs.length < 3) (u : List Char) :
    groups (cs ++ ' ' :: u) = false := by
  rw [Bool.eq_false_iff]
  intro hgroups
  have hspace : ' ' ∈ (cs ++ ' ' :: u).take 3 :=
    List.mem_take_iff_getElem.mpr ⟨cs.length, by simp; omega, by simp⟩
  have hdigit := (isDigit_of_groups hgroups).2 ' ' hspace
  rw [isDigit_space] at hdigit
  exact absurd hdigit (by simp)

theorem groups_append (h : Apart t) (cs : List Char) : groups (cs ++ t) = groups cs := by
  rcases h with rfl | ⟨u, rfl⟩
  · rw [List.append_nil]
  · fun_induction groups cs with
    | case1 a b c => simp [groups, isDigit_space]
    | case2 a b c r ih => simp [groups, ih]
    | case3 a b c d r hd => simp_all [groups]
    | case4 cs hthree hpoint hmore =>
        apply not_groups_space
        rcases cs with _ | ⟨a, _ | ⟨b, _ | ⟨c, _ | ⟨d, r⟩⟩⟩⟩ <;> grind

/-- A number is grouped or not, whatever stands apart from it. -/
theorem isGrouped_append (h : Apart t) (cs : List Char) : isGrouped (cs ++ t) = isGrouped cs := by
  simp only [isGrouped, takeSign_append h, takeDigits_append h]
  obtain ⟨whole, rest⟩ := takeDigits (takeSign cs).2
  cases rest with
  | nil => rcases h with rfl | ⟨r, rfl⟩ <;> rfl
  | cons c r =>
      by_cases hc : c = '.'
      · subst hc
        simp [groups_append h]
      · simp [hc]

/-! ### Trimming -/

/-- A text that does not begin with white space is not trimmed at its start. -/
theorem trimStart_of_head? {cs : List Char} (h : ∀ c ∈ cs.head?, isSpace c = false) :
    trimStart cs = cs := by
  cases cs with
  | nil => rfl
  | cons c rest => simp [trimStart, h c rfl]

/-- Trimming keeps everything but white space. -/
theorem mem_trimStart {c : Char} (hc : isSpace c = false) (cs : List Char) :
    c ∈ trimStart cs ↔ c ∈ cs := by
  induction cs with
  | nil => rfl
  | cons x rest ih =>
      by_cases hx : isSpace x = true
      · have hne : c ≠ x := by
          rintro rfl
          rw [hx] at hc
          exact absurd hc (by simp)
        simpa [trimStart, hx, hne] using ih
      · simp [trimStart, hx]

/-- A text without white space is not trimmed, and what follows it only at its end. -/
theorem trimChars_append {p : List Char} (hp : p ≠ []) (hspace : ∀ c ∈ p, isSpace c = false)
    (t : List Char) : trimChars (p ++ t) = p ++ (trimStart t.reverse).reverse := by
  have hfront : trimStart (p ++ t) = p ++ t := by
    apply trimStart_of_head?
    intro c hc
    rw [List.head?_append_of_ne_nil p hp] at hc
    exact hspace c (List.mem_of_head? hc)
  have hback : trimStart p.reverse = p.reverse := by
    apply trimStart_of_head?
    intro c hc
    exact hspace c (List.mem_reverse.mp (List.mem_of_head? hc))
  have hend : trimStart (t.reverse ++ p.reverse) = trimStart t.reverse ++ p.reverse := by
    rw [trimStart, trimStart, List.dropWhile_append]
    split_ifs with hempty
    · rw [List.isEmpty_iff.mp hempty]
      exact hback
    · rfl
  rw [trimChars, hfront, List.reverse_append, hend, List.reverse_append, List.reverse_reverse]

/-- A text without white space is not trimmed. -/
theorem trimChars_of_no_space {p : List Char} (hspace : ∀ c ∈ p, isSpace c = false) :
    trimChars p = p := by
  by_cases hp : p = []
  · subst hp
    rfl
  · have hnone : trimChars (p ++ []) = p ++ [] := trimChars_append hp hspace []
    rwa [List.append_nil] at hnone

/-- A text that is trimmed at its end is a beginning of it. -/
theorem prefix_trimEnd (s : List Char) : (trimStart s.reverse).reverse <+: s := by
  have hsuffix := List.dropWhile_suffix isSpace (l := s.reverse)
  rw [← List.reverse_prefix, List.reverse_reverse] at hsuffix
  exact hsuffix

/-- A remark behind a space stays apart, and trimming takes no comma from it. -/
theorem trimChars_remark {p : List Char} (hp : p ≠ []) (hspace : ∀ c ∈ p, isSpace c = false)
    (s : List Char) :
    ∃ t, trimChars (p ++ ' ' :: s) = p ++ t ∧ Apart t ∧ (',' ∈ t ↔ ',' ∈ s) := by
  refine ⟨_, trimChars_append hp hspace _, ?_, ?_⟩
  · rcases List.prefix_cons_iff.mp (prefix_trimEnd (' ' :: s)) with hnil | ⟨r, hr, -⟩
    · exact Or.inl hnil
    · exact Or.inr ⟨r, hr⟩
  · rw [List.mem_reverse, mem_trimStart (by decide), List.mem_reverse, List.mem_cons]
    exact or_iff_right (by decide)

/-! ### Reading -/

/-- The exact value of the numeral at the front of a normalised text. -/
def front? (cs : List Char) : Option Decimal :=
  (leading? cs).bind fun n => n.1.toDecimal?

/-- A decimal number is read from the front of the trimmed and normalised text. -/
theorem decimal?_eq (text : String) :
    decimal? text = front? (normalise (trimChars text.toList)) := by
  rfl

/-- The number at the front does not depend on what stands apart from it. -/
theorem front?_append (h : Apart t) (cs : List Char) : front? (cs ++ t) = front? cs := by
  rw [front?, front?, leading?_append h, Option.bind_map]
  rfl

/-- A text without its points. -/
def withoutPoints (cs : List Char) : List Char :=
  cs.filter (· != '.')

/-- What stands apart does so without its points. -/
theorem apart_withoutPoints (h : Apart t) : Apart (withoutPoints t) := by
  rcases h with rfl | ⟨r, rfl⟩
  · exact Or.inl rfl
  · exact Or.inr ⟨withoutPoints r, List.filter_cons_of_pos (by decide)⟩

/-- A grouped number has a point. -/
theorem point_mem_of_isGrouped {cs : List Char} (h : isGrouped cs = true) : '.' ∈ cs := by
  have hdigits : (takeDigits (takeSign cs).2).2 <:+ cs := by
    have hsign : (takeSign cs).2 <:+ cs := by
      unfold takeSign
      split
      · exact List.suffix_cons _ _
      · exact List.suffix_cons _ _
      · exact List.suffix_rfl
    exact (List.dropWhile_suffix isDigit).trans hsign
  unfold isGrouped at h
  split at h
  · next whole r heq =>
    rw [heq] at hdigits
    exact hdigits.subset List.mem_cons_self
  · exact absurd h (by simp)

/-- With a comma all points are groups, and the comma is the point of the decimals. -/
theorem normalise_of_comma {cs : List Char} (h : ',' ∈ cs) :
    normalise cs = (withoutPoints cs).map fun c => if c == ',' then '.' else c := by
  rw [normalise, if_pos (List.contains_iff_mem.mpr h)]
  rfl

/-- Without a comma the points are left out of a grouped number only. -/
theorem normalise_of_no_comma {cs : List Char} (h : ',' ∉ cs) :
    normalise cs = if isGrouped cs then withoutPoints cs else cs := by
  rw [normalise, if_neg (mt List.contains_iff_mem.mp h)]
  rfl

/-- Without a comma there are no decimals to find: the text is read as it stands. -/
theorem normalise_withoutPoints {p : List Char} (hp : ',' ∉ p) :
    normalise (withoutPoints p) = withoutPoints p := by
  have hcomma : ',' ∉ withoutPoints p := fun hmem => hp (List.mem_of_mem_filter hmem)
  have hgrouped : ¬ isGrouped (withoutPoints p) = true := by
    intro h
    have hpoint := point_mem_of_isGrouped h
    exact absurd (List.mem_filter.mp hpoint).2 (by decide)
  rw [normalise_of_no_comma hcomma, if_neg hgrouped]

/-- Where there is no comma none is replaced. -/
theorem map_decimal_of_no_comma {cs : List Char} (h : ',' ∉ cs) :
    cs.map (fun c => if c == ',' then '.' else c) = cs := by
  calc cs.map (fun c => if c == ',' then '.' else c)
      = cs.map id := by
        apply List.map_congr_left
        intro c hc
        have hne : c ≠ ',' := fun heq => h (heq ▸ hc)
        simp [hne]
    _ = cs := List.map_id cs

/-- Points that mark no decimals are taken out anyway, if there are any. -/
theorem normalise_eq_withoutPoints {p : List Char} (hp : ',' ∉ p)
    (h : '.' ∉ p ∨ isGrouped p = true) : normalise p = withoutPoints p := by
  rw [normalise_of_no_comma hp]
  split_ifs with hgrouped
  · rfl
  · have hnone : '.' ∉ p := h.resolve_right hgrouped
    rw [withoutPoints, List.filter_eq_self.mpr]
    intro c hc
    exact bne_iff_ne.mpr fun heq => hnone (heq ▸ hc)

/-- A remark with a comma takes the points out of the number; any other one leaves the number
what it is. -/
theorem front?_normalise_append {p : List Char} (hp : ',' ∉ p) (h : Apart t) :
    front? (normalise (p ++ t)) =
      if ',' ∈ t then front? (withoutPoints p) else front? (normalise p) := by
  by_cases ht : ',' ∈ t
  · have hkept : (withoutPoints p).map (fun c => if c == ',' then '.' else c) = withoutPoints p :=
      map_decimal_of_no_comma fun hmem => hp (List.mem_of_mem_filter hmem)
    have hapart : Apart ((withoutPoints t).map fun c => if c == ',' then '.' else c) := by
      rcases apart_withoutPoints h with hnil | ⟨r, hr⟩
      · exact Or.inl (by rw [hnil]; rfl)
      · exact Or.inr ⟨_, by rw [hr]; rfl⟩
    rw [if_pos ht, normalise_of_comma (List.mem_append_right p ht), withoutPoints,
      List.filter_append, List.map_append]
    change front? ((withoutPoints p).map _ ++ (withoutPoints t).map _) = _
    rw [hkept, front?_append hapart]
  · have hboth : ',' ∉ p ++ t := by
      rw [List.mem_append]
      exact not_or.mpr ⟨hp, ht⟩
    rw [if_neg ht, normalise_of_no_comma hboth, normalise_of_no_comma hp, isGrouped_append h]
    split_ifs
    · rw [withoutPoints, List.filter_append]
      exact front?_append (apart_withoutPoints h) _
    · exact front?_append h p

/-- The number that is left when the points of a text are taken out. -/
def pointless? (p : String) : Option Float :=
  number? (String.ofList (withoutPoints p.toList))

/-- A text without points and commas is read as it is. -/
theorem decimal?_pointless {p : String} (hspace : ∀ c ∈ p.toList, isSpace c = false)
    (hcomma : ',' ∉ p.toList) :
    decimal? (String.ofList (withoutPoints p.toList)) = front? (withoutPoints p.toList) := by
  have hkept : ∀ c ∈ withoutPoints p.toList, isSpace c = false :=
    fun c hc => hspace c (List.mem_of_mem_filter hc)
  rw [decimal?_eq, String.toList_ofList, trimChars_of_no_space hkept,
    normalise_withoutPoints hcomma]

/-- The exact value in front of a remark. -/
theorem decimal?_append {p : String} (hspace : ∀ c ∈ p.toList, isSpace c = false)
    (hcomma : ',' ∉ p.toList) (hp : p.toList ≠ []) (s : String) :
    decimal? (p ++ " " ++ s) =
      if ',' ∈ s.toList then decimal? (String.ofList (withoutPoints p.toList)) else decimal? p := by
  have htext : (p ++ " " ++ s).toList = p.toList ++ ' ' :: s.toList := by
    simp [String.toList_append]
  obtain ⟨t, htrim, hapart, hmem⟩ := trimChars_remark hp hspace s.toList
  rw [decimal?_pointless hspace hcomma, decimal?_eq, decimal?_eq, htext, htrim,
    front?_normalise_append hcomma hapart, trimChars_of_no_space hspace]
  simp only [hmem]

/-- A text that is read as a number is not empty. -/
theorem toList_ne_nil_of_number? {p : String} {v : Float} (h : number? p = some v) :
    p.toList ≠ [] := by
  intro hnil
  have hnone : decimal? p = none := by
    rw [decimal?_eq, hnil]
    rfl
  rw [number?, hnone] at h
  exact absurd h (by simp)

/-- **A number and the remark behind it.**  Let a text without white space and without a comma be
read as a number, and let a space and any remark follow.  A remark without a comma leaves the
number what it is.  With a comma, what is read is the number without its points; and that is the
same number if it has no points, or if they mark thousands. -/
theorem number_before_remark {p : String} {v : Float}
    (hspace : ∀ c ∈ p.toList, isSpace c = false) (hcomma : ',' ∉ p.toList)
    (hnumber : number? p = some v) (s : String) :
    (',' ∉ s.toList → number? (p ++ " " ++ s) = some v) ∧
    (',' ∈ s.toList → number? (p ++ " " ++ s) = pointless? p) ∧
    ('.' ∉ p.toList ∨ isGrouped p.toList = true → number? (p ++ " " ++ s) = some v) := by
  have hread : number? (p ++ " " ++ s) = if ',' ∈ s.toList then pointless? p else some v := by
    rw [← hnumber, pointless?, number?, number?, number?,
      decimal?_append hspace hcomma (toList_ne_nil_of_number? hnumber)]
    split_ifs <;> rfl
  refine ⟨?_, ?_, ?_⟩
  · intro hs
    rw [hread, if_neg hs]
  · intro hs
    rw [hread, if_pos hs]
  · intro h
    have hsame : pointless? p = some v := by
      rw [← hnumber, pointless?, number?, number?, decimal?_pointless hspace hcomma, decimal?_eq,
        trimChars_of_no_space hspace, normalise_eq_withoutPoints hcomma h]
    rw [hread, hsame, ite_self]

/-- Sixteen and a half amperes, at a voltage that is no whole number either. -/
theorem number_before_remark_amperes :
    (∀ c ∈ "16.5".toList, isSpace c = false) ∧ ',' ∉ "16.5".toList ∧
      number? "16.5" = some 16.5 ∧ number? ("16.5" ++ " " ++ "A at 230.5 V") = some 16.5 := by
  have hspace : ∀ c ∈ "16.5".toList, isSpace c = false := by
    simp [isSpace]
  have hcomma : ',' ∉ "16.5".toList := by
    decide
  have hnumber : number? "16.5" = some 16.5 := by
    decide
  exact ⟨hspace, hcomma, hnumber,
    (number_before_remark hspace hcomma hnumber "A at 230.5 V").1 (by decide)⟩

/-- **A remark that moves the point.**  One and a half amperes become fifteen. -/
theorem remark_with_comma :
    ¬ ∀ (p s : String) (v : Float), (∀ c ∈ p.toList, isSpace c = false) → ',' ∉ p.toList →
      number? p = some v → number? (p ++ " " ++ s) = some v := by
  intro hall
  have hspace : ∀ c ∈ "1.5".toList, isSpace c = false := by
    simp [isSpace]
  have hread := hall "1.5" "A, max" 1.5 hspace (by decide) (by decide)
  exact absurd hread (by decide)

end Locale

end SolarBill
