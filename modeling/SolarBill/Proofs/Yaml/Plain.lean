import SolarBill.Yaml.Print
import SolarBill.Yaml.Token.Scalar

/-!
# Plain scalars are read back

A text that is written without quotes is taken up to the last of its characters: its spaces stand
between visible characters, no colon of it stands in front of a gap, and no number sign behind one.
It ends in front of a colon with a gap behind it, or with its line, if the next line does not lie
further in.

* `PlainText.plain?_eq` — a plain text is taken as a whole;
* `plainFrom_colon`, `plainFrom_newline` — where it ends.
-/

namespace SolarBill.Yaml

open Print Spot

namespace Spot

/-! ### Laying out -/

theorem layoutFrom_cons {c : Char} (h : endsLine c = false) (line column : Nat) (cs : List Char) :
    layoutFrom line column (c :: cs) = ⟨c, line, column⟩ :: layoutFrom line (column + 1) cs := by
  simp only [endsLine, isBreak, Bool.or_eq_false_iff, beq_eq_false_iff_ne] at h
  obtain ⟨⟨⟨⟨hfeed, hline⟩, hparagraph⟩, hreturn⟩, hnext⟩ := h
  rw [layoutFrom.eq_3 _ _ _ _ fun _ heq _ => hreturn heq]
  simp [isBreak, hfeed, hline, hparagraph, hreturn, hnext]

/-- A line break ends its line. -/
theorem layoutFrom_newline (line column : Nat) (cs : List Char) :
    layoutFrom line column ('\n' :: cs) = ⟨'\n', line, column⟩ :: layoutFrom (line + 1) 0 cs := rfl

theorem layoutFrom_nil (line column : Nat) :
    layoutFrom line column [] = [⟨endMark, line, column⟩] := rfl

/-- There is always something laid out, if only the end mark. -/
theorem exists_layoutFrom (line column : Nat) (cs : List Char) :
    ∃ c rest, layoutFrom line column cs = ⟨c, line, column⟩ :: rest := by
  unfold layoutFrom
  split
  · exact ⟨_, _, rfl⟩
  · exact ⟨_, _, rfl⟩
  · split
    · exact ⟨_, _, rfl⟩
    · split
      · exact ⟨_, _, rfl⟩
      · exact ⟨_, _, rfl⟩

/-- The column of what is laid out is where it starts. -/
@[simp]
theorem columnOf_layoutFrom (line column : Nat) (cs : List Char) :
    columnOf (layoutFrom line column cs) = column := by
  obtain ⟨c, rest, h⟩ := exists_layoutFrom line column cs
  rw [h]
  rfl

@[simp]
theorem lineOf_layoutFrom (line column : Nat) (cs : List Char) :
    lineOf (layoutFrom line column cs) = line := by
  obtain ⟨c, rest, h⟩ := exists_layoutFrom line column cs
  rw [h]
  rfl

@[simp]
theorem charAt_cons_zero (s : Spot) (rest : List Spot) : charAt (s :: rest) 0 = s.char := rfl

@[simp]
theorem charAt_cons_succ (s : Spot) (rest : List Spot) (n : Nat) :
    charAt (s :: rest) (n + 1) = charAt rest n := rfl

theorem charAt_layoutFrom_zero {c : Char} (h : endsLine c = false) (line column : Nat)
    (cs : List Char) : charAt (layoutFrom line column (c :: cs)) 0 = c := by
  rw [layoutFrom_cons h, charAt_cons_zero]

theorem charAt_layoutFrom_succ {c : Char} (h : endsLine c = false) (line column : Nat)
    (cs : List Char) (n : Nat) :
    charAt (layoutFrom line column (c :: cs)) (n + 1) =
      charAt (layoutFrom line (column + 1) cs) n := by
  rw [layoutFrom_cons h, charAt_cons_succ]

theorem tail_layoutFrom {c : Char} (h : endsLine c = false) (line column : Nat) (cs : List Char) :
    (layoutFrom line column (c :: cs)).tail = layoutFrom line (column + 1) cs := by
  rw [layoutFrom_cons h, List.tail_cons]

/-- No document starts or ends within a line. -/
theorem atDocumentMarker_of_pos {column : Nat} (h : 0 < column) (line : Nat) (cs : List Char) :
    atDocumentMarker (layoutFrom line column cs) = false := by
  have hne : (column == 0) = false := beq_eq_false_iff_ne.mpr (Nat.ne_of_gt h)
  simp [atDocumentMarker, atMarker, hne]

end Spot

namespace Print

/-! ### Characters within a line -/

/-- May the character be written as it is, within a line? -/
def isInline (c : Char) : Bool :=
  isPrintable c && !endsLine c

variable {c : Char}

theorem endsLine_of_inline (h : isInline c = true) : endsLine c = false := by
  rw [isInline, Bool.and_eq_true, Bool.not_eq_true'] at h
  exact h.2

theorem isBreak_of_inline (h : isInline c = true) : isBreak c = false := by
  have hends := endsLine_of_inline h
  rw [endsLine, Bool.or_eq_false_iff, Bool.or_eq_false_iff] at hends
  exact hends.1.1

theorem ne_of_inline {d : Char} (h : isInline c = true) (hd : isInline d = false) : c ≠ d := by
  rintro rfl
  rw [hd] at h
  exact Bool.false_ne_true h

theorem isBlank_of_inline (h : isInline c = true) : isBlank c = (c == ' ') := by
  have htab : (c == '\t') = false := beq_eq_false_iff_ne.mpr (ne_of_inline h (by decide))
  rw [isBlank, htab, Bool.or_false]

end Print

namespace Scalar

/-! ### Plain scalars -/

/-- Spaces within a line stay as they are. -/
theorem foldGap_of_spaces {gap : List Char} (h : ∀ c ∈ gap, c = ' ') : foldGap gap = gap := by
  have hnone : gap.filter isBreak = [] := by
    rw [List.filter_eq_nil_iff]
    intro c hc
    rw [h c hc]
    decide
  rw [foldGap, hnone]

variable {minColumn line column : Nat} {gap : List Spot} {text cs : List Char} {c : Char}

/-- A visible character is taken together with the spaces in front of it. -/
theorem plainFrom_visible (hc : isInline c = true) (hvisible : c ≠ ' ')
    (hcolon : c = ':' → isGap (charAt (layoutFrom line (column + 1) cs) 0) = false)
    (hgap : ∀ d ∈ chars gap, d = ' ')
    (hbehind : gap ≠ [] → c ≠ '#' ∧ 0 < column ∧ minColumn ≤ column) :
    plainFrom false minColumn gap text (layoutFrom line column (c :: cs)) =
      plainFrom false minColumn [] (c :: chars gap ++ text) (layoutFrom line (column + 1) cs) := by
  have hblank : isBlank c = false := by
    rw [isBlank_of_inline hc]
    exact beq_eq_false_iff_ne.mpr hvisible
  have hend : (c == endMark) = false := beq_eq_false_iff_ne.mpr (ne_of_inline hc (by decide))
  have hends : endsPlain false c (charAt (layoutFrom line (column + 1) cs) 0) = false := by
    rw [endsPlain, Bool.false_and, Bool.or_false, Bool.and_eq_false_imp, beq_iff_eq]
    exact hcolon
  have hgoes : (!gap.isEmpty && endsBehindGap false minColumn (layoutFrom line column (c :: cs))) =
      false := by
    rw [Bool.and_eq_false_imp, Bool.not_eq_true', List.isEmpty_eq_false_iff]
    intro hne
    obtain ⟨hhash, hpos, hmin⟩ := hbehind hne
    rw [endsBehindGap, atDocumentMarker_of_pos hpos, columnOf_layoutFrom,
      layoutFrom_cons (endsLine_of_inline hc)]
    simp [hhash, hmin]
  have hfold : (foldGap (chars gap).reverse).reverse = chars gap := by
    rw [foldGap_of_spaces fun d hd => hgap d (List.mem_reverse.mp hd), List.reverse_reverse]
  rw [layoutFrom_cons (endsLine_of_inline hc)] at hgoes ⊢
  rw [plainFrom]
  simp only [hblank, isBreak_of_inline hc, hend, hends, hgoes, hfold, Bool.or_self, Bool.false_and,
    Bool.false_eq_true, if_false]

/-- A space is kept until it shows whether the text goes on. -/
theorem plainFrom_space :
    plainFrom false minColumn gap text (layoutFrom line column (' ' :: cs)) =
      plainFrom false minColumn (⟨' ', line, column⟩ :: gap) text
        (layoutFrom line (column + 1) cs) := by
  rw [layoutFrom_cons (by decide), plainFrom]
  rfl

/-- What the printer takes for open is all that the lexer takes for a gap. -/
theorem isGap_of_not_open {d : Char} (h : isOpen (some d) = false) : isGap d = false := by
  rw [isOpen, Option.all_some, endsLine, Bool.or_eq_false_iff, Bool.or_eq_false_iff,
    Bool.or_eq_false_iff, Bool.or_eq_false_iff] at h
  obtain ⟨⟨hblank, ⟨hbreak, -⟩, -⟩, hend⟩ := h
  rw [isGap, hblank, isLineEnd, hbreak, Bool.false_or, Bool.false_or]
  exact hend

/-- No colon of a plain text stands in front of a gap. -/
theorem isGap_next (hinline : ∀ d ∈ cs, isInline d = true)
    (hclosed : isOpen cs.head? = false) (tail : List Char) :
    isGap (charAt (layoutFrom line column (cs ++ tail)) 0) = false := by
  cases cs with
  | nil => cases hclosed
  | cons d rest =>
      rw [List.cons_append, layoutFrom_cons (endsLine_of_inline (hinline d List.mem_cons_self)),
        charAt_cons_zero]
      exact isGap_of_not_open hclosed

/-- A plain text is taken up to its end, behind a character `p` and the spaces of a gap. -/
theorem plainFrom_append {p : Char} (hinline : ∀ c ∈ cs, isInline c = true)
    (hspecial : holdsSpecial (p :: cs) = false) (hlast : (p :: cs).getLast? ≠ some ' ')
    (hgap : ∀ d ∈ chars gap, d = ' ')
    (hbehind : gap ≠ [] → p = ' ' ∧ 0 < column ∧ minColumn ≤ column)
    (hcolumn : minColumn ≤ column + 1) (tail : List Char) :
    plainFrom false minColumn gap text (layoutFrom line column (cs ++ tail)) =
      plainFrom false minColumn [] (cs.reverse ++ chars gap ++ text)
        (layoutFrom line (column + cs.length) tail) := by
  -- A gap is kept aside until a visible character follows it, so the gap is part of the induction.
  induction cs generalizing p gap text column with
  | nil =>
      have hnone : gap = [] := by
        cases gap with
        | nil => rfl
        | cons s rest => exact absurd (congrArg some (hbehind nofun).1) hlast
      rw [hnone]
      rfl
  | cons c rest ih =>
      rw [List.forall_mem_cons] at hinline
      obtain ⟨hc, hrest⟩ := hinline
      rw [holdsSpecial, Bool.or_eq_false_iff, Bool.or_eq_false_iff] at hspecial
      obtain ⟨⟨hcolon, hhash⟩, hspecial⟩ := hspecial
      rw [List.getLast?_cons_cons] at hlast
      have hlength : column + (c :: rest).length = column + 1 + rest.length := by
        rw [List.length_cons]
        omega
      rw [List.cons_append, hlength]
      by_cases hvisible : c = ' '
      · subst hvisible
        have hgap' : ∀ d ∈ chars (⟨' ', line, column⟩ :: gap), d = ' ' := by
          rw [chars, List.map_cons, List.forall_mem_cons]
          exact ⟨rfl, hgap⟩
        rw [plainFrom_space, ih hrest hspecial hlast hgap' (fun _ => ⟨rfl, by omega, hcolumn⟩)
          (by omega)]
        simp [chars]
      · rw [plainFrom_visible hc hvisible ?_ hgap ?_]
        · rw [ih hrest hspecial hlast (by simp [chars]) (fun hne => absurd rfl hne) (by omega)]
          simp [chars]
        · intro hc
          rw [beq_iff_eq.mpr hc, Bool.true_and] at hcolon
          exact isGap_next hrest hcolon tail
        · intro hne
          obtain ⟨rfl, hpos, hmin⟩ := hbehind hne
          refine ⟨?_, hpos, hmin⟩
          rintro rfl
          exact absurd hhash (by decide)

/-- A text that stands as it is. -/
structure PlainText (cs : List Char) : Prop where
  ne_nil : cs ≠ []
  inline : ∀ c ∈ cs, isInline c = true
  head : cs.head? ≠ some ' '
  last : cs.getLast? ≠ some ' '
  starts : startsSpecially cs = false
  special : holdsSpecial cs = false

/-- A text that may be written plainly is a plain text. -/
theorem plainText_of (hne : cs ≠ []) (h : plainAllowed cs = true) : PlainText cs := by
  simp only [plainAllowed, Bool.and_eq_true, Bool.not_eq_true', List.all_eq_true,
    List.any_eq_false] at h
  obtain ⟨⟨⟨⟨⟨hprintable, hends⟩, hhead⟩, hlast⟩, hstarts⟩, hspecial⟩ := h
  refine ⟨hne, ?_, ?_, ?_, hstarts, hspecial⟩
  · intro c hc
    rw [isInline, hprintable c hc, Bool.true_and, Bool.not_eq_true']
    exact Bool.eq_false_iff.mpr (hends c hc)
  · intro heq
    rw [heq] at hhead
    cases hhead
  · intro heq
    rw [heq] at hlast
    cases hlast

/-- A plain text may be written plainly. -/
theorem PlainText.plainAllowed (h : PlainText cs) : plainAllowed cs = true := by
  have hedge : ∀ {o : Option Char}, o ≠ some ' ' → (∀ c ∈ o, c ∈ cs) → o.any isEdge = false := by
    intro o hspace hmem
    cases o with
    | none => rfl
    | some c =>
        have hends := endsLine_of_inline (h.inline c (hmem c rfl))
        rw [Option.any_some, isEdge, hends, Bool.or_false, beq_eq_false_iff_ne]
        exact fun heq => hspace (congrArg some heq)
  have hhead := hedge h.head fun _ => List.mem_of_mem_head?
  have hlast := hedge h.last fun _ => List.mem_of_getLast?
  have hprintable : cs.all isPrintable = true := by
    rw [List.all_eq_true]
    exact fun c hc => (Bool.and_eq_true_iff.mp (h.inline c hc)).1
  have hends : cs.any endsLine = false := by
    rw [List.any_eq_false]
    exact fun c hc => Bool.eq_false_iff.mp (endsLine_of_inline (h.inline c hc))
  rw [Print.plainAllowed, hprintable, hends, hhead, hlast, h.starts, h.special]
  rfl

instance : DecidablePred PlainText := fun cs =>
  decidable_of_iff (cs ≠ [] ∧ plainAllowed cs = true)
    ⟨fun h => plainText_of h.1 h.2, fun h => ⟨h.ne_nil, h.plainAllowed⟩⟩

/-- A colon at the start stands in front of a character that is no gap. -/
theorem isOpen_of_starts (h : startsSpecially (c :: cs) = false) (hc : c = ':') :
    isOpen cs.head? = false := by
  subst hc
  simpa [startsSpecially] using h

/-- A plain text is read up to its last character. -/
theorem PlainText.plain?_eq (h : PlainText cs) (hcolumn : minColumn ≤ column + 1)
    (tail : List Char) :
    plain? false minColumn (layoutFrom line column (cs ++ tail)) =
      plainFrom false minColumn [] cs.reverse (layoutFrom line (column + cs.length) tail) := by
  cases cs with
  | nil => exact absurd rfl h.ne_nil
  | cons c rest =>
      obtain ⟨hc, hrest⟩ := List.forall_mem_cons.mp h.inline
      have hvisible : c ≠ ' ' := by
        rintro rfl
        exact h.head rfl
      have hcolon (heq : c = ':') :=
        @isGap_next line (column + 1) _ hrest (isOpen_of_starts h.starts heq) tail
      have hnone : ∀ {p : Prop}, ([] : List Spot) ≠ [] → p := fun hne => absurd rfl hne
      rw [plain?, List.cons_append,
        plainFrom_visible hc hvisible hcolon (by simp [chars]) hnone,
        plainFrom_append hrest h.special h.last (by simp [chars]) hnone (by omega)]
      rw [List.length_cons, Nat.add_right_comm, Nat.add_assoc]
      simp [chars]

/-- A colon in front of a gap ends a plain scalar. -/
theorem plainFrom_colon (hgap : isGap (charAt (layoutFrom line (column + 1) cs) 0) = true) :
    plainFrom false minColumn [] text (layoutFrom line column (':' :: cs)) =
      some ⟨text.reverse, false, layoutFrom line column (':' :: cs)⟩ := by
  rw [layoutFrom_cons (by decide), plainFrom]
  simp [isBlank, isBreak, endsPlain, hgap, chars]

/-- A visible character that starts no comment, or the end. -/
def StartsVisible : List Char → Prop
  | [] => True
  | c :: _ => isInline c = true ∧ c ≠ ' ' ∧ c ≠ '#'

/-- At a visible character of a line further out a plain scalar ends. -/
theorem plainFrom_spaces (hcs : StartsVisible cs) {j : Nat} (hcolumn : column + j < minColumn)
    (hgap : (chars gap).any isBreak = true) :
    plainFrom false minColumn gap text (layoutFrom line column (List.replicate j ' ' ++ cs)) =
      some ⟨text.reverse, true, layoutFrom line (column + j) cs⟩ := by
  induction j generalizing gap column with
  | zero =>
      rw [List.replicate_zero, List.nil_append, Nat.add_zero]
      cases cs with
      | nil =>
          rw [layoutFrom_nil, plainFrom]
          simp [isBlank, isBreak, endMark, hgap]
      | cons c rest =>
          obtain ⟨hc, hvisible, -⟩ := hcs
          have hblank : isBlank c = false := by
            rw [isBlank_of_inline hc]
            exact beq_eq_false_iff_ne.mpr hvisible
          have hne : gap.isEmpty = false := by
            cases gap with
            | nil => cases hgap
            | cons => rfl
          have hends :
              endsBehindGap false minColumn (layoutFrom line column (c :: rest)) = true := by
            rw [endsBehindGap, columnOf_layoutFrom]
            simp [show column < minColumn from hcolumn]
          rw [layoutFrom_cons (endsLine_of_inline hc)] at hends ⊢
          rw [plainFrom]
          simp [hblank, isBreak_of_inline hc, hne, hends, hgap]
  | succ j ih =>
      rw [List.replicate_succ, List.cons_append, plainFrom_space, ih (by omega)]
      · rw [Nat.add_right_comm, Nat.add_assoc]
      · rw [chars, List.map_cons, List.any_cons]
        rw [chars] at hgap
        rw [hgap, Bool.or_true]

/-- A plain scalar ends with its line if the next one does not lie further in. -/
theorem plainFrom_newline {j : Nat} (hcs : StartsVisible cs) (hj : j < minColumn) :
    plainFrom false minColumn [] text
        (layoutFrom line column ('\n' :: (List.replicate j ' ' ++ cs))) =
      some ⟨text.reverse, true, layoutFrom (line + 1) j cs⟩ := by
  rw [layoutFrom_newline, plainFrom]
  have hspaces := @plainFrom_spaces minColumn (line + 1) 0 [⟨'\n', line, column⟩] text cs hcs j
    (by omega) rfl
  rw [Nat.zero_add] at hspaces
  rw [← hspaces]
  rfl

end Scalar

end SolarBill.Yaml
