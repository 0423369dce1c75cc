import Mathlib.Tactic.ByContra
import SolarBill.Proofs.Yaml.Lines
import SolarBill.Yaml.Token.Lexer

/-!
# The lexer in a block

The state of the lexer between two tokens of a document in block style is what is left of the text,
the tokens so far, the columns of the open collections, and the one candidate for a key
(`Lexer.inBlock`).  From there the lexer goes to the next visible character, forgets a candidate of
an earlier line and closes the collections that the character does not lie within
(`advance?_spaces`, `advance?_newline`, `closeTo_cons`); a scalar that stands there becomes one
token (`token?_line_colon`, `token?_line_newline`).
-/

namespace SolarBill.Yaml

open Print Spot Scalar

namespace Lexer

/-- A column lies within the innermost of the open collections. -/
def Within (column : Nat) (indents : List Nat) : Prop :=
  ∀ i ∈ indents.head?, i ≤ column

theorem Within.nil (column : Nat) : Within column [] := by
  intro i hi
  cases hi

/-- A column lies within a collection that starts at it or before it. -/
theorem Within.cons {i column : Nat} (h : i ≤ column) (indents : List Nat) :
    Within column (i :: indents) := by
  rintro _ ⟨⟩
  exact h

theorem Within.mono {column column' : Nat} {indents : List Nat} (h : Within column indents)
    (hle : column ≤ column') : Within column' indents :=
  fun i hi => Nat.le_trans (h i hi) hle

/-- The lexer within a block, in front of characters. -/
def inBlock (tokens : List Token) (indents : List Nat) (c : Option Candidate) (keyAllowed : Bool)
    (line column : Nat) (cs : List Char) : Lexer where
  rest := layoutFrom line column cs
  tokens := tokens.toArray
  indents := indents
  candidates := [c]
  keyAllowed := keyAllowed

section

variable {tokens : List Token} {indents : List Nat} {c : Option Candidate} {keyAllowed : Bool}
  {line column : Nat} {cs : List Char}

/-- A block is no flow. -/
@[simp]
theorem inFlow_inBlock : (inBlock tokens indents c keyAllowed line column cs).inFlow = false := rfl

/-- The lexer knows its column. -/
@[simp]
theorem column_inBlock : (inBlock tokens indents c keyAllowed line column cs).column = column :=
  columnOf_layoutFrom line column cs

@[simp]
theorem rest_inBlock :
    (inBlock tokens indents c keyAllowed line column cs).rest = layoutFrom line column cs := rfl

/-! ### Between tokens -/

/-- There is no gap in front of a visible character. -/
theorem skipGap_visible (hcs : StartsVisible cs) :
    skipGap false keyAllowed false (layoutFrom line column cs) =
      (keyAllowed, layoutFrom line column cs) := by
  cases cs with
  | nil =>
      rw [layoutFrom_nil, skipGap]
      simp [isBreak, endMark]
  | cons d rest =>
      obtain ⟨hd, hvisible, hcomment⟩ := hcs
      have hend : d ≠ endMark := ne_of_inline hd (by decide)
      have hmark : d ≠ '\ufeff' := ne_of_inline hd (by decide)
      have htab : d ≠ '\t' := ne_of_inline hd (by decide)
      rw [layoutFrom_cons (endsLine_of_inline hd), skipGap]
      simp [isBreak_of_inline hd, hend, hmark, htab, hvisible, hcomment]

/-- Spaces are a gap up to the next visible character. -/
theorem skipGap_spaces (hcs : StartsVisible cs) (j : Nat) :
    skipGap false keyAllowed false (layoutFrom line column (List.replicate j ' ' ++ cs)) =
      (keyAllowed, layoutFrom line (column + j) cs) := by
  induction j generalizing column with
  | zero => exact skipGap_visible hcs
  | succ j ih =>
      rw [List.replicate_succ, List.cons_append, layoutFrom_cons (by decide), skipGap]
      rw [Nat.add_comm j, ← Nat.add_assoc, ← ih]
      rfl

/-- A candidate that may still be a key. -/
def Fresh (line column : Nat) (c : Option Candidate) : Prop :=
  ∀ k ∈ c, k.line = line ∧ column ≤ k.column + 1024

/-- A candidate of an earlier line, which need not be a key. -/
def Passed (line : Nat) (c : Option Candidate) : Prop :=
  ∀ k ∈ c, k.line < line ∧ k.required = false

/-- Without a candidate nothing is stale. -/
theorem fresh_none : Fresh line column none := by
  intro k hk
  cases hk

/-- A fresh candidate is not stale. -/
theorem not_isStale (hc : Fresh line column c) {l : Lexer}
    (hrest : l.rest = layoutFrom line column cs) : c.any l.isStale = false := by
  cases c with
  | none => rfl
  | some k =>
      obtain ⟨hline, hcolumn⟩ := hc k rfl
      simp [isStale, Lexer.column, hrest, hline, hcolumn]

/-- Where no candidate is stale, none is dropped. -/
theorem dropStale?_eq {l : Lexer} (h : ∀ c ∈ l.candidates, c.any l.isStale = false) :
    l.dropStale? = some l := by
  have hkept : l.candidates.map (fun c => if c.any l.isStale then none else c) =
      l.candidates.map id := by
    apply List.map_congr_left
    intro c hc
    rw [h c hc, if_neg Bool.false_ne_true, id]
  have hnone :
      ¬ (l.candidates.any fun c => c.any l.isStale && c.any Candidate.required) = true := by
    rw [List.any_eq_true]
    intro ⟨c, hc, hstale⟩
    rw [h c hc] at hstale
    cases hstale
  rw [dropStale?, if_neg hnone, hkept, List.map_id]

/-- A fresh candidate stays. -/
theorem dropStale?_fresh (hc : Fresh line column c) :
    (inBlock tokens indents c keyAllowed line column cs).dropStale? =
      some (inBlock tokens indents c keyAllowed line column cs) := by
  apply dropStale?_eq
  intro c' hc'
  rw [List.mem_singleton.mp hc']
  exact not_isStale hc rest_inBlock

/-- A candidate of an earlier line is dropped, as it need not be a key. -/
theorem dropStale?_passed (hc : Passed line c) :
    (inBlock tokens indents c keyAllowed line column cs).dropStale? =
      some (inBlock tokens indents none keyAllowed line column cs) := by
  cases c with
  | none => rfl
  | some k =>
      obtain ⟨hline, hrequired⟩ := hc k rfl
      have hstale :
          (inBlock tokens indents (some k) keyAllowed line column cs).isStale k = true := by
        simp [isStale, hline]
      simp only [dropStale?, inBlock, List.any_cons, Option.any_some] at hstale ⊢
      simp [hstale, hrequired]

/-- The end of a line and the indentation of the next one are a gap, and a key may follow. -/
theorem skipGap_newline (hcs : StartsVisible cs) (j : Nat) :
    skipGap false keyAllowed false
        (layoutFrom line column ('\n' :: (List.replicate j ' ' ++ cs))) =
      (true, layoutFrom (line + 1) j cs) := by
  have hspaces := @skipGap_spaces true (line + 1) 0 cs hcs j
  rw [Nat.zero_add] at hspaces
  rw [layoutFrom_newline, skipGap, ← hspaces]
  simp [isBreak]

/-- The lexer advances over the gap, drops a stale candidate and closes what ends there. -/
theorem advance?_eq (l : Lexer) {m : Lexer} {keyAllowed : Bool} {rest : List Spot}
    (hskip : skipGap l.inFlow l.keyAllowed false l.rest = (keyAllowed, rest))
    (hdrop : dropStale? { l with rest := rest, keyAllowed := keyAllowed } = some m) :
    l.advance? = some (m.closeTo m.column) := by
  rw [advance?, hskip]
  simp only
  rw [hdrop, Option.map_some]

/-- On its line the lexer goes to the next visible character. -/
theorem advance?_spaces (hcs : StartsVisible cs) {j : Nat} (hc : Fresh line (column + j) c) :
    (inBlock tokens indents c keyAllowed line column (List.replicate j ' ' ++ cs)).advance? =
      some ((inBlock tokens indents c keyAllowed line (column + j) cs).closeTo (column + j)) := by
  have hdrop := @dropStale?_fresh tokens indents c keyAllowed line (column + j) cs hc
  rw [advance?_eq (inBlock _ _ _ _ _ _ _) (skipGap_spaces hcs j) hdrop, column_inBlock]

/-- On a line behind that of its candidate the lexer forgets it. -/
theorem advance?_passed (hcs : StartsVisible cs) {j : Nat} (hc : Passed line c) :
    (inBlock tokens indents c keyAllowed line column (List.replicate j ' ' ++ cs)).advance? =
      some ((inBlock tokens indents none keyAllowed line (column + j) cs).closeTo
        (column + j)) := by
  have hdrop := @dropStale?_passed tokens indents c keyAllowed line (column + j) cs hc
  rw [advance?_eq (inBlock _ _ _ _ _ _ _) (skipGap_spaces hcs j) hdrop, column_inBlock]

/-- Behind its line the lexer goes to the first visible character of the next one. -/
theorem advance?_newline (hcs : StartsVisible cs) {j : Nat} (hc : Passed (line + 1) c) :
    (inBlock tokens indents c keyAllowed line column
        ('\n' :: (List.replicate j ' ' ++ cs))).advance? =
      some ((inBlock tokens indents none true (line + 1) j cs).closeTo j) := by
  have hdrop := @dropStale?_passed tokens indents c true (line + 1) j cs hc
  have hadvance := advance?_eq (inBlock tokens indents c keyAllowed line column
    ('\n' :: (List.replicate j ' ' ++ cs))) (skipGap_newline hcs j) hdrop
  rwa [column_inBlock] at hadvance

/-- A collection that a column lies outside of is closed. -/
theorem closeTo_cons {i j : Nat} (h : j < i) :
    (inBlock tokens (i :: indents) c keyAllowed line column cs).closeTo j =
      (inBlock (tokens ++ [.blockEnd]) indents c keyAllowed line column cs).closeTo j := by
  simp [closeTo, closeWhile, inBlock, inFlow, h, Array.replicate_succ']

/-- A collection that a column lies within stays open. -/
theorem closeTo_of_le {j : Nat} (h : Within j indents) :
    (inBlock tokens indents c keyAllowed line column cs).closeTo j =
      inBlock tokens indents c keyAllowed line column cs := by
  have hnone : indents.takeWhile (j < ·) = [] := by
    cases indents with
    | nil => rfl
    | cons i rest => simp [Nat.not_lt.mpr (h i rfl)]
  simp [closeTo, closeWhile, inBlock, inFlow, hnone]

end

/-! ### The start of a plain scalar -/

section

variable {line column : Nat} {c : Char} {cs tail : List Char}

/-- A text that starts like a plain scalar does not start with a mark. -/
theorem not_mem_of_starts (h : startsSpecially (c :: cs) = false) :
    c ∉ [',', '[', ']', '\x7b', '\x7d', '#', '&', '*', '!', '|', '>', '\'', '"', '%', '@',
      '\x60'] := by
  intro hmem
  revert h
  simp only [List.mem_cons, List.not_mem_nil, or_false] at hmem
  rcases hmem with rfl | rfl | rfl | rfl | rfl | rfl | rfl | rfl | rfl | rfl | rfl | rfl | rfl |
    rfl | rfl | rfl <;> simp [startsSpecially]

/-- A sign that could stand for itself is followed by a character that is no gap. -/
theorem isOpen_of_starts_sign (h : startsSpecially (c :: cs) = false) (hc : c ∈ ['?', ':', '-']) :
    isOpen cs.head? = false := by
  revert h
  simp only [List.mem_cons, List.not_mem_nil, or_false] at hc
  rcases hc with rfl | rfl | rfl
  · simp [startsSpecially]
  · simp [startsSpecially]
  · unfold startsSpecially
    split
    · simp
    · simp
    · next heq =>
        cases heq
        simp
    · next heq => cases heq

/-- What ends a scalar on its line: a colon or the end of the line. -/
def Ends (tail : List Char) : Prop :=
  ∃ e rest, tail = e :: rest ∧ (e = ':' ∨ e = '\n')

/-- No plain scalar starts with the marks of a document. -/
theorem not_atMarker (h : PlainText cs) (htail : Ends tail) {mark : Char}
    (hmark : mark = '-' ∨ mark = '.') :
    atMarker mark (layoutFrom line column (cs ++ tail)) = false := by
  obtain ⟨e, rest, rfl, he⟩ := htail
  have hne : e ≠ mark := by
    rcases he with rfl | rfl <;> rcases hmark with rfl | rfl <;> decide
  have hend : ∀ column, charAt (layoutFrom line column (e :: rest)) 0 ≠ mark := by
    intro column
    rcases he with rfl | rfl
    · rw [layoutFrom_cons (by decide), charAt_cons_zero]
      exact hne
    · exact hne
  have hlay : ∀ {c : Char} {column : Nat} {rest : List Char}, c ∈ cs →
      layoutFrom line column (c :: rest) = ⟨c, line, column⟩ :: layoutFrom line (column + 1) rest :=
    fun hc => layoutFrom_cons (endsLine_of_inline (h.inline _ hc)) _ _ _
  rw [atMarker]
  cases cs with
  | nil => exact absurd rfl h.ne_nil
  | cons c cs =>
      rw [List.cons_append, hlay (by simp), charAt_cons_succ, charAt_cons_succ]
      cases cs with
      | nil =>
          rw [List.nil_append]
          simp [hend]
      | cons d cs =>
          rw [List.cons_append, hlay (by simp), charAt_cons_succ]
          cases cs with
          | nil =>
              rw [List.nil_append]
              simp [hend]
          | cons f cs =>
              rw [List.cons_append, hlay (by simp)]
              have hstarts := h.starts
              by_contra hmarker
              simp only [charAt_cons_zero, Bool.not_eq_false, Bool.and_eq_true, beq_iff_eq]
                at hmarker
              obtain ⟨⟨⟨⟨-, rfl⟩, rfl⟩, rfl⟩, -⟩ := hmarker
              rcases hmark with rfl | rfl <;> simp [startsSpecially] at hstarts

theorem isGap_of_inline (hc : isInline c = true) (hvisible : c ≠ ' ') : isGap c = false := by
  have hend : (c == endMark) = false := beq_eq_false_iff_ne.mpr (ne_of_inline hc (by decide))
  rw [isGap, isBlank_of_inline hc, isLineEnd, isBreak_of_inline hc, hend, Bool.or_false,
    Bool.or_false]
  exact beq_eq_false_iff_ne.mpr hvisible

/-- Another character is no start or end of a document. -/
theorem atMarker_of_ne {mark : Char} {s : List Spot} (h : charAt s 0 ≠ mark) :
    atMarker mark s = false := by
  simp [atMarker, h]

variable {tokens : List Token} {indents : List Nat} {k : Option Candidate} {keyAllowed : Bool}

/-- A plain text is read as a plain scalar. -/
theorem token?_plain (h : PlainText cs) (htail : Ends tail) :
    (inBlock tokens indents k keyAllowed line column (cs ++ tail)).token? =
      (inBlock tokens indents k keyAllowed line column (cs ++ tail)).plain? := by
  have hdash := @not_atMarker line column _ _ h htail '-' (.inl rfl)
  have hdot := @not_atMarker line column _ _ h htail '.' (.inr rfl)
  cases cs with
  | nil => exact absurd rfl h.ne_nil
  | cons c cs =>
      obtain ⟨hc, hcs⟩ := List.forall_mem_cons.mp h.inline
      rw [List.cons_append] at hdash hdot ⊢
      have hfirst : charAt (layoutFrom line column (c :: (cs ++ tail))) 0 = c := by
        rw [layoutFrom_cons (endsLine_of_inline hc), charAt_cons_zero]
      have hnext : c ∈ ['?', ':', '-'] →
          isGap (charAt (layoutFrom line column (c :: (cs ++ tail))) 1) = false := by
        intro hsign
        rw [layoutFrom_cons (endsLine_of_inline hc), charAt_cons_succ]
        exact isGap_next hcs (isOpen_of_starts_sign h.starts hsign) tail
      have hmem := not_mem_of_starts h.starts
      have hvisible : isGap c = false := isGap_of_inline hc fun heq => h.head (congrArg some heq)
      simp only [List.mem_cons, List.not_mem_nil, or_false, not_or] at hmem hnext
      by_cases hsign : c = '?' ∨ c = ':' ∨ c = '-'
      · have hgap := hnext hsign
        have hblank : isBlank (charAt (layoutFrom line column (c :: (cs ++ tail))) 1) = false := by
          rw [isGap, Bool.or_eq_false_iff] at hgap
          exact hgap.1
        rcases hsign with rfl | rfl | rfl
        · simp [token?, char, hfirst, hgap, hdash, hdot, startsPlain]
        · simp [token?, char, hfirst, hgap, hdash, hdot, startsPlain]
        · simp [token?, char, hfirst, hgap, hdash, hdot, startsPlain, hblank]
      · rw [not_or, not_or] at hsign
        obtain ⟨hcomma, hopen, hclose, hbrace, hbraceEnd, hcomment, hanchor, halias, htag, hliteral,
          hfolded, hsingle, hdouble, hpercent, hat, hgrave⟩ := hmem
        obtain ⟨hquestion, hcolon, hhyphen⟩ := hsign
        simp [token?, char, startsPlain, *]

/-! ### Scalars -/

/-- The candidate that is remembered at the start of a node. -/
def saved (tokens : List Token) (indents : List Nat) (keyAllowed : Bool) (line column : Nat) :
    Option Candidate :=
  if keyAllowed then
    some
      { place := tokens.length, line := line, column := column
        required := indents.head? == some column }
  else none

/-- At the start of a node a candidate is remembered. -/
theorem saveCandidate?_inBlock :
    (inBlock tokens indents none keyAllowed line column cs).saveCandidate? =
      some (inBlock tokens indents (saved tokens indents keyAllowed line column) keyAllowed line
        column cs) := by
  cases keyAllowed with
  | false => rfl
  | true =>
      simp [saveCandidate?, dropCandidate?, setCandidate, candidate?, inBlock, saved, inFlow,
        Lexer.column]

/-- The content of a collection starts one column behind it at least. -/
theorem minColumn_le (hcolumn : Within column indents) :
    (inBlock tokens indents k keyAllowed line column cs).minColumn ≤ column + 1 := by
  cases indents with
  | nil => exact Nat.zero_le _
  | cons i rest => exact Nat.succ_le_succ (hcolumn i rfl)

theorem minColumn_cons (i : Nat) :
    (inBlock tokens (i :: indents) k keyAllowed line column cs).minColumn = i + 1 := rfl

/-- A quote starts a quoted scalar. -/
theorem token?_quote {quote : Char} {style : Style}
    (hquote : (quote = '\'' ∧ style = .singleQuoted) ∨ (quote = '"' ∧ style = .doubleQuoted)) :
    (inBlock tokens indents k keyAllowed line column (quote :: cs)).token? =
      (inBlock tokens indents k keyAllowed line column (quote :: cs)).quoted? style := by
  have hfirst : charAt (layoutFrom line column (quote :: cs)) 0 = quote := by
    rcases hquote with ⟨rfl, -⟩ | ⟨rfl, -⟩ <;> exact charAt_layoutFrom_zero (by decide) _ _ _
  have hmarker : ∀ mark, quote ≠ mark →
      atMarker mark (layoutFrom line column (quote :: cs)) = false :=
    fun mark hne => atMarker_of_ne (by rwa [hfirst])
  rcases hquote with ⟨rfl, rfl⟩ | ⟨rfl, rfl⟩ <;> simp [token?, char, hfirst, hmarker]

/-- A scalar that is quoted. -/
theorem token?_quoted {w s : List Char} {style : Style} (h : Line w style s)
    (hstyle : style ≠ .plain) (hnext : ∀ column, charAt (layoutFrom line column tail) 0 ≠ '\'') :
    (inBlock tokens indents none keyAllowed line column (w ++ tail)).token? =
      some (inBlock (tokens ++ [.scalar style (.ofList s)]) indents
        (saved tokens indents keyAllowed line column) false line (column + w.length) tail) := by
  have hquoted : ∀ {quote : Char} {body : List Char},
      (quote = '\'' ∧ style = .singleQuoted) ∨ (quote = '"' ∧ style = .doubleQuoted) →
      quotedFrom quote {} (layoutFrom line (column + 1) (body ++ quote :: tail)) =
        some (s, layoutFrom line (column + 1 + body.length + 1) tail) →
      (inBlock tokens indents none keyAllowed line column
          (quote :: (body ++ [quote]) ++ tail)).token? =
        some (inBlock (tokens ++ [.scalar style (.ofList s)]) indents
          (saved tokens indents keyAllowed line column) false line
          (column + (quote :: (body ++ [quote])).length) tail) := by
    intro quote body hquote hread
    have hlay : ∀ cs, layoutFrom line column (quote :: cs) =
        ⟨quote, line, column⟩ :: layoutFrom line (column + 1) cs := by
      intro cs
      rcases hquote with ⟨rfl, -⟩ | ⟨rfl, -⟩ <;> exact layoutFrom_cons (by decide) _ _ _
    have hcolumns :
        column + (quote :: (body ++ [quote])).length = column + 1 + body.length + 1 := by
      simp
      omega
    rw [List.cons_append, List.append_assoc, List.singleton_append, token?_quote hquote,
      Lexer.quoted?, rest_inBlock, Scalar.quoted?, hlay, charAt_cons_zero, List.drop_succ_cons,
      List.drop_zero, hread, node?, saveCandidate?_inBlock, hcolumns]
    simp [emitTo, allowKey, inBlock]
  have hstart : Quoting.Inside {} := .behind []
  cases h with
  | plain => exact absurd rfl hstyle
  | single hs =>
      exact hquoted (.inl ⟨rfl, rfl⟩)
        (quotedFrom_doubled hstart hs (Nat.succ_pos _) hnext)
  | double =>
      exact hquoted (.inr ⟨rfl, rfl⟩) (quotedFrom_escaped hstart (Nat.succ_pos _) hnext s)

/-- A scalar in front of a colon. -/
theorem token?_line_colon {w s : List Char} {style : Style} (h : Line w style s)
    (hgap : ∀ column, isGap (charAt (layoutFrom line column cs) 0) = true)
    (hcolumn : Within column indents) :
    (inBlock tokens indents none keyAllowed line column (w ++ ':' :: cs)).token? =
      some (inBlock (tokens ++ [.scalar style (.ofList s)]) indents
        (saved tokens indents keyAllowed line column) false line (column + w.length)
        (':' :: cs)) := by
  have hnext : ∀ column, charAt (layoutFrom line column (':' :: cs)) 0 ≠ '\'' := by
    intro column
    rw [charAt_layoutFrom_zero (by decide)]
    decide
  by_cases hstyle : style = .plain
  · cases h with
    | plain hs =>
        rw [token?_plain hs ⟨_, _, rfl, .inl rfl⟩, Lexer.plain?, saveCandidate?_inBlock]
        simp only [Option.bind_eq_bind, Option.bind_some, inFlow_inBlock, rest_inBlock]
        rw [hs.plain?_eq (minColumn_le hcolumn), plainFrom_colon (hgap _), List.reverse_reverse]
        simp [emitTo, allowKey, inBlock]
    | _ => cases hstyle
  · exact token?_quoted h hstyle hnext

/-- Within a collection, no candidate has to be a key. -/
theorem passed_saved (tokens : List Token) (indents : List Nat) (keyAllowed : Bool) (line : Nat)
    {i : Nat} (hi : i < column) :
    Passed (line + 1) (saved tokens (i :: indents) keyAllowed line column) := by
  intro k hk
  cases keyAllowed with
  | false => cases hk
  | true =>
      cases hk
      refine ⟨Nat.lt_succ_self line, beq_eq_false_iff_ne.mpr ?_⟩
      rw [List.head?_cons, Ne, Option.some.injEq]
      omega

/-- A scalar at the end of a line, in front of a line that does not lie further in than the
collection it stands in. -/
theorem token?_line_newline {w s : List Char} {style : Style} (h : Line w style s) {i : Nat}
    (hi : i < column) (hcs : StartsVisible cs) {j : Nat} (hj : j ≤ i) :
    ∃ m, (inBlock tokens (i :: indents) none keyAllowed line column
          (w ++ '\n' :: (List.replicate j ' ' ++ cs))).token? = some m ∧
      m.advance? = (inBlock (tokens ++ [.scalar style (.ofList s)]) (i :: indents) none true
        (line + 1) 0 (List.replicate j ' ' ++ cs)).advance? := by
  have hcolumn : Within column (i :: indents) := .cons (Nat.le_of_lt hi) indents
  have hpassed := passed_saved tokens indents keyAllowed line hi
  have hline := @advance?_spaces (tokens ++ [.scalar style (.ofList s)]) (i :: indents) none true
    (line + 1) 0 cs hcs j fresh_none
  rw [Nat.zero_add] at hline
  by_cases hstyle : style = .plain
  · cases h with
    | plain hs =>
        refine ⟨inBlock (tokens ++ [.scalar .plain (.ofList w)]) (i :: indents)
          (saved tokens (i :: indents) keyAllowed line column) true (line + 1) j cs, ?_, ?_⟩
        · rw [token?_plain hs ⟨_, _, rfl, .inr rfl⟩, Lexer.plain?, saveCandidate?_inBlock]
          simp only [Option.bind_eq_bind, Option.bind_some, inFlow_inBlock, rest_inBlock]
          rw [hs.plain?_eq (minColumn_le hcolumn), minColumn_cons,
            plainFrom_newline hcs (Nat.lt_succ_of_le hj), List.reverse_reverse]
          simp [emitTo, allowKey, inBlock]
        · rw [hline]
          exact @advance?_passed _ _ _ _ _ j cs hcs 0 hpassed
    | _ => cases hstyle
  · refine ⟨_, token?_quoted h hstyle ?_, ?_⟩
    · intro column
      exact (by decide : '\n' ≠ '\'')
    · rw [hline]
      exact advance?_newline hcs hpassed

end

end Lexer

end SolarBill.Yaml
