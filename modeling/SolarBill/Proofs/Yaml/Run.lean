import SolarBill.Proofs.Yaml.Lexer

/-!
# Runs of the lexer

A document in block style is made of keys, entries, scalars at the end of a line and empty
collections.  The lexer gets past each of them in no more steps than it has characters
(`Lexer.Reads`), with the tokens that stand for it: a key opens a mapping at its column and an entry
a sequence, unless one is open there (`opened`).
-/

namespace SolarBill.Yaml

open Print Spot Scalar

namespace Lexer

section

variable {line column : Nat} {cs : List Char} {tokens : List Token} {indents : List Nat}
  {k : Option Candidate} {keyAllowed : Bool}

/-! ### Keys and entries -/

/-- Where a block collection starts at a column, it is opened unless it is open already. -/
def opened (t : Token) (column : Nat) (indents : List Nat) : List Token × List Nat :=
  if indents.head? = some column then ([], indents) else ([t], column :: indents)

theorem insertIdx_length_append (before after : List Token) (t : Token) :
    (before ++ after).insertIdx before.length t = before ++ t :: after := by
  induction before with
  | nil => rfl
  | cons b rest ih =>
      rw [List.cons_append, List.length_cons, List.insertIdx_succ_cons, ih, List.cons_append]

/-- A collection is opened in front of its first key or entry. -/
theorem openAt_inBlock (before after : List Token) (t : Token) {start : Nat}
    (hcolumn : Within start indents) :
    (inBlock (before ++ after) indents k keyAllowed line column cs).openAt start before.length t =
      inBlock (before ++ (opened t start indents).1 ++ after) (opened t start indents).2 k
        keyAllowed line column cs := by
  have hmin : (inBlock (before ++ after) indents k keyAllowed line column cs).minColumn ≤ start ↔
      indents.head? ≠ some start := by
    cases indents with
    | nil => exact iff_of_true (Nat.zero_le _) nofun
    | cons i rest =>
        have hi := hcolumn i rfl
        rw [minColumn_cons, List.head?_cons, Ne, Option.some.injEq]
        omega
  by_cases hopen : indents.head? = some start
  · have hlt := Nat.lt_of_not_le (mt hmin.mp (not_not_intro hopen))
    rw [openAt, if_pos (by simp [hlt]), opened, if_pos hopen, List.append_nil]
  · have hle := hmin.mpr hopen
    rw [openAt, if_neg (by simp [Nat.not_lt.mpr hle]), opened, if_neg hopen]
    simp [inBlock, Array.insertIdxIfInBounds, insertIdx_length_append]

/-- A colon makes the scalar before it a key. -/
theorem token?_value {t : Token} {start : Nat}
    (hgap : ∀ column, isGap (charAt (layoutFrom line column cs) 0) = true)
    (hstart : Within start indents) :
    (inBlock (tokens ++ [t]) indents (saved tokens indents true line start) false line column
        (':' :: cs)).token? =
      some (inBlock (tokens ++ (opened .mappingStart start indents).1 ++ [.key, t, .value])
        (opened .mappingStart start indents).2 none false line (column + 1) cs) := by
  have hfirst : charAt (layoutFrom line column (':' :: cs)) 0 = ':' :=
    charAt_layoutFrom_zero (by decide) line column cs
  have hnext : isGap (charAt (layoutFrom line column (':' :: cs)) 1) = true := by
    rw [charAt_layoutFrom_succ (by decide)]
    exact hgap _
  have hmarker : ∀ mark, ':' ≠ mark → atMarker mark (layoutFrom line column (':' :: cs)) = false :=
    fun mark hne => atMarker_of_ne (by rwa [hfirst])
  have hkey : (inBlock (tokens ++ [t]) indents (saved tokens indents true line start) false line
      column (':' :: cs)).value? =
        some ((emit .value 1 (setCandidate none (openAt start tokens.length .mappingStart
          (inBlock (tokens ++ [.key, t]) indents (saved tokens indents true line start) false line
            column (':' :: cs))))).allowKey false) := by
    simp [value?, candidate?, saved, inBlock, Array.insertIdxIfInBounds, insertIdx_length_append]
  have hvalue : (inBlock (tokens ++ [t]) indents (saved tokens indents true line start) false line
      column (':' :: cs)).token? =
        (inBlock (tokens ++ [t]) indents (saved tokens indents true line start) false line column
          (':' :: cs)).value? := by
    simp [token?, char, hfirst, hnext, hmarker]
  rw [hvalue, hkey, openAt_inBlock _ _ _ hstart]
  simp [emit, setCandidate, allowKey, inBlock, tail_layoutFrom (by decide : endsLine ':' = false)]

/-- A hyphen in front of a space starts an entry. -/
theorem token?_entry (hcolumn : Within column indents) :
    (inBlock tokens indents none true line column ('-' :: ' ' :: cs)).token? =
      some (inBlock (tokens ++ (opened .sequenceStart column indents).1 ++ [.entry])
        (opened .sequenceStart column indents).2 none true line (column + 1) (' ' :: cs)) := by
  have hfirst : charAt (layoutFrom line column ('-' :: ' ' :: cs)) 0 = '-' :=
    charAt_layoutFrom_zero (by decide) line column _
  have hnext : charAt (layoutFrom line column ('-' :: ' ' :: cs)) 1 = ' ' := by
    rw [charAt_layoutFrom_succ (by decide), charAt_layoutFrom_zero (by decide)]
  have hmarker : ∀ mark, mark = '-' ∨ mark = '.' →
      atMarker mark (layoutFrom line column ('-' :: ' ' :: cs)) = false := by
    intro mark hmark
    rcases hmark with rfl | rfl <;> simp [atMarker, hfirst, hnext]
  have hentry : (inBlock tokens indents none true line column ('-' :: ' ' :: cs)).token? =
      Lexer.entry? (inBlock tokens indents none true line column ('-' :: ' ' :: cs)) := by
    simp [token?, char, hfirst, hnext, hmarker, isGap, isBlank]
  have hopen := @openAt_inBlock line column ('-' :: ' ' :: cs) indents none true tokens []
    .sequenceStart column hcolumn
  rw [List.append_nil, List.append_nil] at hopen
  have hsize : (inBlock tokens indents none true line column ('-' :: ' ' :: cs)).tokens.size =
      tokens.length := by
    simp [inBlock]
  rw [hentry, entry?, column_inBlock, hsize, hopen]
  simp [dropCandidate?, candidate?, setCandidate, emit, allowKey, inBlock, inFlow,
    tail_layoutFrom (by decide : endsLine '-' = false)]

/-! ### Empty collections -/

/-- Brackets and the tokens that they stand for. -/
inductive Brackets : Char → Char → Token → Token → Prop
  | list : Brackets '[' ']' .flowSequenceStart .flowSequenceEnd
  | record : Brackets '\x7b' '\x7d' .flowMappingStart .flowMappingEnd

namespace Brackets

variable {left right : Char} {start stop : Token}

/-- The lexer between two brackets. -/
def between (tokens : List Token) (indents : List Nat) (k : Option Candidate) (line column : Nat)
    (cs : List Char) : Lexer :=
  { inBlock tokens indents k true line column cs with candidates := [none, k] }

theorem inline (h : Brackets left right start stop) :
    isInline left = true ∧ isInline right = true := by
  cases h <;> decide

/-- Brackets are visible. -/
theorem startsVisible (h : Brackets left right start stop) (cs : List Char) :
    StartsVisible (left :: cs) := by
  refine ⟨h.inline.1, ?_, ?_⟩ <;> cases h <;> decide

theorem endsLine_left (h : Brackets left right start stop) : endsLine left = false :=
  endsLine_of_inline h.inline.1

theorem endsLine_right (h : Brackets left right start stop) : endsLine right = false :=
  endsLine_of_inline h.inline.2

theorem atMarker_left (h : Brackets left right start stop) {mark : Char}
    (hmark : mark = '-' ∨ mark = '.') :
    atMarker mark (layoutFrom line column (left :: cs)) = false := by
  apply atMarker_of_ne
  rw [charAt_layoutFrom_zero h.endsLine_left]
  cases h <;> rcases hmark with rfl | rfl <;> decide

theorem atMarker_right (h : Brackets left right start stop) {mark : Char}
    (hmark : mark = '-' ∨ mark = '.') :
    atMarker mark (layoutFrom line column (right :: cs)) = false := by
  apply atMarker_of_ne
  rw [charAt_layoutFrom_zero h.endsLine_right]
  cases h <;> rcases hmark with rfl | rfl <;> decide

theorem token?_left (h : Brackets left right start stop) :
    (inBlock tokens indents none keyAllowed line column (left :: cs)).token? =
      some (between (tokens ++ [start]) indents (saved tokens indents keyAllowed line column) line
        (column + 1) cs) := by
  have hfirst := charAt_layoutFrom_zero h.endsLine_left line column cs
  have hmarker := fun mark => @atMarker_left line column cs left right start stop h mark
  have hopen : (inBlock tokens indents none keyAllowed line column (left :: cs)).token? =
      (inBlock tokens indents none keyAllowed line column (left :: cs)).openFlow? start := by
    cases h <;> simp [token?, char, hfirst, hmarker]
  rw [hopen, openFlow?, saveCandidate?_inBlock]
  simp [emit, allowKey, inBlock, between, tail_layoutFrom h.endsLine_left]

/-- There is no gap in front of the closing one. -/
theorem skipGap_right (h : Brackets left right start stop) :
    skipGap true true false (layoutFrom line column (right :: cs)) =
      (true, layoutFrom line column (right :: cs)) := by
  rw [layoutFrom_cons h.endsLine_right, skipGap]
  cases h <;> simp [isBreak, endMark]

/-- Nothing is to be skipped between them. -/
theorem advance?_between (h : Brackets left right start stop) (hk : Fresh line column k) :
    (between tokens indents k line column (right :: cs)).advance? =
      some (between tokens indents k line column (right :: cs)) := by
  have hdrop : (between tokens indents k line column (right :: cs)).dropStale? =
      some (between tokens indents k line column (right :: cs)) := by
    apply dropStale?_eq
    intro c hc
    rcases List.mem_cons.mp hc with rfl | hc
    · rfl
    · rw [List.mem_singleton.mp hc]
      exact not_isStale hk rfl
  rw [advance?_eq (between tokens indents k line column (right :: cs)) h.skipGap_right hdrop]
  rfl

/-- Behind the closing bracket the lexer is in the block again. -/
theorem token?_right (h : Brackets left right start stop) :
    (between tokens indents k line column (right :: cs)).token? =
      some (inBlock (tokens ++ [stop]) indents k false line (column + 1) cs) := by
  have hfirst := charAt_layoutFrom_zero h.endsLine_right line column cs
  have hmarker := fun mark => @atMarker_right line column cs left right start stop h mark
  have hrest : (between tokens indents k line column (right :: cs)).rest =
      layoutFrom line column (right :: cs) := rfl
  have hclose : (between tokens indents k line column (right :: cs)).token? =
      (between tokens indents k line column (right :: cs)).closeFlow? stop := by
    cases h <;> simp [token?, char, hrest, hfirst, hmarker]
  rw [hclose]
  simp [closeFlow?, dropCandidate?, candidate?, setCandidate, inFlow, emit, allowKey, between,
    inBlock, tail_layoutFrom h.endsLine_right]

end Brackets

end

/-! ### Runs -/

/-- The lexer gets from one state to another, in no more steps than it drops characters. -/
def Reads (l m : Lexer) : Prop :=
  ∃ n, n + m.rest.length ≤ l.rest.length ∧ ∀ steps, run (n + steps) l = run steps m

namespace Reads

theorem trans {l m n : Lexer} (hl : Reads l m) (hm : Reads m n) : Reads l n := by
  obtain ⟨i, hi, hrun⟩ := hl
  obtain ⟨j, hj, hrun'⟩ := hm
  refine ⟨i + j, by omega, ?_⟩
  intro steps
  rw [Nat.add_assoc, hrun, hrun']

/-- States from which the lexer advances to the same character. -/
theorem of_advance {l m : Lexer} (h : l.advance? = m.advance?)
    (hlength : m.rest.length ≤ l.rest.length) : Reads l m := by
  refine ⟨0, by omega, ?_⟩
  intro steps
  rw [Nat.zero_add]
  cases steps with
  | zero => rfl
  | succ steps => rw [run, run, h]

/-- One token. -/
theorem of_token {l a m : Lexer} (hadvance : l.advance? = some a) (hchar : a.char 0 ≠ endMark)
    (htoken : a.token? = some m) (hlength : m.rest.length < l.rest.length) : Reads l m := by
  refine ⟨1, by omega, ?_⟩
  intro steps
  rw [Nat.add_comm, run, hadvance]
  simp only [Option.bind_eq_bind, Option.bind_some, beq_iff_eq, if_neg hchar, htoken]

/-- One token, and what is between it and the next one. -/
theorem of_token_advance {l a m n : Lexer} (hadvance : l.advance? = some a)
    (hchar : a.char 0 ≠ endMark) (htoken : a.token? = some m) (hnext : m.advance? = n.advance?)
    (hlength : n.rest.length < l.rest.length) : Reads l n := by
  refine ⟨1, by omega, ?_⟩
  intro steps
  rw [Nat.add_comm, run, hadvance]
  simp only [Option.bind_eq_bind, Option.bind_some, beq_iff_eq, if_neg hchar, htoken]
  cases steps with
  | zero => rfl
  | succ steps => rw [run, run, hnext]

end Reads

section

variable {tokens : List Token} {indents : List Nat} {k : Option Candidate} {keyAllowed : Bool}
  {line column : Nat} {cs : List Char}

/-- The length of indented characters. -/
theorem length_spaces (j : Nat) (cs : List Char) :
    (layoutFrom line column (List.replicate j ' ' ++ cs)).length =
      j + (layoutFrom line (column + j) cs).length := by
  have hspaces : ∀ c ∈ List.replicate j ' ', isInline c = true := by
    intro c hc
    rw [List.eq_of_mem_replicate hc]
    decide
  rw [length_layoutFrom_append hspaces, List.length_replicate]

/-- Spaces are skipped. -/
theorem reads_spaces (hcs : StartsVisible cs) (j : Nat) :
    Reads (inBlock tokens indents none keyAllowed line column (List.replicate j ' ' ++ cs))
      (inBlock tokens indents none keyAllowed line (column + j) cs) := by
  apply Reads.of_advance
  · rw [advance?_spaces hcs fresh_none]
    exact (@advance?_spaces _ _ _ _ _ _ cs hcs 0 fresh_none).symm
  · rw [rest_inBlock, rest_inBlock, length_spaces]
    omega

/-- The end of a line is skipped. -/
theorem reads_newline (hk : Passed (line + 1) k) (hcs : StartsVisible cs) (j : Nat) :
    Reads (inBlock tokens indents k keyAllowed line column ('\n' :: (List.replicate j ' ' ++ cs)))
      (inBlock tokens indents none true (line + 1) 0 (List.replicate j ' ' ++ cs)) := by
  apply Reads.of_advance
  · rw [advance?_newline hcs hk, advance?_spaces hcs fresh_none, Nat.zero_add]
  · rw [rest_inBlock, rest_inBlock, layoutFrom_newline, List.length_cons]
    omega

/-- A collection is closed in front of what does not lie within it. -/
theorem reads_close (hcs : StartsVisible cs) {i j : Nat} (hj : column + j < i) :
    Reads (inBlock tokens (i :: indents) none keyAllowed line column (List.replicate j ' ' ++ cs))
      (inBlock (tokens ++ [.blockEnd]) indents none keyAllowed line column
        (List.replicate j ' ' ++ cs)) := by
  apply Reads.of_advance
  · rw [advance?_spaces hcs fresh_none, advance?_spaces hcs fresh_none, closeTo_cons hj]
  · exact Nat.le_refl _

/-- A visible character is no end mark. -/
theorem char_ne_endMark (hcs : StartsVisible cs) (hne : cs ≠ []) :
    (inBlock tokens indents k keyAllowed line column cs).char 0 ≠ endMark := by
  cases cs with
  | nil => exact absurd rfl hne
  | cons c cs =>
      rw [char, rest_inBlock, charAt_layoutFrom_zero (endsLine_of_inline hcs.1)]
      exact ne_of_inline hcs.1 (by decide)

/-- Where something visible stands within the innermost collection, the lexer stays. -/
theorem advance?_visible (hcs : StartsVisible cs) (hk : Fresh line column k)
    (hcolumn : Within column indents) :
    (inBlock tokens indents k keyAllowed line column cs).advance? =
      some (inBlock tokens indents k keyAllowed line column cs) := by
  have hadvance := @advance?_spaces tokens indents k keyAllowed line column cs hcs 0 hk
  rwa [Nat.add_zero, closeTo_of_le hcolumn] at hadvance

/-- **A key is read** with its colon, and opens a mapping where none is open. -/
theorem reads_key {w s : List Char} {style : Style} (h : Line w style s) (hshort : w.length ≤ 1024)
    (hgap : ∀ column, isGap (charAt (layoutFrom line column cs) 0) = true)
    (hcolumn : Within column indents) :
    Reads (inBlock tokens indents none true line column (w ++ ':' :: cs))
      (inBlock (tokens ++ (opened .mappingStart column indents).1 ++
          [.key, .scalar style (.ofList s), .value])
        (opened .mappingStart column indents).2 none false line (column + w.length + 1) cs) := by
  have hvisible := h.startsVisible (':' :: cs)
  have hcolon : StartsVisible (':' :: cs) := ⟨by decide, by decide, by decide⟩
  have hwithin : Within (column + w.length) indents := hcolumn.mono (Nat.le_add_right _ _)
  have hfresh : Fresh line (column + w.length) (saved tokens indents true line column) := by
    rintro k ⟨⟩
    exact ⟨rfl, Nat.add_le_add_left hshort column⟩
  have hlength := length_layoutFrom_append h.inline line column (':' :: cs)
  have hpos := List.length_pos_iff.mpr h.ne_nil
  apply Reads.trans
  · apply Reads.of_token (advance?_visible hvisible fresh_none hcolumn)
      (char_ne_endMark hvisible (by simp)) (token?_line_colon h hgap hcolumn)
    rw [rest_inBlock, rest_inBlock, hlength]
    omega
  · apply Reads.of_token (advance?_visible hcolon hfresh hwithin)
      (char_ne_endMark hcolon (by simp)) (token?_value hgap hcolumn)
    rw [rest_inBlock, rest_inBlock, layoutFrom_cons (by decide), List.length_cons]
    omega

/-- The hyphen of an entry is read, and opens a sequence where none is open. -/
theorem reads_entry (hcolumn : Within column indents) :
    Reads (inBlock tokens indents none true line column ('-' :: ' ' :: cs))
      (inBlock (tokens ++ (opened .sequenceStart column indents).1 ++ [.entry])
        (opened .sequenceStart column indents).2 none true line (column + 1) (' ' :: cs)) := by
  have hvisible : StartsVisible ('-' :: ' ' :: cs) := ⟨by decide, by decide, by decide⟩
  apply Reads.of_token (advance?_visible hvisible fresh_none hcolumn)
    (char_ne_endMark hvisible (by simp)) (token?_entry hcolumn)
  rw [rest_inBlock, rest_inBlock, layoutFrom_cons (by decide : endsLine '-' = false),
    List.length_cons]
  omega

/-- **A scalar is read** at the end of its line. -/
theorem reads_scalar {w s : List Char} {style : Style} (h : Line w style s) {i j : Nat}
    (hi : i < column) (hcs : StartsVisible cs) (hj : j ≤ i) :
    Reads (inBlock tokens (i :: indents) none keyAllowed line column
        (w ++ '\n' :: (List.replicate j ' ' ++ cs)))
      (inBlock (tokens ++ [.scalar style (.ofList s)]) (i :: indents) none true (line + 1) 0
        (List.replicate j ' ' ++ cs)) := by
  have hvisible := h.startsVisible ('\n' :: (List.replicate j ' ' ++ cs))
  have hcolumn : Within column (i :: indents) := .cons (Nat.le_of_lt hi) indents
  obtain ⟨m, htoken, hadvance⟩ := token?_line_newline h hi hcs hj
  apply Reads.of_token_advance (advance?_visible hvisible fresh_none hcolumn)
    (char_ne_endMark hvisible (by simp)) htoken hadvance
  rw [rest_inBlock, rest_inBlock, length_layoutFrom_append h.inline, layoutFrom_newline,
    List.length_cons]
  omega

/-- An empty collection is read at the end of its line. -/
theorem reads_brackets {left right : Char} {start stop : Token} (h : Brackets left right start stop)
    {i j : Nat} (hi : i < column) (hcs : StartsVisible cs) :
    Reads (inBlock tokens (i :: indents) none keyAllowed line column
        (left :: right :: '\n' :: (List.replicate j ' ' ++ cs)))
      (inBlock (tokens ++ [start, stop]) (i :: indents) none true (line + 1) 0
        (List.replicate j ' ' ++ cs)) := by
  have hvisible := h.startsVisible (right :: '\n' :: (List.replicate j ' ' ++ cs))
  have hcolumn : Within column (i :: indents) := .cons (Nat.le_of_lt hi) indents
  have hfresh : Fresh line (column + 1) (saved tokens (i :: indents) keyAllowed line column) := by
    intro k hk
    cases keyAllowed with
    | false => cases hk
    | true =>
        cases hk
        exact ⟨rfl, Nat.add_le_add_left (by decide) column⟩
  have hchar : (Brackets.between (tokens ++ [start]) (i :: indents)
      (saved tokens (i :: indents) keyAllowed line column) line (column + 1)
      (right :: '\n' :: (List.replicate j ' ' ++ cs))).char 0 ≠ endMark := by
    change charAt (layoutFrom line (column + 1) (right :: _)) 0 ≠ endMark
    rw [charAt_layoutFrom_zero h.endsLine_right]
    exact ne_of_inline h.inline.2 (by decide)
  refine .trans (.of_token (advance?_visible hvisible fresh_none hcolumn)
    (char_ne_endMark hvisible (by simp)) h.token?_left ?_) ?_
  · rw [rest_inBlock, layoutFrom_cons h.endsLine_left, List.length_cons]
    exact Nat.lt_succ_self _
  refine .trans (.of_token (h.advance?_between hfresh) hchar h.token?_right ?_) ?_
  · change _ < (layoutFrom line (column + 1) (right :: _)).length
    rw [layoutFrom_cons h.endsLine_right, List.length_cons]
    exact Nat.lt_succ_self _
  rw [List.append_assoc]
  exact reads_newline (passed_saved tokens indents keyAllowed line hi) hcs j

end

end Lexer

end SolarBill.Yaml
