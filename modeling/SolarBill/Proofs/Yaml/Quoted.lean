import Mathlib.Algebra.Group.Nat.Defs
import SolarBill.Proofs.Yaml.Plain

/-!
# Quoted scalars are read back

Between apostrophes every character stands for itself, and an apostrophe is doubled.  Between
quotation marks a character that cannot stand for itself is escaped, at worst by its code.

* `quotedFrom_doubled`, `quotedFrom_escaped` — a text is taken from between its quotes;
* `exists_escape` — every escape sequence is read as the character that it was written for.
-/

namespace SolarBill.Yaml

open Print Spot

namespace Scalar

variable {line column : Nat} {cs : List Char} {c : Char}

/-! ### Quoted scalars -/

/-- Spaces between two words stay as they are. -/
theorem Quoting.joined_of_spaces {q : Quoting} (hgap : ∀ c ∈ q.gap, c = ' ')
    (hbreak : q.escapedBreak = false) : q.joined = q.gap ++ q.text := by
  have hreverse : ∀ c ∈ q.gap.reverse, c = ' ' := fun c hc => hgap c (List.mem_reverse.mp hc)
  rw [joined, hbreak, if_neg Bool.false_ne_true, foldGap_of_spaces hreverse, List.reverse_reverse]

/-- Between two characters of a text on one line nothing is skipped, and only spaces were passed. -/
structure Quoting.Inside (q : Quoting) : Prop where
  skip : q.skip = 0
  gap : ∀ c ∈ q.gap, c = ' '
  escapedBreak : q.escapedBreak = false

namespace Quoting.Inside

variable {q : Quoting} {quote : Char}

/-- Within a line nothing is folded. -/
theorem joined_eq (hq : q.Inside) : q.joined = q.gap ++ q.text :=
  joined_of_spaces hq.gap hq.escapedBreak

/-- Behind a character. -/
theorem behind (text : List Char) : Inside { text := text } :=
  ⟨rfl, nofun, rfl⟩

/-- One more space between the words. -/
theorem space (hq : q.Inside) : Inside { q with gap := ' ' :: q.gap } :=
  ⟨hq.skip, List.forall_mem_cons.mpr ⟨rfl, hq.gap⟩, hq.escapedBreak⟩

/-- A space is kept for later, as it may be the last one of the line. -/
theorem quotedFrom_space (hq : q.Inside) :
    quotedFrom quote q (layoutFrom line column (' ' :: cs)) =
      quotedFrom quote { q with gap := ' ' :: q.gap } (layoutFrom line (column + 1) cs) := by
  rw [layoutFrom_cons (by decide), quotedFrom, hq.skip]
  rfl

/-- A visible character is taken over, with the spaces before it. -/
theorem quotedFrom_visible (hq : q.Inside) (hc : isInline c = true) (hvisible : c ≠ ' ')
    (hquote : c ≠ quote) (hescape : quote = '"' → c ≠ '\\') (hcolumn : 0 < column) :
    quotedFrom quote q (layoutFrom line column (c :: cs)) =
      quotedFrom quote { text := c :: q.joined } (layoutFrom line (column + 1) cs) := by
  have hblank : isBlank c = false := by
    rw [isBlank_of_inline hc]
    exact beq_eq_false_iff_ne.mpr hvisible
  have hend : (c == endMark) = false := beq_eq_false_iff_ne.mpr (ne_of_inline hc (by decide))
  have hmarker := atDocumentMarker_of_pos hcolumn line (c :: cs)
  have hescaped : (quote == '"' && c == '\\') = false := by
    rw [Bool.and_eq_false_imp, beq_iff_eq, beq_eq_false_iff_ne]
    exact hescape
  rw [layoutFrom_cons (endsLine_of_inline hc)] at hmarker ⊢
  rw [quotedFrom]
  simp [hq.skip, hblank, isBreak_of_inline hc, hend, hmarker, hquote, hescaped]

/-- The closing quote. -/
theorem quotedFrom_quote (hq : q.Inside) (hquote : quote = '\'' ∨ quote = '"')
    (hnext : charAt (layoutFrom line (column + 1) cs) 0 ≠ '\'') (hcolumn : 0 < column) :
    quotedFrom quote q (layoutFrom line column (quote :: cs)) =
      some (q.joined.reverse, layoutFrom line (column + 1) cs) := by
  have hc : isInline quote = true := by
    rcases hquote with rfl | rfl <;> decide
  have hvisible : isBlank quote = false ∧ isBreak quote = false ∧ (quote == endMark) = false := by
    rcases hquote with rfl | rfl <;> decide
  have hmarker := atDocumentMarker_of_pos hcolumn line (quote :: cs)
  have hdouble :
      (quote == '\'' && charAt (layoutFrom line (column + 1) cs) 0 == quote) = false := by
    rw [Bool.and_eq_false_imp, beq_iff_eq, beq_eq_false_iff_ne]
    rintro rfl
    exact hnext
  obtain ⟨hblank, hbreak, hend⟩ := hvisible
  rw [layoutFrom_cons (endsLine_of_inline hc)] at hmarker ⊢
  rw [quotedFrom]
  simp [hq.skip, hblank, hbreak, hend, hmarker, hdouble]

/-- An apostrophe that is doubled. -/
theorem quotedFrom_apostrophe (hq : q.Inside) (hcolumn : 0 < column) :
    quotedFrom '\'' q (layoutFrom line column ('\'' :: '\'' :: cs)) =
      quotedFrom '\'' { text := '\'' :: q.joined } (layoutFrom line (column + 2) cs) := by
  have hmarker := atDocumentMarker_of_pos hcolumn line ('\'' :: '\'' :: cs)
  rw [layoutFrom_cons (by decide), layoutFrom_cons (by decide)] at hmarker ⊢
  rw [quotedFrom]
  simp only [hq.skip, hmarker]
  rw [quotedFrom.eq_def]
  rfl

end Quoting.Inside

/-- Double the apostrophes of a text. -/
def doubled (cs : List Char) : List Char :=
  cs.flatMap fun c => if c == '\'' then [c, c] else [c]

/-- A text is taken from between apostrophes. -/
theorem quotedFrom_doubled {q : Quoting} (hq : q.Inside) (hinline : ∀ c ∈ cs, isInline c = true)
    (hcolumn : 0 < column) {tail : List Char}
    (hnext : ∀ column, charAt (layoutFrom line column tail) 0 ≠ '\'') :
    quotedFrom '\'' q (layoutFrom line column (doubled cs ++ '\'' :: tail)) =
      some (q.joined.reverse ++ cs, layoutFrom line (column + (doubled cs).length + 1) tail) := by
  induction cs generalizing q column with
  | nil =>
      rw [List.append_nil]
      exact hq.quotedFrom_quote (.inl rfl) (hnext _) hcolumn
  | cons c rest ih =>
      rw [List.forall_mem_cons] at hinline
      obtain ⟨hc, hrest⟩ := hinline
      rw [doubled, List.flatMap_cons, ← doubled]
      by_cases hquote : c = '\''
      · have hcolumns : column + ('\'' :: '\'' :: doubled rest).length + 1 =
            column + 2 + (doubled rest).length + 1 := by
          rw [List.length_cons, List.length_cons]
          omega
        subst hquote
        simp only [beq_self_eq_true, if_true, List.cons_append, List.nil_append]
        rw [hcolumns, hq.quotedFrom_apostrophe hcolumn, ih (.behind _) hrest (by omega)]
        simp [(Quoting.Inside.behind _).joined_eq]
      · have hcolumns : column + (c :: doubled rest).length + 1 =
            column + 1 + (doubled rest).length + 1 := by
          rw [List.length_cons]
          omega
        rw [if_neg (by rwa [beq_iff_eq]), List.cons_append, List.nil_append, hcolumns]
        by_cases hvisible : c = ' '
        · subst hvisible
          rw [List.cons_append, hq.quotedFrom_space, ih hq.space hrest (by omega)]
          simp [hq.space.joined_eq, hq.joined_eq]
        · rw [List.cons_append, hq.quotedFrom_visible hc hvisible hquote
              (fun heq => absurd heq (by decide)) hcolumn, ih (.behind _) hrest (by omega)]
          simp [(Quoting.Inside.behind _).joined_eq]

/-! ### Escape sequences -/

/-- A hexadecimal digit is read as its value. -/
theorem hexDigit?_digit {n : Nat} (h : n < 16) : hexDigit? (Nat.digitChar n).toUpper = some n := by
  have hall : ∀ i : Fin 16, hexDigit? (Nat.digitChar i).toUpper = some i.val := by
    decide
  exact hall ⟨n, h⟩

/-- Hexadecimal digits may stand in a line. -/
theorem isInline_digit {n : Nat} (h : n < 16) : isInline (Nat.digitChar n).toUpper = true := by
  have hall : ∀ i : Fin 16, isInline (Nat.digitChar i).toUpper = true := by
    decide
  exact hall ⟨n, h⟩

/-- The first digit and the others. -/
theorem hexDigits_succ (count n : Nat) :
    hexDigits (count + 1) n =
      (Nat.digitChar (n / 16 ^ count % 16)).toUpper :: hexDigits count n := by
  rw [hexDigits, List.range_succ, List.reverse_concat, List.map_cons]
  rfl

/-- There are as many digits as were asked for. -/
theorem length_hexDigits (count n : Nat) : (hexDigits count n).length = count := by
  simp [hexDigits]

/-- All of them may stand in a line. -/
theorem isInline_hexDigits (count n : Nat) : ∀ c ∈ hexDigits count n, isInline c = true := by
  intro c hc
  obtain ⟨i, -, rfl⟩ := List.mem_map.mp hc
  exact isInline_digit (Nat.mod_lt _ (by decide))

/-- The digits are read as the number up to the places that they have. -/
theorem foldl_hexDigits (count n v : Nat) :
    (hexDigits count n).foldl (fun acc c => acc.bind fun v => (hexDigit? c).map (16 * v + ·))
        (some v) = some (v * 16 ^ count + n % 16 ^ count) := by
  induction count generalizing v with
  | zero => simp [hexDigits, Nat.mod_one]
  | succ count ih =>
      rw [hexDigits_succ, List.foldl_cons, Option.bind_some,
        hexDigit?_digit (Nat.mod_lt _ (by decide)), Option.map_some, ih, Nat.mod_pow_succ,
        Nat.pow_succ]
      congr 1
      rw [Nat.add_mul, Nat.mul_comm (16 ^ count) (n / 16 ^ count % 16), Nat.mul_comm 16 v,
        Nat.mul_assoc, Nat.mul_comm 16 (16 ^ count)]
      omega

/-- Hexadecimal digits write the number they are made of. -/
theorem hexValue?_hexDigits {count n : Nat} (h : n < 16 ^ count) :
    hexValue? (hexDigits count n) = some n := by
  rw [hexValue?, foldl_hexDigits, Nat.zero_mul, Nat.zero_add, Nat.mod_eq_of_lt h]

/-- A character is read from its code. -/
theorem charOfCode?_toNat (c : Char) : charOfCode? c.toNat = some c := by
  have hvalid : c.toNat < 0xD800 ∨ (0xDFFF < c.toNat ∧ c.toNat < 0x110000) := c.valid
  rw [charOfCode?, if_pos hvalid, Char.ofNat_toNat]

/-- The characters of what is laid out are these. -/
theorem chars_take_layoutFrom {xs : List Char} (hxs : ∀ d ∈ xs, isInline d = true)
    (line column : Nat) (tail : List Char) :
    chars ((layoutFrom line column (xs ++ tail)).take xs.length) = xs := by
  induction xs generalizing column with
  | nil => rfl
  | cons d rest ih =>
      rw [List.forall_mem_cons] at hxs
      rw [List.cons_append, layoutFrom_cons (endsLine_of_inline hxs.1), List.length_cons,
        List.take_succ_cons]
      change d :: chars _ = _
      rw [ih hxs.2]

theorem length_layoutFrom_append {xs : List Char} (hxs : ∀ d ∈ xs, isInline d = true)
    (line column : Nat) (tail : List Char) :
    (layoutFrom line column (xs ++ tail)).length =
      xs.length + (layoutFrom line (column + xs.length) tail).length := by
  induction xs generalizing column with
  | nil => simp
  | cons d rest ih =>
      rw [List.forall_mem_cons] at hxs
      rw [List.cons_append, layoutFrom_cons (endsLine_of_inline hxs.1), List.length_cons,
        List.length_cons, ih hxs.2, Nat.add_right_comm, Nat.add_assoc column, Nat.add_comm 1]

/-- The sign of an escape sequence by code, and how many digits follow it. -/
def IsCodeMark (mark : Char) (count : Nat) : Prop :=
  (mark = 'x' ∧ count = 2) ∨ (mark = 'u' ∧ count = 4) ∨ (mark = 'U' ∧ count = 8)

/-- A character that is written by its code. -/
theorem escape?_code {mark : Char} {count : Nat} (hmark : IsCodeMark mark count)
    (hc : c.toNat < 16 ^ count) (line column : Nat) (tail : List Char) :
    escape? (layoutFrom line column (mark :: hexDigits count c.toNat ++ tail)) =
      some (c, count + 1) := by
  have hdigits := isInline_hexDigits count c.toNat
  have hlength := length_hexDigits count c.toNat
  have hmarked : isInline mark = true := by
    rcases hmark with ⟨rfl, -⟩ | ⟨rfl, -⟩ | ⟨rfl, -⟩ <;> decide
  have htake := chars_take_layoutFrom hdigits line (column + 1) tail
  have hlong :
      count < (layoutFrom line column (mark :: hexDigits count c.toNat ++ tail)).length := by
    rw [List.cons_append, layoutFrom_cons (endsLine_of_inline hmarked), List.length_cons,
      length_layoutFrom_append hdigits, hlength]
    omega
  rw [hlength] at htake
  rw [List.cons_append, layoutFrom_cons (endsLine_of_inline hmarked)] at hlong ⊢
  generalize hs : (⟨mark, line, column⟩ :: layoutFrom line (column + 1) _ : List Spot) = s
    at hlong ⊢
  have hcode : (if count < s.length then
      ((hexValue? (chars ((s.drop 1).take count))).bind charOfCode?).map (·, count + 1) else none) =
        some (c, count + 1) := by
    rw [if_pos hlong, ← hs, List.drop_succ_cons, List.drop_zero, htake, hexValue?_hexDigits hc,
      Option.bind_some, charOfCode?_toNat, Option.map_some]
  subst hs
  rcases hmark with ⟨rfl, rfl⟩ | ⟨rfl, rfl⟩ | ⟨rfl, rfl⟩ <;> exact hcode

/-- An escape sequence behind its backslash is read as the character that it was written for. -/
theorem exists_escape (c : Char) :
    ∃ sign digits, escape c = '\\' :: sign :: digits ∧ (∀ d ∈ sign :: digits, isInline d = true) ∧
      ∀ line column tail, escape? (layoutFrom line column (sign :: digits ++ tail)) =
        some (c, digits.length + 1) := by
  unfold escape
  split
  iterate 15
    refine ⟨_, [], rfl, List.forall_mem_singleton.mpr (by decide), ?_⟩
    intro line column tail
    rw [List.cons_append, layoutFrom_cons (by decide)]
    rfl
  · have hcode : ∀ {mark count}, IsCodeMark mark count → c.toNat < 16 ^ count →
        ∃ sign digits, '\\' :: mark :: hexDigits count c.toNat = '\\' :: sign :: digits ∧
          (∀ d ∈ sign :: digits, isInline d = true) ∧
          ∀ line column tail, escape? (layoutFrom line column (sign :: digits ++ tail)) =
            some (c, digits.length + 1) := by
      intro mark count hmark hc
      refine ⟨mark, hexDigits count c.toNat, rfl, ?_, ?_⟩
      · rw [List.forall_mem_cons]
        refine ⟨?_, isInline_hexDigits count c.toNat⟩
        rcases hmark with ⟨rfl, -⟩ | ⟨rfl, -⟩ | ⟨rfl, -⟩ <;> decide
      · rw [length_hexDigits]
        exact escape?_code hmark hc
    have hvalid : c.toNat < 0x110000 := by
      rcases c.valid with h | h
      · exact Nat.lt_trans h (by decide)
      · exact h.2
    simp only
    split
    · exact hcode (.inl ⟨rfl, rfl⟩) (by omega)
    · split
      · exact hcode (.inr (.inl ⟨rfl, rfl⟩)) (by omega)
      · exact hcode (.inr (.inr ⟨rfl, rfl⟩)) (by omega)

/-- What an escape sequence has already read is skipped. -/
theorem quotedFrom_skip {quote : Char} {q : Quoting} {xs : List Char}
    (hxs : ∀ d ∈ xs, isInline d = true) (tail : List Char) :
    quotedFrom quote { q with skip := xs.length } (layoutFrom line column (xs ++ tail)) =
      quotedFrom quote { q with skip := 0 } (layoutFrom line (column + xs.length) tail) := by
  induction xs generalizing column with
  | nil => rfl
  | cons d rest ih =>
      rw [List.forall_mem_cons] at hxs
      rw [List.cons_append, layoutFrom_cons (endsLine_of_inline hxs.1), quotedFrom]
      rw [if_pos (by simp)]
      have hstep := @ih (column + 1) hxs.2
      rw [Nat.add_right_comm, Nat.add_assoc] at hstep
      exact hstep

/-- An escape sequence stands for its character. -/
theorem Quoting.Inside.quotedFrom_escape {q : Quoting} (hq : q.Inside) (hcolumn : 0 < column)
    (c : Char) (tail : List Char) :
    quotedFrom '"' q (layoutFrom line column (escape c ++ tail)) =
      quotedFrom '"' { text := c :: q.joined }
        (layoutFrom line (column + (escape c).length) tail) := by
  obtain ⟨sign, digits, hescape, hinline, hread⟩ := exists_escape c
  have hmarker := atDocumentMarker_of_pos hcolumn line (escape c ++ tail)
  have hsign := hinline sign List.mem_cons_self
  have hnext :
      isBreak (charAt (layoutFrom line (column + 1) (sign :: digits ++ tail)) 0) = false := by
    rw [List.cons_append, layoutFrom_cons (endsLine_of_inline hsign), charAt_cons_zero]
    exact isBreak_of_inline hsign
  have hskip := @quotedFrom_skip line (column + 1) '"' { text := c :: q.joined } _ hinline tail
  rw [hescape, List.cons_append, layoutFrom_cons (by decide)] at hmarker ⊢
  rw [quotedFrom]
  simp only [hq.skip, hmarker, hnext, hread]
  rw [List.length_cons, ← Nat.add_assoc, Nat.add_right_comm column]
  exact hskip

/-- A text with the characters escaped that cannot stand between quotation marks. -/
def escaped (cs : List Char) : List Char :=
  cs.flatMap fun c =>
    if isPrintable c && !endsLine c && c != '"' && c != '\\' then [c] else escape c

/-- Any text is taken from between quotation marks. -/
theorem quotedFrom_escaped {q : Quoting} (hq : q.Inside) (hcolumn : 0 < column) {tail : List Char}
    (hnext : ∀ column, charAt (layoutFrom line column tail) 0 ≠ '\'') (cs : List Char) :
    quotedFrom '"' q (layoutFrom line column (escaped cs ++ '"' :: tail)) =
      some (q.joined.reverse ++ cs, layoutFrom line (column + (escaped cs).length + 1) tail) := by
  induction cs generalizing q column with
  | nil =>
      rw [List.append_nil]
      exact hq.quotedFrom_quote (.inr rfl) (hnext _) hcolumn
  | cons c rest ih =>
      rw [escaped, List.flatMap_cons, ← escaped]
      by_cases hplain : (isPrintable c && !endsLine c && c != '"' && c != '\\') = true
      · rw [if_pos hplain, List.cons_append, List.nil_append, List.cons_append]
        rw [Bool.and_eq_true, Bool.and_eq_true, ← isInline, bne_iff_ne, bne_iff_ne] at hplain
        obtain ⟨⟨hc, hquote⟩, hescape⟩ := hplain
        have hcolumns : column + (c :: escaped rest).length + 1 =
            column + 1 + (escaped rest).length + 1 := by
          rw [List.length_cons]
          omega
        rw [hcolumns]
        by_cases hvisible : c = ' '
        · subst hvisible
          rw [hq.quotedFrom_space, ih hq.space (by omega)]
          simp [hq.space.joined_eq, hq.joined_eq]
        · rw [hq.quotedFrom_visible hc hvisible hquote (fun _ => hescape) hcolumn,
            ih (.behind _) (by omega)]
          simp [(Quoting.Inside.behind _).joined_eq]
      · have hcolumns : column + (escape c ++ escaped rest).length + 1 =
            column + (escape c).length + (escaped rest).length + 1 := by
          rw [List.length_append]
          omega
        rw [if_neg hplain, List.append_assoc, hcolumns, hq.quotedFrom_escape hcolumn,
          ih (.behind _) (by omega)]
        simp [(Quoting.Inside.behind _).joined_eq]

end Scalar

end SolarBill.Yaml
