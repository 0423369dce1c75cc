import SolarBill.Proofs.Data.Every
import SolarBill.Proofs.Yaml.Quoted
import SolarBill.Yaml.Token

/-!
# Trees whose scalars stand on one line

A text without line breaks is written on one line in one of three styles (`line_text`), and a name
that is written in front of its colon is short enough for a key (`length_text_le`).  If all scalars
of a tree stand on one line, its document is made of its scalars, spaces and line ends, and holds
readable characters only (`clean_render`).
-/

namespace SolarBill.Yaml

open Print Spot Scalar

/-! ### Scalars on one line -/

/-- Characters that are read as a scalar of a style with the given text. -/
inductive Line : List Char → Style → List Char → Prop
  | plain {cs : List Char} (h : PlainText cs) : Line cs .plain cs
  | single {cs : List Char} (h : ∀ c ∈ cs, isInline c = true) :
      Line ('\'' :: (doubled cs ++ ['\''])) .singleQuoted cs
  | double (cs : List Char) : Line ('"' :: (escaped cs ++ ['"'])) .doubleQuoted cs

namespace Line

variable {w s : List Char} {style : Style}

theorem inline (h : Line w style s) : ∀ c ∈ w, isInline c = true := by
  cases h with
  | plain h => exact h.inline
  | single h =>
      intro c hc
      rw [List.mem_cons, List.mem_append, List.mem_singleton, doubled, List.mem_flatMap] at hc
      rcases hc with rfl | ⟨d, hd, hc⟩ | rfl
      · decide
      · have heq : c = d := by
          split at hc <;> simpa using hc
        exact heq ▸ h d hd
      · decide
  | double s =>
      intro c hc
      rw [List.mem_cons, List.mem_append, List.mem_singleton, escaped, List.mem_flatMap] at hc
      rcases hc with rfl | ⟨d, -, hc⟩ | rfl
      · decide
      · split at hc
        · next hplain =>
            rw [Bool.and_eq_true, Bool.and_eq_true, ← isInline] at hplain
            rw [List.mem_singleton.mp hc]
            exact hplain.1.1
        · obtain ⟨sign, digits, hescape, hinline, -⟩ := exists_escape d
          rw [hescape, List.mem_cons] at hc
          rcases hc with rfl | hc
          · decide
          · exact hinline c hc
      · decide

/-- A line begins with a visible character. -/
theorem startsVisible (h : Line w style s) (tail : List Char) : StartsVisible (w ++ tail) := by
  cases h with
  | plain h =>
      cases w with
      | nil => exact absurd rfl h.ne_nil
      | cons c cs =>
          refine ⟨h.inline c List.mem_cons_self, fun heq => h.head (congrArg some heq), ?_⟩
          rintro rfl
          exact absurd h.starts (by simp [startsSpecially])
  | single => exact ⟨by decide, by decide, by decide⟩
  | double => exact ⟨by decide, by decide, by decide⟩

theorem ne_nil (h : Line w style s) : w ≠ [] := by
  cases h with
  | plain h => exact h.ne_nil
  | single => exact List.cons_ne_nil _ _
  | double => exact List.cons_ne_nil _ _

end Line

/-! ### Texts on one line -/

/-- A text without line breaks. -/
def OneLine (s : String) : Prop :=
  ∀ c ∈ s.toList, isBreak c = false

instance : DecidablePred OneLine :=
  fun s => List.decidableBAll (fun c => isBreak c = false) s.toList

/-- The style of a text on one line. -/
def lineStyle (s : String) : Style :=
  if readsAsText s && plainAllowed s.toList then .plain
  else if singleQuotedAllowed s.toList then .singleQuoted
  else .doubleQuoted

/-- A printable character that is no line break ends no line. -/
theorem endsLine_of_printable {c : Char} (h : isPrintable c = true) (hbreak : isBreak c = false) :
    endsLine c = false := by
  have hreturn : c ≠ '\r' := by
    rintro rfl
    exact absurd h (by decide)
  have hnext : c ≠ '\x85' := by
    rintro rfl
    exact absurd h (by decide)
  rw [endsLine, hbreak, beq_eq_false_iff_ne.mpr hreturn, beq_eq_false_iff_ne.mpr hnext]
  rfl

/-- Nothing does not read as a text, so the empty text is quoted. -/
theorem not_readsAsText_empty : readsAsText "" = false := by
  decide

theorem indentLines_inline {cs : List Char} (h : ∀ c ∈ cs, isInline c = true) (indent : Nat) :
    indentLines indent false cs = cs := by
  induction cs with
  | nil => rfl
  | cons c cs ih =>
      rw [List.forall_mem_cons] at h
      rw [indentLines, endsLine_of_inline h.1, ih h.2]
      rfl

/-- Doubled apostrophes stay on the line. -/
theorem inline_doubled {cs : List Char} (h : ∀ c ∈ cs, isInline c = true) :
    ∀ c ∈ doubled cs, isInline c = true := by
  intro c hc
  exact (Line.single h).inline c (by simp [hc])

/-- A text between apostrophes. -/
theorem toList_singleQuoted {cs : List Char} (h : ∀ c ∈ cs, isInline c = true) (indent : Nat) :
    (singleQuoted indent cs).toList = '\'' :: (doubled cs ++ ['\'']) := by
  have hlast : cs.getLast?.any endsLine = false := by
    cases hcs : cs.getLast? with
    | none => rfl
    | some c => exact endsLine_of_inline (h c (List.mem_of_getLast? hcs))
  rw [singleQuoted, ← doubled, indentLines_inline (inline_doubled h), hlast]
  simp

/-- A text between quotation marks. -/
theorem toList_doubleQuoted (cs : List Char) :
    (doubleQuoted cs).toList = '"' :: (escaped cs ++ ['"']) := by
  simp [doubleQuoted, escaped]

/-- A text on one line is written as a scalar on one line. -/
theorem line_text {s : String} (h : OneLine s) (indent : Nat) :
    Line (text indent s).toList (lineStyle s) s.toList := by
  have hnewline : s.toList.contains '\n' = false := by
    rw [List.contains_eq_any_beq, List.any_eq_false]
    intro c hc heq
    rw [← beq_iff_eq.mp heq] at hc
    exact absurd (h _ hc) (by decide)
  rw [text, hnewline, lineStyle]
  simp only [Bool.false_eq_true, if_false]
  by_cases hplain : (readsAsText s && plainAllowed s.toList) = true
  · rw [if_pos hplain, if_pos hplain]
    rw [Bool.and_eq_true] at hplain
    refine .plain (plainText_of ?_ hplain.2)
    intro hnil
    rw [String.toList_eq_nil_iff] at hnil
    rw [hnil, not_readsAsText_empty] at hplain
    exact Bool.false_ne_true hplain.1
  · rw [if_neg hplain, if_neg hplain]
    by_cases hsingle : singleQuotedAllowed s.toList = true
    · have hinline : ∀ c ∈ s.toList, isInline c = true := by
        rw [singleQuotedAllowed, Bool.and_eq_true, Bool.and_eq_true, List.all_eq_true] at hsingle
        intro c hc
        have hprintable := hsingle.1.1 c hc
        rw [isInline, hprintable, endsLine_of_printable hprintable (h c hc)]
        rfl
      rw [if_pos hsingle, if_pos hsingle, toList_singleQuoted hinline]
      exact .single hinline
    · rw [if_neg hsingle, if_neg hsingle, toList_doubleQuoted]
      exact .double _

/-! ### Short names -/

theorem utf8ByteSize_cons (c : Char) (cs : List Char) :
    (String.ofList (c :: cs)).utf8ByteSize = c.utf8Size + (String.ofList cs).utf8ByteSize := by
  have hcons : String.ofList (c :: cs) = String.singleton c ++ String.ofList cs := by
    rw [← String.toList_inj]
    simp
  rw [hcons, String.utf8ByteSize_append, String.utf8ByteSize_singleton]

/-- Four characters at most for each byte of a character are four for each byte of the text. -/
theorem length_flatMap_le {f : Char → List Char} (hf : ∀ c, (f c).length ≤ 4 * c.utf8Size)
    (cs : List Char) : (cs.flatMap f).length ≤ 4 * (String.ofList cs).utf8ByteSize := by
  induction cs with
  | nil => exact Nat.zero_le _
  | cons c cs ih =>
      have hc := hf c
      rw [List.flatMap_cons, List.length_append, utf8ByteSize_cons]
      omega

/-- Characters with larger codes take more bytes. -/
theorem utf8Size_of_lt (c : Char) :
    (0xFF < c.toNat → 2 ≤ c.utf8Size) ∧ (0xFFFF < c.toNat → c.utf8Size = 4) := by
  have hle : ∀ n : UInt32, c.val ≤ n → c.toNat ≤ n.toNat := fun _ h => UInt32.le_iff_toNat_le.mp h
  rw [Char.utf8Size]
  split
  · next h =>
    have hone : c.toNat ≤ 127 := hle _ h
    exact ⟨fun hlt => by omega, fun hlt => by omega⟩
  · split
    · next h =>
      have htwo : c.toNat ≤ 2047 := hle _ h
      exact ⟨fun _ => by omega, fun hlt => by omega⟩
    · split
      · next h =>
        have hthree : c.toNat ≤ 65535 := hle _ h
        exact ⟨fun _ => by omega, fun hlt => by omega⟩
      · exact ⟨fun _ => by omega, fun _ => rfl⟩

/-- An escaped character is at most four times as long as its bytes. -/
theorem length_escape_le (c : Char) : (escape c).length ≤ 4 * c.utf8Size := by
  have hpos := c.utf8Size_pos
  obtain ⟨htwo, hfour⟩ := utf8Size_of_lt c
  unfold escape
  split
  iterate 15 exact Nat.le_trans (by decide : 2 ≤ 4) (Nat.le_mul_of_pos_right 4 hpos)
  · simp only
    split
    · rw [List.length_cons, List.length_cons, length_hexDigits]
      omega
    · split
      · rw [List.length_cons, List.length_cons, length_hexDigits]
        omega
      · rw [List.length_cons, List.length_cons, length_hexDigits]
        omega

/-- A text is not much longer when it is written. -/
theorem Line.length_le {w s : List Char} {style : Style} (h : Line w style s) :
    w.length ≤ 2 + 4 * (String.ofList s).utf8ByteSize := by
  have hone : ∀ c : Char, 1 ≤ 4 * c.utf8Size := by
    intro c
    have hpos := c.utf8Size_pos
    omega
  cases h with
  | plain =>
      have hlength := @length_flatMap_le (fun c => [c]) hone w
      rw [List.flatMap_singleton'] at hlength
      omega
  | single =>
      have hdoubled : ∀ c : Char,
          (if c == '\'' then [c, c] else [c]).length ≤ 4 * c.utf8Size := by
        intro c
        have hpos := c.utf8Size_pos
        split
        · exact Nat.le_trans (by decide : 2 ≤ 4) (Nat.le_mul_of_pos_right 4 hpos)
        · exact hone c
      have hlength := length_flatMap_le hdoubled s
      rw [← doubled] at hlength
      simp
      omega
  | double =>
      have hescaped : ∀ c : Char,
          (if isPrintable c && !endsLine c && c != '"' && c != '\\' then [c] else escape c).length ≤
            4 * c.utf8Size := by
        intro c
        split
        · exact hone c
        · exact length_escape_le c
      have hlength := length_flatMap_le hescaped s
      rw [← escaped] at hlength
      simp
      omega

/-- A short name stays short enough for a key, whatever is escaped in it. -/
theorem length_text_le {s : String} (h : OneLine s) (hshort : s.utf8ByteSize ≤ 128) (indent : Nat) :
    (text indent s).toList.length ≤ 1024 := by
  have hlength := (line_text h indent).length_le
  rw [String.ofList_toList] at hlength
  omega

/-! ### Trees on lines -/

/-- A scalar stands on one line. -/
def OnLine : Datum → Prop
  | .whole n => PlainText (toString n).toList
  | .real x => PlainText (Double.compact x).toList
  | .text s => OneLine s
  | _ => True

instance : DecidablePred OnLine
  | .whole n => inferInstanceAs (Decidable (PlainText (toString n).toList))
  | .real x => inferInstanceAs (Decidable (PlainText (Double.compact x).toList))
  | .text s => inferInstanceAs (Decidable (OneLine s))
  | .null | .flag _ | .list _ | .record _ => isTrue trivial

/-- Every scalar of a tree stands on one line, and every name on one line that is not too long for a
key. -/
abbrev OnLines : Datum → Prop :=
  Datum.Every OnLine (isSimpleName · = true)

/-- The same for every item of a list. -/
abbrev ItemsOnLines : List Datum → Prop :=
  Datum.EveryItem OnLine (isSimpleName · = true)

/-- The same for every field of a record. -/
abbrev FieldsOnLines : List (String × Datum) → Prop :=
  Datum.EveryField OnLine (isSimpleName · = true)

/-- A tree without parts is written on one line. -/
def IsLeaf : Datum → Prop
  | .list (_ :: _) | .record (_ :: _) => False
  | _ => True

/-- A tree with parts is a list or a record. -/
theorem exists_parts : ∀ {d : Datum}, ¬ IsLeaf d →
    (∃ item rest, d = .list (item :: rest)) ∨ ∃ field rest, d = .record (field :: rest)
  | .list (item :: rest), _ => .inl ⟨item, rest, rfl⟩
  | .record (field :: rest), _ => .inr ⟨field, rest, rfl⟩
  | .null, h | .flag _, h | .whole _, h | .real _, h | .text _, h | .list [], h | .record [], h =>
      absurd trivial h

/-! ### Entries below each other -/

/-- Indentation consists of spaces. -/
theorem toList_pad (indent : Nat) : (pad indent).toList = List.replicate indent ' ' := by
  simp [pad]

theorem toList_onward_singleton (indent : Nat) (part : String) :
    (onward indent [part]).toList = part.toList := by
  rw [onward, String.toList_intercalate, List.map_cons, List.map_nil, List.intercalate_singleton]

theorem toList_onward_cons_cons (indent : Nat) (part next : String) (parts : List String) :
    (onward indent (part :: next :: parts)).toList =
      part.toList ++ (List.replicate indent ' ' ++ (onward indent (next :: parts)).toList) := by
  rw [onward, onward, String.toList_intercalate, String.toList_intercalate, List.map_cons,
    List.map_cons, List.intercalate_cons_cons, toList_pad, List.append_assoc]

/-- Parts below a line are all indented. -/
theorem toList_below {parts : List String} (h : parts ≠ []) (indent : Nat) :
    (below indent parts).toList = List.replicate indent ' ' ++ (onward indent parts).toList := by
  induction parts with
  | nil => exact absurd rfl h
  | cons part rest ih =>
      cases rest with
      | nil => simp [below, toList_onward_singleton, toList_pad]
      | cons next rest =>
          have hstep : (below indent (part :: next :: rest)).toList =
              List.replicate indent ' ' ++
                (part.toList ++ (below indent (next :: rest)).toList) := by
            simp [below, toList_pad, String.toList_join]
          rw [hstep, ih (List.cons_ne_nil _ _), toList_onward_cons_cons]

/-- What follows the first entry. -/
theorem exists_onward (indent : Nat) (part : String) (parts : List String) :
    ∃ more, (onward indent (part :: parts)).toList = part.toList ++ more := by
  cases parts with
  | nil => exact ⟨[], by rw [toList_onward_singleton, List.append_nil]⟩
  | cons next rest => exact ⟨_, toList_onward_cons_cons indent part next rest⟩

/-- A line ends with a line break. -/
theorem endLine_line {s : String} (hinline : ∀ c ∈ s.toList, isInline c = true) :
    (endLine s).toList = s.toList ++ ['\n'] := by
  have hlast : s.toList.getLast?.any endsLine = false := by
    cases hs : s.toList.getLast? with
    | none => rfl
    | some c => exact endsLine_of_inline (hinline c (List.mem_of_getLast? hs))
  rw [endLine, hlast]
  simp

/-- A simple name stands on one line and is short. -/
theorem oneLine_of_simple {n : String} (h : isSimpleName n = true) :
    OneLine n ∧ n.utf8ByteSize ≤ 128 := by
  rw [isSimpleName, Bool.and_eq_true, Bool.not_eq_true', List.any_eq_false, decide_eq_true_eq] at h
  refine ⟨?_, h.2⟩
  intro c hc
  have hends := h.1 c hc
  rw [endsLine, Bool.not_eq_true, Bool.or_eq_false_iff, Bool.or_eq_false_iff] at hends
  exact hends.1.1

/-- A name is a text with a colon. -/
theorem toList_name {n : String} (hn : isSimpleName n = true) (indent : Nat) :
    (name indent n).toList = (text (indent + 2) n).toList ++ [':'] := by
  rw [name, if_pos hn]
  simp

/-! ### The characters of a document -/

/-- A text consists of characters that may stand in a line, and of line ends. -/
def Clean (s : String) : Prop :=
  ∀ c ∈ s.toList, isInline c = true ∨ c = '\n'

instance : DecidablePred Clean :=
  fun s => List.decidableBAll (fun c => isInline c = true ∨ c = '\n') s.toList

/-- A clean text is readable. -/
theorem Clean.readable {s : String} (h : Clean s) : s.toList.all isReadable = true := by
  rw [List.all_eq_true]
  intro c hc
  rcases h c hc with hinline | rfl
  · rw [isInline, Bool.and_eq_true] at hinline
    have hprintable := hinline.1
    simp only [isPrintable, isReadable, Bool.or_eq_true, Bool.and_eq_true, beq_iff_eq, bne_iff_ne,
      decide_eq_true_eq] at hprintable ⊢
    omega
  · decide

theorem Clean.append {s t : String} (hs : Clean s) (ht : Clean t) : Clean (s ++ t) := by
  intro c hc
  rw [String.toList_append, List.mem_append] at hc
  exact hc.elim (hs c) (ht c)

/-- A line is clean. -/
theorem clean_of_line {s : String} {style : Style} {text : List Char}
    (h : Line s.toList style text) : Clean s :=
  fun c hc => .inl (h.inline c hc)

theorem Clean.endLine {s : String} (h : Clean s) : Clean (endLine s) := by
  rw [Print.endLine]
  split
  · exact h
  · exact h.append (by decide)

theorem clean_onward {parts : List String} (h : ∀ part ∈ parts, Clean part) (indent : Nat) :
    Clean (onward indent parts) := by
  induction parts with
  | nil => exact nofun
  | cons part rest ih =>
      rw [List.forall_mem_cons] at h
      cases rest with
      | nil =>
          intro c hc
          rw [toList_onward_singleton] at hc
          exact h.1 c hc
      | cons next rest =>
          intro c hc
          rw [toList_onward_cons_cons, List.mem_append, List.mem_append] at hc
          rcases hc with hc | hc | hc
          · exact h.1 c hc
          · rw [List.eq_of_mem_replicate hc]
            exact .inl (by decide)
          · exact ih h.2 c hc

theorem clean_below {parts : List String} (h : ∀ part ∈ parts, Clean part) (indent : Nat) :
    Clean (below indent parts) := by
  cases parts with
  | nil => exact nofun
  | cons part rest =>
      intro c hc
      rw [toList_below (List.cons_ne_nil _ _), List.mem_append] at hc
      rcases hc with hc | hc
      · rw [List.eq_of_mem_replicate hc]
        exact .inl (by decide)
      · exact clean_onward h indent c hc

/-- A scalar is written in clean characters. -/
theorem clean_scalar {d : Datum} (hd : OnLines d) (hleaf : IsLeaf d) (indent : Nat) :
    Clean (scalar indent d) := by
  cases d with
  | null => exact (by decide : Clean "null")
  | flag b =>
      cases b with
      | false => exact (by decide : Clean "false")
      | true => exact (by decide : Clean "true")
  | whole n => exact clean_of_line (.plain hd)
  | real x => exact clean_of_line (.plain hd)
  | text s => exact clean_of_line (line_text hd indent)
  | list items => exact (by decide : Clean "[]")
  | record fields => exact (by decide : Clean "\x7b\x7d")

theorem clean_name {n : String} (hn : isSimpleName n = true) (indent : Nat) :
    Clean (name indent n) := by
  rw [name, if_pos hn]
  exact (clean_of_line (line_text (oneLine_of_simple hn).1 _)).append (by decide)

mutual

theorem clean_value : ∀ {d : Datum}, OnLines d → ∀ indent, Clean (value indent d)
  | .list (_ :: _), h, indent =>
      .append (by decide) (clean_below (clean_items h indent) indent)
  | .record (_ :: _), h, indent =>
      .append (by decide) (clean_below (clean_fields h (indent + 2)) (indent + 2))
  | .null, h, indent | .flag _, h, indent | .whole _, h, indent | .real _, h, indent
  | .text _, h, indent | .list [], h, indent | .record [], h, indent =>
      .append (by decide) (clean_scalar h trivial (indent + 2)).endLine

theorem clean_item : ∀ {d : Datum}, OnLines d → ∀ indent, Clean (item indent d)
  | .list (_ :: _), h, indent => clean_onward (clean_items h (indent + 2)) (indent + 2)
  | .record (_ :: _), h, indent => clean_onward (clean_fields h (indent + 2)) (indent + 2)
  | .null, h, indent | .flag _, h, indent | .whole _, h, indent | .real _, h, indent
  | .text _, h, indent | .list [], h, indent | .record [], h, indent =>
      (clean_scalar h trivial (indent + 2)).endLine

theorem clean_fields : ∀ {fs : List (String × Datum)}, FieldsOnLines fs → ∀ indent,
    ∀ part ∈ fields indent fs, Clean part
  | [], _, _ => nofun
  | (_, _) :: _, h, indent => by
      rw [fields, List.forall_mem_cons]
      exact ⟨(clean_name h.1 indent).append (clean_value h.2.1 indent), clean_fields h.2.2 indent⟩

theorem clean_items : ∀ {ds : List Datum}, ItemsOnLines ds → ∀ indent,
    ∀ part ∈ items indent ds, Clean part
  | [], _, _ => nofun
  | _ :: _, h, indent => by
      rw [items, List.forall_mem_cons]
      exact ⟨.append (by decide) (clean_item h.1 indent), clean_items h.2 indent⟩

end

/-- A document holds readable characters only. -/
theorem clean_render {d : Datum} (hparts : ¬ IsLeaf d) (h : OnLines d) : Clean (render d) := by
  obtain ⟨item, rest, rfl⟩ | ⟨field, rest, rfl⟩ := exists_parts hparts
  · exact clean_below (clean_items h 0) 0
  · exact clean_below (clean_fields h 0) 0

end SolarBill.Yaml
