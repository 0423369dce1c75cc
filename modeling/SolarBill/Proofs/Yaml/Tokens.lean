import SolarBill.Proofs.Yaml.Lines
import SolarBill.Proofs.Yaml.Run

/-!
# The tokens of a document

The document of a record or a list is read as the tokens of the tree (`ofText?_render`), if all its
scalars stand on one line.  A value of a field is read up to the start of the line below it, an item
of a list likewise; what stands further in than a collection belongs to it, and the collection is
closed in front of the first line that does not.
-/

namespace SolarBill.Yaml

open Print Spot Scalar Lexer

/-! ### Tokens of a tree -/

/-- The tokens of a scalar, an empty list or an empty record. -/
def leafTokens : Datum → List Token
  | .text s => [.scalar (lineStyle s) s]
  | .list _ => [.flowSequenceStart, .flowSequenceEnd]
  | .record _ => [.flowMappingStart, .flowMappingEnd]
  | d => [.scalar .plain (scalar 0 d)]

mutual

/-- The tokens of a value of a field.  A list there is not indented, so that it needs neither start
nor end. -/
def valueTokens : Datum → List Token
  | .list (d :: rest) => listTokens (d :: rest)
  | .record (f :: rest) => .mappingStart :: (recordTokens (f :: rest) ++ [.blockEnd])
  | d => leafTokens d

/-- The tokens of an item of a list. -/
def itemTokens : Datum → List Token
  | .list (d :: rest) => .sequenceStart :: (listTokens (d :: rest) ++ [.blockEnd])
  | .record (f :: rest) => .mappingStart :: (recordTokens (f :: rest) ++ [.blockEnd])
  | d => leafTokens d

/-- The tokens of the items of a list. -/
def listTokens : List Datum → List Token
  | [] => []
  | d :: rest => .entry :: (itemTokens d ++ listTokens rest)

/-- The tokens of the fields of a record. -/
def recordTokens : List (String × Datum) → List Token
  | [] => []
  | (n, d) :: rest =>
    .key :: .scalar (lineStyle n) n :: .value :: (valueTokens d ++ recordTokens rest)

end

/-! ### Reading the tokens of a tree -/

/-- The lexer gets to the start of a line in front of the given characters. -/
def ReadsLine (l : Lexer) (tokens : List Token) (indents : List Nat) (cs : List Char) : Prop :=
  ∃ line, Reads l (inBlock tokens indents none true line 0 cs)

variable {tokens : List Token} {indents : List Nat} {keyAllowed : Bool} {line column i j : Nat}
  {cs : List Char}

/-- Whatever leads to a state leads to the lines that follow from it. -/
theorem ReadsLine.of_reads {l m : Lexer} (h : Reads l m) (hm : ReadsLine m tokens indents cs) :
    ReadsLine l tokens indents cs := by
  obtain ⟨line, hreads⟩ := hm
  exact ⟨line, h.trans hreads⟩

/-- A scalar at the end of a line is read with the line break and the indentation behind it. -/
theorem readsLine_scalar {s : String} {style : Style} {text : String}
    (h : Line s.toList style text.toList) (hi : i ≤ column) (hcs : StartsVisible cs) (hj : j ≤ i) :
    ReadsLine (inBlock tokens (i :: indents) none keyAllowed line column
        (' ' :: ((endLine s).toList ++ (List.replicate j ' ' ++ cs))))
      (tokens ++ [.scalar style text]) (i :: indents) (List.replicate j ' ' ++ cs) := by
  rw [endLine_line h.inline, List.append_assoc]
  refine .of_reads (reads_spaces (h.startsVisible _) 1) ⟨line + 1, ?_⟩
  have hreads := @reads_scalar tokens indents keyAllowed line (column + 1) cs _ _ _ h i j (by omega)
    hcs hj
  rwa [String.ofList_toList] at hreads

/-- An empty collection is written as brackets. -/
theorem readsLine_brackets {s : String} {left right : Char} {start stop : Token}
    (h : Brackets left right start stop) (hs : s.toList = [left, right]) (hi : i ≤ column)
    (hcs : StartsVisible cs) :
    ReadsLine (inBlock tokens (i :: indents) none keyAllowed line column
        (' ' :: ((endLine s).toList ++ (List.replicate j ' ' ++ cs))))
      (tokens ++ [start, stop]) (i :: indents) (List.replicate j ' ' ++ cs) := by
  have hinline : ∀ c ∈ s.toList, isInline c = true := by
    rw [hs, List.forall_mem_cons, List.forall_mem_singleton]
    exact h.inline
  rw [endLine_line hinline, hs]
  exact .of_reads (reads_spaces (h.startsVisible _) 1) ⟨line + 1, reads_brackets h (by omega) hcs⟩

/-- **A leaf is read** at the end of its line. -/
theorem readsLine_leaf {d : Datum} (hd : OnLines d) (hleaf : IsLeaf d) (indent : Nat)
    (hi : i ≤ column) (hcs : StartsVisible cs) (hj : j ≤ i) :
    ReadsLine (inBlock tokens (i :: indents) none keyAllowed line column
        (' ' :: ((endLine (scalar indent d)).toList ++ (List.replicate j ' ' ++ cs))))
      (tokens ++ leafTokens d) (i :: indents) (List.replicate j ' ' ++ cs) := by
  have hplain : ∀ s : String, plainAllowed s.toList = true → s.toList ≠ [] →
      Line s.toList .plain s.toList :=
    fun s hs hne => .plain (plainText_of hne hs)
  cases d with
  | null => exact readsLine_scalar (hplain "null" (by decide) (by decide)) hi hcs hj
  | flag b =>
      cases b with
      | false => exact readsLine_scalar (hplain "false" (by decide) (by decide)) hi hcs hj
      | true => exact readsLine_scalar (hplain "true" (by decide) (by decide)) hi hcs hj
  | whole n => exact readsLine_scalar (.plain hd) hi hcs hj
  | real x => exact readsLine_scalar (.plain hd) hi hcs hj
  | text s => exact readsLine_scalar (line_text hd indent) hi hcs hj
  | list items =>
      cases items with
      | nil => exact readsLine_brackets .list (show "[]".toList = _ by decide) hi hcs
      | cons => exact hleaf.elim
  | record fields =>
      cases fields with
      | nil => exact readsLine_brackets .record (show "\x7b\x7d".toList = _ by decide) hi hcs
      | cons => exact hleaf.elim

namespace ReadsLine

theorem trans {l : Lexer} {tokens' : List Token} {indents' : List Nat} {cs' : List Char}
    (h : ReadsLine l tokens indents cs)
    (hnext : ∀ line, ReadsLine (inBlock tokens indents none true line 0 cs) tokens' indents' cs') :
    ReadsLine l tokens' indents' cs' := by
  obtain ⟨line, hreads⟩ := h
  exact of_reads hreads (hnext line)

/-- A collection is closed in front of a line that does not lie within it. -/
theorem close {l : Lexer} (h : ReadsLine l tokens (i :: indents) (List.replicate j ' ' ++ cs))
    (hcs : StartsVisible cs) (hj : j < i) :
    ReadsLine l (tokens ++ [.blockEnd]) indents (List.replicate j ' ' ++ cs) := by
  obtain ⟨line, hreads⟩ := h
  exact ⟨line, hreads.trans (reads_close hcs (by omega))⟩

/-- What is indented on a line is reached from the start of the line. -/
theorem of_spaces (hcs : StartsVisible cs) {tokens' : List Token} {indents' : List Nat}
    {cs' : List Char}
    (h : ReadsLine (inBlock tokens indents none true line j cs) tokens' indents' cs') :
    ReadsLine (inBlock tokens indents none true line 0 (List.replicate j ' ' ++ cs)) tokens'
      indents' cs' := by
  have hreads := @reads_spaces tokens indents true line 0 cs hcs j
  rw [Nat.zero_add] at hreads
  exact of_reads hreads h

/-- What is indented on the next line is reached from the end of a line. -/
theorem of_newline (keyAllowed : Bool) (column : Nat) (hcs : StartsVisible cs)
    {tokens' : List Token} {indents' : List Nat} {cs' : List Char}
    (h : ReadsLine (inBlock tokens indents none true (line + 1) j cs) tokens' indents' cs') :
    ReadsLine (inBlock tokens indents none keyAllowed line column
      ('\n' :: (List.replicate j ' ' ++ cs))) tokens' indents' cs' := by
  have hpassed : Passed (line + 1) none := by
    intro k hk
    cases hk
  exact of_reads (reads_newline hpassed hcs j) (of_spaces hcs h)

end ReadsLine

/-- A collection that is open at a column is not opened again. -/
theorem opened_self (t : Token) : opened t column (column :: indents) = ([], column :: indents) :=
  if_pos rfl

/-- One that starts further to the right is opened. -/
theorem opened_of_lt (t : Token) (h : i < column) :
    opened t column (i :: indents) = ([t], column :: i :: indents) := by
  rw [opened, if_neg]
  rw [List.head?_cons, Option.some.injEq]
  omega

/-- After opening the column is the innermost one. -/
theorem exists_opened (t : Token) (column : Nat) (indents : List Nat) :
    ∃ outer, (opened t column indents).2 = column :: outer := by
  by_cases h : indents.head? = some column
  · cases indents with
    | nil => cases h
    | cons i rest =>
        cases h
        exact ⟨rest, by rw [opened_self]⟩
  · exact ⟨indents, by rw [opened, if_neg h]⟩

/-- A record begins with the first character of its first name. -/
theorem startsVisible_record {n : String} (hn : isSimpleName n = true) (d : Datum)
    (rest : List (String × Datum)) (indent : Nat) (tail : List Char) :
    StartsVisible ((onward indent (fields indent ((n, d) :: rest))).toList ++ tail) := by
  rw [fields]
  obtain ⟨more, hmore⟩ :=
    exists_onward indent (name indent n ++ value indent d) (fields indent rest)
  rw [hmore, String.toList_append, toList_name hn, List.append_assoc, List.append_assoc,
    List.append_assoc]
  exact (line_text (oneLine_of_simple hn).1 _).startsVisible _

/-- A list begins with a hyphen. -/
theorem startsVisible_list (d : Datum) (rest : List Datum) (indent : Nat) (tail : List Char) :
    StartsVisible ((onward indent (items indent (d :: rest))).toList ++ tail) := by
  rw [items]
  obtain ⟨more, hmore⟩ := exists_onward indent ("- " ++ item indent d) (items indent rest)
  rw [hmore, String.toList_append, List.append_assoc]
  exact ⟨by decide, by decide, by decide⟩

/-! ### Values, fields and items -/

/-- A leaf is written behind a space, on the line of its name. -/
theorem value_of_leaf : ∀ {d : Datum}, IsLeaf d → ∀ indent,
    value indent d = " " ++ endLine (scalar (indent + 2) d) ∧ valueTokens d = leafTokens d
  | .null, _, _ | .flag _, _, _ | .whole _, _, _ | .real _, _, _ | .text _, _, _ | .list [], _, _
  | .record [], _, _ => ⟨rfl, rfl⟩

/-- A leaf is written on the line of its hyphen. -/
theorem item_of_leaf : ∀ {d : Datum}, IsLeaf d → ∀ indent,
    item indent d = endLine (scalar (indent + 2) d) ∧ itemTokens d = leafTokens d
  | .null, _, _ | .flag _, _, _ | .whole _, _, _ | .real _, _, _ | .text _, _, _ | .list [], _, _
  | .record [], _, _ => ⟨rfl, rfl⟩

/-- A value stands apart from the colon in front of it. -/
theorem isGap_value (indent : Nat) (d : Datum) (tail : List Char) (line column : Nat) :
    isGap (charAt (layoutFrom line column ((value indent d).toList ++ tail)) 0) = true := by
  by_cases h : IsLeaf d
  · rw [(value_of_leaf h indent).1, String.toList_append, List.append_assoc]
    change isGap (charAt (layoutFrom line column (' ' :: _)) 0) = true
    rw [charAt_layoutFrom_zero (by decide)]
    decide
  · have hnewline : ∃ more, value indent d = "\n" ++ more := by
      obtain ⟨item, rest, rfl⟩ | ⟨field, rest, rfl⟩ := exists_parts h
      · exact ⟨_, rfl⟩
      · exact ⟨_, rfl⟩
    obtain ⟨more, hmore⟩ := hnewline
    rw [hmore, String.toList_append, List.append_assoc]
    rfl

/-- A value is read behind the colon of its field, up to the end of its last line. -/
def ReadsValue (d : Datum) : Prop :=
  ∀ {tokens : List Token} {indents : List Nat} {line column i j : Nat} {cs : List Char},
    i < column → StartsVisible cs → j ≤ i →
      ReadsLine (inBlock tokens (i :: indents) none false line column
          ((value i d).toList ++ (List.replicate j ' ' ++ cs)))
        (tokens ++ valueTokens d) (i :: indents) (List.replicate j ' ' ++ cs)

/-- An item is read behind the hyphen of its entry. -/
def ReadsItem (d : Datum) : Prop :=
  ∀ {tokens : List Token} {indents : List Nat} {line i j : Nat} {cs : List Char},
    StartsVisible cs → j ≤ i →
      ReadsLine (inBlock tokens (i :: indents) none true line (i + 1)
          (' ' :: ((item i d).toList ++ (List.replicate j ' ' ++ cs))))
        (tokens ++ itemTokens d) (i :: indents) (List.replicate j ' ' ++ cs)

/-- The fields of a record are read from its first name on. -/
def ReadsRecord (fs : List (String × Datum)) : Prop :=
  ∀ {tokens : List Token} {indents : List Nat} {line column j : Nat} {cs : List Char},
    fs ≠ [] → Within column indents → StartsVisible cs → j ≤ column →
      ReadsLine (inBlock tokens indents none true line column
          ((onward column (fields column fs)).toList ++ (List.replicate j ' ' ++ cs)))
        (tokens ++ (opened .mappingStart column indents).1 ++ recordTokens fs)
        (opened .mappingStart column indents).2 (List.replicate j ' ' ++ cs)

/-- The items of a list are read from its first hyphen on. -/
def ReadsList (ds : List Datum) : Prop :=
  ∀ {tokens : List Token} {indents : List Nat} {line column j : Nat} {cs : List Char},
    ds ≠ [] → Within column indents → StartsVisible cs → j ≤ column →
      ReadsLine (inBlock tokens indents none true line column
          ((onward column (items column ds)).toList ++ (List.replicate j ' ' ++ cs)))
        (tokens ++ (opened .sequenceStart column indents).1 ++ listTokens ds)
        (opened .sequenceStart column indents).2 (List.replicate j ' ' ++ cs)

/-- A leaf is read as a value. -/
theorem readsValue_leaf {d : Datum} (hd : OnLines d) (hleaf : IsLeaf d) : ReadsValue d := by
  intro tokens indents line column i j cs hi hcs hj
  obtain ⟨hvalue, htokens⟩ := value_of_leaf hleaf i
  rw [hvalue, htokens, String.toList_append, List.append_assoc]
  exact readsLine_leaf hd hleaf (i + 2) (Nat.le_of_lt hi) hcs hj

theorem readsItem_leaf {d : Datum} (hd : OnLines d) (hleaf : IsLeaf d) : ReadsItem d := by
  intro tokens indents line i j cs hcs hj
  obtain ⟨hitem, htokens⟩ := item_of_leaf hleaf i
  rw [hitem, htokens]
  exact readsLine_leaf hd hleaf (i + 2) (Nat.le_succ i) hcs hj

section

variable {n : String} {d : Datum}

/-- A record further in than the collection around it. -/
theorem readsLine_record {rest : List (String × Datum)} (hrecord : ReadsRecord ((n, d) :: rest))
    (hcs : StartsVisible cs) (hj : j ≤ i) :
    ReadsLine (inBlock tokens (i :: indents) none true line (i + 2)
        ((onward (i + 2) (fields (i + 2) ((n, d) :: rest))).toList ++ (List.replicate j ' ' ++ cs)))
      (tokens ++ .mappingStart :: (recordTokens ((n, d) :: rest) ++ [.blockEnd])) (i :: indents)
      (List.replicate j ' ' ++ cs) := by
  have hhead : Within (i + 2) (i :: indents) := .cons (Nat.le_add_right i 2) indents
  have hread := @hrecord tokens (i :: indents) line (i + 2) j cs (List.cons_ne_nil _ _) hhead hcs
    (by omega)
  rw [opened_of_lt _ (by omega)] at hread
  have hclosed := hread.close hcs (by omega)
  rwa [List.append_assoc, List.append_assoc] at hclosed

/-- A record is read as a value, below its name. -/
theorem readsValue_record {rest : List (String × Datum)} (hn : isSimpleName n = true)
    (hrecord : ReadsRecord ((n, d) :: rest)) : ReadsValue (.record ((n, d) :: rest)) := by
  intro tokens indents line column i j cs hi hcs hj
  have hvisible := startsVisible_record hn d rest (i + 2) (List.replicate j ' ' ++ cs)
  rw [value, String.toList_append, toList_below (by simp [fields]), valueTokens, List.append_assoc,
    List.append_assoc]
  exact .of_newline false column hvisible (readsLine_record hrecord hcs hj)

theorem readsItem_record {rest : List (String × Datum)} (hn : isSimpleName n = true)
    (hrecord : ReadsRecord ((n, d) :: rest)) : ReadsItem (.record ((n, d) :: rest)) := by
  intro tokens indents line i j cs hcs hj
  have hvisible := startsVisible_record hn d rest (i + 2) (List.replicate j ' ' ++ cs)
  rw [item, itemTokens]
  exact .of_reads (reads_spaces hvisible 1) (readsLine_record hrecord hcs hj)

/-- A list in a field stands at the column of its name. -/
theorem readsValue_list {rest : List Datum} (hlist : ReadsList (d :: rest)) :
    ReadsValue (.list (d :: rest)) := by
  intro tokens indents line column i j cs hi hcs hj
  have hvisible := startsVisible_list d rest i (List.replicate j ' ' ++ cs)
  have hhead : Within i (i :: indents) := .cons (Nat.le_refl i) indents
  have hread := @hlist tokens (i :: indents) (line + 1) i j cs (List.cons_ne_nil _ _) hhead hcs hj
  rw [opened_self, List.append_nil] at hread
  rw [value, String.toList_append, toList_below (by simp [items]), valueTokens, List.append_assoc,
    List.append_assoc]
  exact .of_newline false column hvisible hread

/-- A list in a list stands further in. -/
theorem readsItem_list {rest : List Datum} (hlist : ReadsList (d :: rest)) :
    ReadsItem (.list (d :: rest)) := by
  intro tokens indents line i j cs hcs hj
  have hvisible := startsVisible_list d rest (i + 2) (List.replicate j ' ' ++ cs)
  have hhead : Within (i + 2) (i :: indents) := .cons (Nat.le_add_right i 2) indents
  have hread := @hlist tokens (i :: indents) line (i + 2) j cs (List.cons_ne_nil _ _) hhead hcs
    (by omega)
  rw [opened_of_lt _ (by omega)] at hread
  have hclosed := hread.close hcs (by omega)
  rw [List.append_assoc, List.append_assoc] at hclosed
  rw [item, itemTokens]
  exact .of_reads (reads_spaces hvisible 1) hclosed

/-- One field, and the fields below it. -/
theorem readsRecord_cons {rest : List (String × Datum)} (hfields : FieldsOnLines ((n, d) :: rest))
    (hvalue : ReadsValue d) (hrest : ReadsRecord rest) : ReadsRecord ((n, d) :: rest) := by
  intro tokens indents line column j cs _ hi hcs hj
  obtain ⟨hn, -, hothers⟩ := hfields
  obtain ⟨hname, hshort⟩ := oneLine_of_simple hn
  obtain ⟨outer, houter⟩ := exists_opened .mappingStart column indents
  have hfield : ∀ {j : Nat} {cs : List Char}, StartsVisible cs → j ≤ column →
      ReadsLine (inBlock tokens indents none true line column
          ((name column n ++ value column d).toList ++ (List.replicate j ' ' ++ cs)))
        (tokens ++ (opened .mappingStart column indents).1 ++
          [.key, .scalar (lineStyle n) n, .value] ++ valueTokens d)
        (column :: outer) (List.replicate j ' ' ++ cs) := by
    intro j cs hcs hj
    have hline := line_text hname (column + 2)
    have hkey := @reads_key tokens indents line column
      ((value column d).toList ++ (List.replicate j ' ' ++ cs)) _ _ _ hline
      (length_text_le hname hshort _) (fun _ => isGap_value column d _ line _) hi
    rw [houter, String.ofList_toList] at hkey
    rw [String.toList_append, toList_name hn, List.append_assoc, List.append_assoc]
    exact .of_reads hkey (hvalue (by omega) hcs hj)
  -- The line of the first field is read in the same way whatever follows; the next field opens no
  -- mapping, because that of the record is open already.
  cases rest with
  | nil =>
      rw [fields, fields, toList_onward_singleton, houter, recordTokens, recordTokens,
        List.append_nil]
      have hread := hfield hcs hj
      rwa [List.append_assoc _ [Token.key, _, _]] at hread
  | cons f more =>
      obtain ⟨n', d'⟩ := f
      have hvisible := startsVisible_record hothers.1 d' more column (List.replicate j ' ' ++ cs)
      rw [fields, fields, toList_onward_cons_cons, ← fields, houter, List.append_assoc,
        List.append_assoc]
      refine (hfield hvisible (Nat.le_refl column)).trans fun line => .of_spaces hvisible ?_
      have hhead : Within column (column :: outer) := .cons (Nat.le_refl column) outer
      have hread := @hrest (tokens ++ (opened .mappingStart column indents).1 ++
        [.key, .scalar (lineStyle n) n, .value] ++ valueTokens d) (column :: outer) line column j cs
        (List.cons_ne_nil _ _) hhead hcs hj
      rw [opened_self, List.append_nil] at hread
      rw [recordTokens]
      simpa only [List.append_assoc, List.cons_append, List.nil_append] using hread

/-- One item, and the items below it. -/
theorem readsList_cons {rest : List Datum} (hitem : ReadsItem d) (hrest : ReadsList rest) :
    ReadsList (d :: rest) := by
  intro tokens indents line column j cs _ hi hcs hj
  obtain ⟨outer, houter⟩ := exists_opened .sequenceStart column indents
  have hentry : ∀ {j : Nat} {cs : List Char}, StartsVisible cs → j ≤ column →
      ReadsLine (inBlock tokens indents none true line column
          (("- " ++ item column d).toList ++ (List.replicate j ' ' ++ cs)))
        (tokens ++ (opened .sequenceStart column indents).1 ++ [.entry] ++ itemTokens d)
        (column :: outer) (List.replicate j ' ' ++ cs) := by
    intro j cs hcs hj
    have hhyphen := @reads_entry tokens indents line column
      ((item column d).toList ++ (List.replicate j ' ' ++ cs)) hi
    rw [houter] at hhyphen
    rw [String.toList_append, List.append_assoc]
    exact .of_reads hhyphen (hitem hcs hj)
  cases rest with
  | nil =>
      rw [items, items, toList_onward_singleton, houter, listTokens, listTokens, List.append_nil]
      have hread := hentry hcs hj
      rwa [List.append_assoc _ [Token.entry]] at hread
  | cons next more =>
      have hvisible := startsVisible_list next more column (List.replicate j ' ' ++ cs)
      rw [items, items, toList_onward_cons_cons, ← items, houter, List.append_assoc,
        List.append_assoc]
      refine (hentry hvisible (Nat.le_refl column)).trans fun line => .of_spaces hvisible ?_
      have hhead : Within column (column :: outer) := .cons (Nat.le_refl column) outer
      have hread := @hrest (tokens ++ (opened .sequenceStart column indents).1 ++ [.entry] ++
        itemTokens d) (column :: outer) line column j cs (List.cons_ne_nil _ _) hhead hcs hj
      rw [opened_self, List.append_nil] at hread
      rw [listTokens]
      simpa only [List.append_assoc, List.cons_append, List.nil_append] using hread

end

mutual

/-- Every value on lines is read. -/
theorem reads_value : ∀ {d : Datum}, OnLines d → ReadsValue d
  | .list (_ :: _), h => readsValue_list (reads_list h)
  | .record ((_, _) :: _), h => readsValue_record h.1 (reads_record h)
  | .null, h | .flag _, h | .whole _, h | .real _, h | .text _, h | .list [], h | .record [], h =>
      readsValue_leaf h trivial

/-- Every item on lines is read. -/
theorem reads_item : ∀ {d : Datum}, OnLines d → ReadsItem d
  | .list (_ :: _), h => readsItem_list (reads_list h)
  | .record ((_, _) :: _), h => readsItem_record h.1 (reads_record h)
  | .null, h | .flag _, h | .whole _, h | .real _, h | .text _, h | .list [], h | .record [], h =>
      readsItem_leaf h trivial

/-- The fields of every record on lines are read. -/
theorem reads_record : ∀ {fs : List (String × Datum)}, FieldsOnLines fs → ReadsRecord fs
  | [], _ => fun hne => absurd rfl hne
  | (_, _) :: _, h => readsRecord_cons h (reads_value h.2.1) (reads_record h.2.2)

/-- The items of every list on lines are read. -/
theorem reads_list : ∀ {ds : List Datum}, ItemsOnLines ds → ReadsList ds
  | [], _ => fun hne => absurd rfl hne
  | _ :: _, h => readsList_cons (reads_item h.1) (reads_list h.2)

end

/-! ### The tokens of a document -/

/-- At the end of the text the last collection is closed. -/
theorem run_end (steps : Nat) :
    run (steps + 1) (inBlock tokens [0] none true line 0 []) =
      some (tokens ++ [Token.blockEnd]).toArray := by
  have hhead : Within 0 [0] := .cons (Nat.le_refl 0) []
  have hadvance : (inBlock tokens [0] none true line 0 []).advance? =
      some (inBlock tokens [0] none true line 0 []) := advance?_visible trivial fresh_none hhead
  rw [run, hadvance]
  simp [Lexer.char, layoutFrom_nil, closeAll, closeWhile, inBlock, inFlow, dropCandidate?,
    candidate?, setCandidate]

/-- What is read up to the end of a text makes up its tokens. -/
theorem ofText?_of_readsLine {s : String}
    (h : ReadsLine (inBlock [] [] none true 0 0 s.toList) tokens [0] []) :
    Token.ofText? s = some (tokens ++ [Token.blockEnd]) := by
  obtain ⟨line, n, hn, hrun⟩ := h
  rw [rest_inBlock, rest_inBlock] at hn
  obtain ⟨steps, hsteps⟩ := Nat.exists_eq_add_of_le hn
  have hfuel : n + (layoutFrom line 0 []).length + steps + 1 = n + (steps + 1 + 1) := by
    rw [layoutFrom_nil, List.length_singleton]
    omega
  have hstart : ({ rest := layoutFrom 0 0 s.toList } : Lexer) =
      inBlock [] [] none true 0 0 s.toList := rfl
  simp only [Token.ofText?, Spot.layout]
  rw [hsteps, hfuel, hstart, hrun, run_end, Option.map_some]

/-- **The tokens of a document** that is written for a record or a list are those of the tree. -/
theorem ofText?_render {d : Datum} (hparts : ¬ IsLeaf d) (h : OnLines d) :
    Token.ofText? (render d) = some (itemTokens d) := by
  have hnone : Within 0 [] := .nil 0
  have hfirst : ∀ {parts : List String}, parts ≠ [] → (below 0 parts).toList =
      (onward 0 parts).toList ++ (List.replicate 0 ' ' ++ []) := by
    intro parts hne
    rw [toList_below hne, List.replicate_zero, List.nil_append, List.append_nil, List.append_nil]
  obtain ⟨d, rest, rfl⟩ | ⟨f, rest, rfl⟩ := exists_parts hparts
  · have hread := @reads_list (d :: rest) h [] [] 0 0 0 [] (List.cons_ne_nil _ _) hnone trivial
      (Nat.le_refl 0)
    rw [← hfirst (by simp [items])] at hread
    rw [render, itemTokens]
    exact ofText?_of_readsLine hread
  · have hread := @reads_record (f :: rest) h [] [] 0 0 0 [] (List.cons_ne_nil _ _) hnone trivial
      (Nat.le_refl 0)
    rw [← hfirst (by simp [fields])] at hread
    rw [render, itemTokens]
    exact ofText?_of_readsLine hread

end SolarBill.Yaml
