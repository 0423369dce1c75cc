import SolarBill.Proofs.Yaml.Tokens
import SolarBill.Yaml.Node

/-!
# The node of a document

The parser makes the node of a tree (`nodeOf`) out of the tokens of the tree, whatever follows them:
a step that reads some tokens and leaves the rest is a `Read.Parses`, and such steps compose.  So
the document of a record or a list is read as one node (`documents?_render`).
-/

namespace SolarBill.Yaml

open Print

/-! ### The node of a tree -/

/-- The node of a scalar, an empty list or an empty record. -/
def leafNode : Datum → Node
  | .text s => .scalar none (lineStyle s) s
  | .list _ => .sequence none []
  | .record _ => .mapping none []
  | d => .scalar none .plain (scalar 0 d)

mutual

/-- The node that the document of a tree is read as. -/
def nodeOf : Datum → Node
  | .list (d :: rest) => .sequence none (nodesOf (d :: rest))
  | .record (f :: rest) => .mapping none (entriesOf (f :: rest))
  | d => leafNode d

/-- The nodes of the items of a list. -/
def nodesOf : List Datum → List Node
  | [] => []
  | d :: rest => nodeOf d :: nodesOf rest

/-- The entries of the fields of a record. -/
def entriesOf : List (String × Datum) → List (Node × Node)
  | [] => []
  | (n, d) :: rest => (.scalar none (lineStyle n) n, nodeOf d) :: entriesOf rest

end

namespace Read

/-! ### Steps of the parser -/

/-- From some tokens a step reads a result and leaves the rest, whatever the shorthands and anchors
are. -/
def Parses {α : Type} (p : Read α) (tokens : List Token) (a : α) (rest : List Token) : Prop :=
  ∀ handles anchors, p ⟨tokens, handles, anchors⟩ = some (a, ⟨rest, handles, anchors⟩)

namespace Parses

variable {α β : Type} {p : Read α} {f : α → Read β} {tokens middle rest : List Token} {a : α}
  {b : β}

/-- One step after another. -/
theorem bind (hp : Parses p tokens a middle) (hf : Parses (f a) middle b rest) :
    Parses (p >>= f) tokens b rest := by
  intro handles anchors
  change (p _).bind (fun r => f r.1 r.2) = _
  rw [hp, Option.bind_some]
  exact hf handles anchors

/-- A step that reads nothing. -/
theorem pure (a : α) (tokens : List Token) : Parses (pure a) tokens a tokens :=
  fun _ _ => rfl

/-- Looking at the next token leaves it there. -/
theorem peek (tokens : List Token) : Parses peek tokens tokens.head? tokens :=
  fun _ _ => rfl

/-- Skipping takes it away. -/
theorem skip (t : Token) (tokens : List Token) : Parses skip (t :: tokens) () tokens :=
  fun _ _ => rfl

/-- A test of the next token leaves it there. -/
theorem at? (ts tokens : List Token) :
    Parses (at? ts) tokens (tokens.head?.any ts.contains) tokens :=
  fun _ _ => rfl

/-- A token that is expected is taken away. -/
theorem expect (t : Token) (tokens : List Token) : Parses (expect t) (t :: tokens) () tokens := by
  intro handles anchors
  rw [Read.expect]
  refine Parses.bind (peek _) ?_ handles anchors
  rw [List.head?_cons, if_pos rfl]
  exact skip t tokens

/-- What is there is not missing. -/
theorem orMissing {ends : List Token} {t : Token} {read : Read Node} {n : Node} (ht : t ∉ ends)
    (h : Parses read (t :: tokens) n rest) : Parses (orMissing ends read) (t :: tokens) n rest := by
  rw [Read.orMissing]
  refine Parses.bind (at? _ _) ?_
  have hout : (List.head? (t :: tokens)).any ends.contains = false := by
    rw [List.head?_cons, Option.any_some, ← Bool.not_eq_true, List.contains_iff_mem]
    exact ht
  rw [hout]
  exact h

end Parses

/-- A token that a node without properties starts with. -/
def IsContent : Token → Prop
  | .entry | .scalar _ _ | .flowSequenceStart | .flowMappingStart | .sequenceStart
  | .mappingStart => True
  | _ => False

/-- Content has neither tags nor anchors in front of it. -/
theorem Parses.properties {t : Token} (ht : IsContent t) (tokens : List Token) :
    Parses properties (t :: tokens) (none, none) (t :: tokens) := by
  intro handles anchors
  cases t with
  | entry | scalar | flowSequenceStart | flowMappingStart | sequenceStart | mappingStart => rfl
  | _ => exact ht.elim

/-- A node without properties is its content. -/
theorem Parses.node {t : Token} {tokens rest : List Token} {n : Node} {depth : Nat}
    {block indentless : Bool} (ht : IsContent t)
    (h : Parses (content depth block indentless false none) (t :: tokens) n rest) :
    Parses (node (depth + 1) block indentless) (t :: tokens) n rest := by
  intro handles anchors
  rw [Read.node]
  refine Parses.bind (peek _) ?_ handles anchors
  cases t with
  | entry | scalar | flowSequenceStart | flowMappingStart | sequenceStart | mappingStart =>
      refine .bind (.properties ht tokens) ?_
      refine .bind (.pure none _) ?_
      refine .bind h ?_
      exact .pure n rest
  | _ => exact ht.elim

namespace Parses

variable {rest : List Token} {tokens : List Token} {depth : Nat} {block indentless mayMiss : Bool}
  {n : Node}

/-- A scalar is content. -/
theorem content_scalar (style : Style) (s : String) :
    Parses (content (depth + 1) block indentless mayMiss none) (.scalar style s :: rest)
      (.scalar none style s) rest := by
  intro handles anchors
  rw [content]
  refine bind (peek _) ?_ handles anchors
  exact bind (skip _ _) (pure _ _)

theorem content_emptyList :
    Parses (content (depth + 2) block indentless mayMiss none)
      (.flowSequenceStart :: .flowSequenceEnd :: rest) (.sequence none []) rest := by
  have hitems : Parses (flowItems (depth + 1) true) (.flowSequenceEnd :: rest) [] rest := by
    intro handles anchors
    rw [flowItems]
    refine bind (at? _ _) ?_ handles anchors
    exact bind (skip _ _) (pure _ _)
  intro handles anchors
  rw [content]
  refine bind (peek _) ?_ handles anchors
  refine bind (skip _ _) ?_
  exact bind hitems (pure _ _)

theorem content_emptyRecord :
    Parses (content (depth + 2) block indentless mayMiss none)
      (.flowMappingStart :: .flowMappingEnd :: rest) (.mapping none []) rest := by
  have hentries : Parses (flowEntries (depth + 1) true) (.flowMappingEnd :: rest) [] rest := by
    intro handles anchors
    rw [flowEntries]
    refine bind (at? _ _) ?_ handles anchors
    exact bind (skip _ _) (pure _ _)
  intro handles anchors
  rw [content]
  refine bind (peek _) ?_ handles anchors
  refine bind (skip _ _) ?_
  exact bind hentries (pure _ _)

theorem content_record {es : List (Node × Node)}
    (h : Parses (blockEntries depth) tokens es rest) :
    Parses (content (depth + 1) true indentless mayMiss none) (.mappingStart :: tokens)
      (.mapping none es) rest := by
  intro handles anchors
  rw [content]
  refine bind (peek _) ?_ handles anchors
  refine bind (skip _ _) ?_
  exact bind h (pure _ _)

theorem content_list {ns : List Node} (h : Parses (blockItems depth) tokens ns rest) :
    Parses (content (depth + 1) true indentless mayMiss none) (.sequenceStart :: tokens)
      (.sequence none ns) rest := by
  intro handles anchors
  rw [content]
  refine bind (peek _) ?_ handles anchors
  refine bind (skip _ _) ?_
  exact bind h (pure _ _)

theorem content_indentless {ns : List Node}
    (h : Parses (indentlessItems depth) (.entry :: tokens) ns rest) :
    Parses (content (depth + 1) block true mayMiss none) (.entry :: tokens) (.sequence none ns)
      rest := by
  intro handles anchors
  rw [content]
  refine bind (peek _) ?_ handles anchors
  exact bind h (pure _ _)

/-! ### Entries and items -/

theorem blockEntries_nil : Parses (blockEntries (depth + 1)) (.blockEnd :: rest) [] rest := by
  intro handles anchors
  rw [blockEntries]
  refine bind (at? _ _) ?_ handles anchors
  exact bind (skip _ _) (pure _ _)

theorem blockEntries_cons {t : Token} {style : Style} {name : String} {es : List (Node × Node)}
    {more : List Token}
    (ht : t ∉ [Token.key, .value, .blockEnd])
    (hvalue : Parses (Read.node (depth + 2) true true) (t :: tokens) n more)
    (hmore : Parses (blockEntries (depth + 2)) more es rest) :
    Parses (blockEntries (depth + 3)) (.key :: .scalar style name :: .value :: t :: tokens)
      ((.scalar none style name, n) :: es) rest := by
  have hkey : Parses (Read.node (depth + 2) true true) (.scalar style name :: .value :: t :: tokens)
      (.scalar none style name) (.value :: t :: tokens) := .node trivial (content_scalar style name)
  intro handles anchors
  rw [blockEntries]
  refine bind (at? _ _) ?_ handles anchors
  refine bind (at? _ _) ?_
  refine bind (bind (skip _ _) (orMissing (by simp) hkey)) ?_
  refine bind (at? _ _) ?_
  refine bind (bind (skip _ _) (orMissing ht hvalue)) ?_
  exact bind hmore (pure _ _)

theorem blockItems_nil : Parses (blockItems (depth + 1)) (.blockEnd :: rest) [] rest := by
  intro handles anchors
  rw [blockItems]
  refine bind (at? _ _) ?_ handles anchors
  exact bind (skip _ _) (pure _ _)

theorem blockItems_cons {t : Token} {ns : List Node} {more : List Token}
    (ht : t ∉ [Token.entry, .blockEnd])
    (hitem : Parses (Read.node depth true false) (t :: tokens) n more)
    (hmore : Parses (blockItems depth) more ns rest) :
    Parses (blockItems (depth + 1)) (.entry :: t :: tokens) (n :: ns) rest := by
  intro handles anchors
  rw [blockItems]
  refine bind (at? _ _) ?_ handles anchors
  refine bind (expect _ _) ?_
  refine bind (orMissing ht hitem) ?_
  exact bind hmore (pure _ _)

theorem indentlessItems_nil (h : rest.head? ≠ some .entry) :
    Parses (indentlessItems (depth + 1)) rest [] rest := by
  intro handles anchors
  rw [indentlessItems]
  refine bind (at? _ _) ?_ handles anchors
  have hnone : rest.head?.any [Token.entry].contains = false := by
    cases rest with
    | nil => rfl
    | cons t more => simpa [eq_comm] using h
  rw [hnone]
  exact pure _ _

theorem indentlessItems_cons {t : Token} {ns : List Node} {more : List Token}
    (ht : t ∉ [Token.entry, .key, .value, .blockEnd])
    (hitem : Parses (Read.node depth true false) (t :: tokens) n more)
    (hmore : Parses (indentlessItems depth) more ns rest) :
    Parses (indentlessItems (depth + 1)) (.entry :: t :: tokens) (n :: ns) rest := by
  intro handles anchors
  rw [indentlessItems]
  refine bind (at? _ _) ?_ handles anchors
  refine bind (skip _ _) ?_
  refine bind (orMissing ht hitem) ?_
  exact bind hmore (pure _ _)

end Parses

/-! ### The node of a tree is read from its tokens -/

/-- A value starts with a token that may follow a mark of a value. -/
theorem valueTokens_start (d : Datum) :
    ∃ t ts, valueTokens d = t :: ts ∧ t ∉ [Token.key, .value, .blockEnd] := by
  cases d with
  | list items => cases items <;> exact ⟨_, _, rfl, by decide⟩
  | record fields => cases fields <;> exact ⟨_, _, rfl, by decide⟩
  | _ => exact ⟨_, _, rfl, by simp⟩

/-- An item starts with a token that may follow an entry. -/
theorem itemTokens_start (d : Datum) :
    ∃ t ts, itemTokens d = t :: ts ∧ t ∉ [Token.entry, .key, .value, .blockEnd] := by
  cases d with
  | list items => cases items <;> exact ⟨_, _, rfl, by decide⟩
  | record fields => cases fields <;> exact ⟨_, _, rfl, by decide⟩
  | _ => exact ⟨_, _, rfl, by simp⟩

/-- A value of a field is read, in front of anything but an entry. -/
def ParsesValue (d : Datum) : Prop :=
  ∀ (depth : Nat) (rest : List Token), 3 * (valueTokens d).length ≤ depth →
    rest.head? ≠ some .entry →
      Parses (node depth true true) (valueTokens d ++ rest) (nodeOf d) rest

/-- An item of a list is read. -/
def ParsesItem (d : Datum) : Prop :=
  ∀ (depth : Nat) (rest : List Token), 3 * (itemTokens d).length ≤ depth →
    Parses (node depth true false) (itemTokens d ++ rest) (nodeOf d) rest

/-- The fields of a record are read up to its end. -/
def ParsesRecord (fs : List (String × Datum)) : Prop :=
  ∀ (depth : Nat) (rest : List Token), 3 * (recordTokens fs).length < depth →
    Parses (blockEntries depth) (recordTokens fs ++ .blockEnd :: rest) (entriesOf fs) rest

/-- The items of a list are read up to its end, or up to something that is no entry. -/
def ParsesList (ds : List Datum) : Prop :=
  ∀ (depth : Nat) (rest : List Token), 0 < depth → 3 * (listTokens ds).length < depth + 3 →
    (3 * (listTokens ds).length < depth →
      Parses (blockItems depth) (listTokens ds ++ .blockEnd :: rest) (nodesOf ds) rest) ∧
    (rest.head? ≠ some .entry →
      Parses (indentlessItems depth) (listTokens ds ++ rest) (nodesOf ds) rest)

/-- A leaf is read, whatever may stand in its place. -/
theorem parses_leaf {d : Datum} (h : IsLeaf d) {depth : Nat}
    (hdepth : 3 * (leafTokens d).length ≤ depth) (block indentless : Bool) (rest : List Token) :
    Parses (node depth block indentless) (leafTokens d ++ rest) (leafNode d) rest := by
  have hscalar : ∀ {depth : Nat} (style : Style) (s : String), 3 ≤ depth →
      Parses (node depth block indentless) (.scalar style s :: rest) (.scalar none style s)
        rest := by
    intro depth style s hdepth
    obtain ⟨fuel, rfl⟩ := Nat.exists_eq_add_of_le' hdepth
    exact .node trivial (.content_scalar style s)
  cases d with
  | list items =>
      cases items with
      | nil =>
          obtain ⟨fuel, rfl⟩ := Nat.exists_eq_add_of_le' hdepth
          exact .node trivial .content_emptyList
      | cons => exact h.elim
  | record fields =>
      cases fields with
      | nil =>
          obtain ⟨fuel, rfl⟩ := Nat.exists_eq_add_of_le' hdepth
          exact .node trivial .content_emptyRecord
      | cons => exact h.elim
  | _ => exact hscalar _ _ hdepth

/-- Without parts the node is that of the leaf. -/
theorem nodeOf_of_leaf : ∀ {d : Datum}, IsLeaf d → nodeOf d = leafNode d
  | .null, _ | .flag _, _ | .whole _, _ | .real _, _ | .text _, _ | .list [], _ | .record [], _ => rfl

/-- A leaf is read as a value. -/
theorem parsesValue_leaf {d : Datum} (h : IsLeaf d) : ParsesValue d := by
  intro depth rest hdepth _
  rw [(value_of_leaf h 0).2] at hdepth ⊢
  rw [nodeOf_of_leaf h]
  exact parses_leaf h hdepth true true rest

theorem parsesItem_leaf {d : Datum} (h : IsLeaf d) : ParsesItem d := by
  intro depth rest hdepth
  rw [(item_of_leaf h 0).2] at hdepth ⊢
  rw [nodeOf_of_leaf h]
  exact parses_leaf h hdepth true false rest

/-- A record is read from its start to its end, whatever may stand in its place. -/
theorem parses_record {f : String × Datum} {fs : List (String × Datum)}
    (h : ParsesRecord (f :: fs)) {depth : Nat}
    (hdepth : 3 * (Token.mappingStart :: (recordTokens (f :: fs) ++ [.blockEnd])).length ≤ depth)
    (indentless : Bool) (rest : List Token) :
    Parses (node depth true indentless)
      (.mappingStart :: (recordTokens (f :: fs) ++ [.blockEnd]) ++ rest)
      (nodeOf (.record (f :: fs))) rest := by
  rw [List.length_cons, List.length_append, List.length_singleton] at hdepth
  obtain ⟨fuel, rfl⟩ := Nat.exists_eq_add_of_le' (show 2 ≤ depth by omega)
  rw [List.cons_append, List.append_assoc, nodeOf]
  exact .node trivial (.content_record (h _ _ (by omega)))

/-- A list is read as a value, which it is without indentation. -/
theorem parsesValue_list {d : Datum} {ds : List Datum} (h : ParsesList (d :: ds)) :
    ParsesValue (.list (d :: ds)) := by
  intro depth rest hdepth hrest
  rw [valueTokens] at hdepth ⊢
  have hlength : (listTokens (d :: ds)).length = (itemTokens d ++ listTokens ds).length + 1 := by
    rw [listTokens, List.length_cons]
  obtain ⟨fuel, rfl⟩ := Nat.exists_eq_add_of_le' (show 3 ≤ depth by omega)
  have hitems := (h (fuel + 1) rest (by omega) (by omega)).2 hrest
  rw [listTokens] at hitems ⊢
  rw [nodeOf]
  exact .node trivial (.content_indentless hitems)

theorem parsesItem_list {d : Datum} {ds : List Datum} (h : ParsesList (d :: ds)) :
    ParsesItem (.list (d :: ds)) := by
  intro depth rest hdepth
  rw [itemTokens] at hdepth ⊢
  rw [List.length_cons, List.length_append, List.length_singleton] at hdepth
  obtain ⟨fuel, rfl⟩ := Nat.exists_eq_add_of_le' (show 2 ≤ depth by omega)
  rw [List.cons_append, List.append_assoc, nodeOf]
  exact .node trivial (.content_list ((h _ _ (by omega) (by omega)).1 (by omega)))

theorem parsesRecord_nil : ParsesRecord [] := by
  intro depth rest hdepth
  obtain ⟨fuel, rfl⟩ := Nat.exists_eq_add_of_le' (show 1 ≤ depth by omega)
  exact .blockEntries_nil

theorem parsesRecord_cons {n : String} {d : Datum} {fs : List (String × Datum)}
    (hvalue : ParsesValue d) (hmore : ParsesRecord fs) : ParsesRecord ((n, d) :: fs) := by
  intro depth rest hdepth
  obtain ⟨t, ts, heq, ht⟩ := valueTokens_start d
  rw [recordTokens, List.length_cons, List.length_cons, List.length_cons, List.length_append]
    at hdepth
  obtain ⟨fuel, rfl⟩ := Nat.exists_eq_add_of_le' (show 3 ≤ depth by omega)
  have hnext : (recordTokens fs ++ Token.blockEnd :: rest).head? ≠ some .entry := by
    cases fs with
    | nil => simp [recordTokens]
    | cons f fs => simp [recordTokens]
  have hread := hvalue (fuel + 2) (recordTokens fs ++ .blockEnd :: rest) (by omega) hnext
  rw [heq] at hread
  rw [recordTokens, List.cons_append, List.cons_append, List.cons_append, List.append_assoc, heq,
    entriesOf]
  exact .blockEntries_cons ht hread (hmore _ _ (by omega))

theorem parsesList_nil : ParsesList [] := by
  intro depth rest hdepth _
  obtain ⟨fuel, rfl⟩ := Nat.exists_eq_add_of_le' (show 1 ≤ depth by omega)
  exact ⟨fun _ => .blockItems_nil, fun hrest => .indentlessItems_nil hrest⟩

theorem parsesList_cons {d : Datum} {ds : List Datum} (hitem : ParsesItem d)
    (hmore : ParsesList ds) : ParsesList (d :: ds) := by
  intro depth rest hpos hdepth
  obtain ⟨t, ts, heq, ht⟩ := itemTokens_start d
  have hlength : 0 < (itemTokens d).length := by
    rw [heq]
    exact Nat.succ_pos _
  rw [listTokens, List.length_cons, List.length_append] at hdepth ⊢
  obtain ⟨fuel, rfl⟩ := Nat.exists_eq_add_of_le' (show 1 ≤ depth by omega)
  obtain ⟨hblock, hindentless⟩ := hmore fuel rest (by omega) (by omega)
  have hread := fun rest => hitem fuel rest (by omega)
  rw [heq] at hread
  rw [List.cons_append, List.cons_append, List.append_assoc, List.append_assoc, heq, nodesOf]
  have hsubset : [Token.entry, .blockEnd] ⊆ [.entry, .key, .value, .blockEnd] := by
    decide
  constructor
  · intro hlt
    exact .blockItems_cons (fun hmem => ht (hsubset hmem)) (hread _) (hblock (by omega))
  · intro hrest
    exact .indentlessItems_cons ht (hread _) (hindentless hrest)

mutual

/-- Every value is read. -/
theorem parses_value : ∀ d : Datum, ParsesValue d
  | .list (d :: ds) => parsesValue_list (parses_list (d :: ds))
  | .record (f :: fs) => fun _ _ hdepth _ => parses_record (parses_fields (f :: fs)) hdepth true _
  | .null | .flag _ | .whole _ | .real _ | .text _ | .list [] | .record [] =>
      parsesValue_leaf trivial

/-- Every item is read. -/
theorem parses_item : ∀ d : Datum, ParsesItem d
  | .list (d :: ds) => parsesItem_list (parses_list (d :: ds))
  | .record (f :: fs) => fun _ _ hdepth => parses_record (parses_fields (f :: fs)) hdepth false _
  | .null | .flag _ | .whole _ | .real _ | .text _ | .list [] | .record [] =>
      parsesItem_leaf trivial

/-- The fields of every record are read. -/
theorem parses_fields : ∀ fs : List (String × Datum), ParsesRecord fs
  | [] => parsesRecord_nil
  | (_, d) :: fs => parsesRecord_cons (parses_value d) (parses_fields fs)

/-- The items of every list are read. -/
theorem parses_list : ∀ ds : List Datum, ParsesList ds
  | [] => parsesList_nil
  | d :: ds => parsesList_cons (parses_item d) (parses_list ds)

end

/-! ### Documents -/

theorem documents_nil (steps : Nat) : Parses (documents (steps + 1) false) [] [] [] :=
  fun _ _ => rfl

/-- A document that is one collection without directives or markers. -/
theorem documents_collection {t : Token} (ht : t = .mappingStart ∨ t = .sequenceStart)
    {more : List Token} {n : Node} (steps : Nat)
    (h : Parses (node (3 * (t :: more).length + 3) true false) (t :: more) n []) :
    ∃ r, documents (steps + 2) true { tokens := t :: more } = some ([n], r) := by
  have hroot : Parses (do
      let root ← node (3 * (t :: more).length + 3) true false
      if ← at? [.documentEnd] then skip
      return root :: (← documents (steps + 1) false)) (t :: more) [n] [] := by
    refine .bind h ?_
    refine .bind (.at? _ _) ?_
    exact .bind (documents_nil steps) (.pure _ _)
  rcases ht with rfl | rfl
  · exact ⟨_, hroot standardHandles #[]⟩
  · exact ⟨_, hroot standardHandles #[]⟩

end Read

/-- The tokens of a collection begin with its start. -/
theorem itemTokens_collection {d : Datum} (hparts : ¬ IsLeaf d) :
    ∃ t more, itemTokens d = t :: more ∧ (t = .mappingStart ∨ t = .sequenceStart) := by
  obtain ⟨item, rest, rfl⟩ | ⟨field, rest, rfl⟩ := exists_parts hparts
  · exact ⟨_, _, rfl, .inr rfl⟩
  · exact ⟨_, _, rfl, .inl rfl⟩

/-- **The document of a record or a list** is read as the node of the tree. -/
theorem documents?_render {d : Datum} (hparts : ¬ IsLeaf d) (h : OnLines d) :
    documents? (render d) = some [nodeOf d] := by
  obtain ⟨t, more, heq, ht⟩ := itemTokens_collection hparts
  have hread := Read.parses_item d (3 * (itemTokens d).length + 3) [] (Nat.le_add_right _ 3)
  rw [List.append_nil, heq] at hread
  obtain ⟨r, hdocuments⟩ := Read.documents_collection ht more.length hread
  rw [documents?, ofText?_render hparts h, heq]
  simp only [Option.bind_eq_bind, Option.bind_some]
  rw [List.length_cons, hdocuments, Option.bind_some]
  rfl

end SolarBill.Yaml
