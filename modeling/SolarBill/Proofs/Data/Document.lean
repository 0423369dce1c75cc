import SolarBill.Proofs.Data.Faithful
import SolarBill.Yaml.Print
import SolarBill.Yaml.Reader

/-!
# Documents that carry a tree

Between a tree and the records that are read from its document stand the text and its nodes.  A node
stands for a tree in the usual way (`Node.tree?`): quoted scalars are texts, plain ones are what they
mean, and sequences and mappings are lists and records.  A document carries a tree when its text is
read as a node that stands for the tree.

* `Node.reader_faithful` — the reader of nodes finds what the tree holds;
* `Yaml.read?_render` — what a document carries is read back from it.
-/

namespace SolarBill

/-! ### Comparing trees -/

namespace Datum

mutual

/-- Are two trees the same? -/
def same : Datum → Datum → Bool
  | .null, .null => true
  | .flag a, .flag b => a == b
  | .whole a, .whole b => a == b
  | .real a, .real b => decide (a = b)
  | .text a, .text b => a == b
  | .list as, .list bs => sameItems as bs
  | .record fs, .record gs => sameFields fs gs
  | _, _ => false

/-- Are the items of two lists the same? -/
def sameItems : List Datum → List Datum → Bool
  | [], [] => true
  | a :: as, b :: bs => same a b && sameItems as bs
  | _, _ => false

/-- Are the fields of two records the same? -/
def sameFields : List (String × Datum) → List (String × Datum) → Bool
  | [], [] => true
  | (n, a) :: fs, (m, b) :: gs => n == m && same a b && sameFields fs gs
  | _, _ => false

end

mutual

/-- Trees compare equal when they are equal. -/
theorem same_iff : ∀ {a b : Datum}, same a b = true ↔ a = b
  | .list as, .list bs => by rw [same, sameItems_iff, Datum.list.injEq]
  | .record fs, .record gs => by rw [same, sameFields_iff, Datum.record.injEq]
  | .null, b | .flag _, b | .whole _, b | .real _, b | .text _, b => by cases b <;> simp [same]
  | .list _, .null | .list _, .flag _ | .list _, .whole _ | .list _, .real _ | .list _, .text _
  | .list _, .record _ => by simp [same]
  | .record _, .null | .record _, .flag _ | .record _, .whole _ | .record _, .real _
  | .record _, .text _ | .record _, .list _ => by simp [same]

theorem sameItems_iff : ∀ {as bs : List Datum}, sameItems as bs = true ↔ as = bs
  | [], [] => by simp [sameItems]
  | a :: as, b :: bs => by
      rw [sameItems, Bool.and_eq_true, same_iff, sameItems_iff, List.cons.injEq]
  | [], _ :: _ | _ :: _, [] => by simp [sameItems]

theorem sameFields_iff : ∀ {fs gs : List (String × Datum)}, sameFields fs gs = true ↔ fs = gs
  | [], [] => by simp [sameFields]
  | (n, a) :: fs, (m, b) :: gs => by
      rw [sameFields, Bool.and_eq_true, Bool.and_eq_true, beq_iff_eq, same_iff, sameFields_iff,
        List.cons.injEq, Prod.mk.injEq]
  | [], _ :: _ | _ :: _, [] => by simp [sameFields]

end

instance : DecidableEq Datum :=
  fun _ _ => decidable_of_iff _ same_iff

end Datum

namespace Yaml

/-! ### Plain scalars -/

namespace Meaning

/-- What is found in a plain text that has a meaning. -/
def Fits (s : String) : Meaning → Prop
  | .null | .text => True
  | .flag b => flagWord? s = some b
  | .integer n => integer? s = some n
  | .float x => float? s = some x

/-- What a plain text means is found in it. -/
theorem fits_of (s : String) : Fits s (of s) := by
  rw [of]
  split
  · trivial
  · split
    · assumption
    · assumption
    · split
      · trivial
      · split
        · assumption
        · trivial

/-- A plain text means nothing when it is empty or a word for nothing. -/
theorem of_eq_null_iff {s : String} : of s = .null ↔ (s.isEmpty || isNullWord s) = true := by
  rw [of]
  split
  · next hnull => exact iff_of_true rfl hnull
  · next hnull =>
    rw [iff_false_right hnull]
    repeat' split
    all_goals exact Meaning.noConfusion

/-- A flag is one of its words. -/
theorem flagWord?_of_flag {s : String} {b : Bool} (h : of s = .flag b) : flagWord? s = some b := by
  have hfits := fits_of s
  rwa [h] at hfits

/-- An integer is read from its digits. -/
theorem integer?_of_integer {s : String} {n : Int} (h : of s = .integer n) :
    integer? s = some n := by
  have hfits := fits_of s
  rwa [h] at hfits

/-- A number is read from its digits, its point and its exponent. -/
theorem float?_of_float {s : String} {x : Float} (h : of s = .float x) : float? s = some x := by
  have hfits := fits_of s
  rwa [h] at hfits

end Meaning

/-! ### Nodes that stand for trees -/

namespace Node

mutual

/-- The tree that a node stands for, if it does for one: it has no tags and no loops, and its keys
are scalars, which are names as they are written. -/
def tree? : Node → Option Datum
  | .scalar none .plain s =>
    match Meaning.of s with
    | .null => some .null
    | .flag b => some (.flag b)
    | .integer n => some (.whole n)
    | .float x => some (.real x)
    | .text => some (.text s)
  | .scalar none _ s => some (.text s)
  | .sequence none items => (trees? items).map .list
  | .mapping none entries => (fieldTrees? entries).map .record
  | _ => none

/-- The trees of the items of a sequence. -/
def trees? : List Node → Option (List Datum)
  | [] => some []
  | n :: rest => do
    let d ← tree? n
    return d :: (← trees? rest)

/-- The trees of the entries of a mapping by name. -/
def fieldTrees? : List (Node × Node) → Option (List (String × Datum))
  | [] => some []
  | (k, n) :: rest => do
    let name ← k.text?
    let d ← tree? n
    return (name, d) :: (← fieldTrees? rest)

end

/-- A node stands for a tree. -/
def Holds (d : Datum) (n : Node) : Prop :=
  n.tree? = some d

/-- What a node is that stands for a tree, by the kind of the tree. -/
inductive Form : Datum → Node → Prop
  | null {s : String} (h : Meaning.of s = .null) : Form .null (.scalar none .plain s)
  | flag {s : String} {b : Bool} (h : Meaning.of s = .flag b) :
      Form (.flag b) (.scalar none .plain s)
  | whole {s : String} {k : Int} (h : Meaning.of s = .integer k) :
      Form (.whole k) (.scalar none .plain s)
  | real {s : String} {x : Float} (h : Meaning.of s = .float x) :
      Form (.real x) (.scalar none .plain s)
  | plain {s : String} (h : Meaning.of s = .text) : Form (.text s) (.scalar none .plain s)
  | quoted {s : String} {style : Style} (h : style ≠ .plain) :
      Form (.text s) (.scalar none style s)
  | list {ds : List Datum} {items : List Node} (h : List.Forall₂ Holds ds items) :
      Form (.list ds) (.sequence none items)
  | record {fs : List (String × Datum)} {entries : List (Node × Node)}
      (h : List.Forall₂ (fun f e => e.1.text? = some f.1 ∧ Holds f.2 e.2) fs entries) :
      Form (.record fs) (.mapping none entries)

/-- The trees of items, item by item. -/
theorem forall₂_of_trees? {items : List Node} {ds : List Datum} (h : trees? items = some ds) :
    List.Forall₂ Holds ds items := by
  induction items generalizing ds with
  | nil =>
      rw [trees?] at h
      cases h
      exact .nil
  | cons n rest ih =>
      rw [trees?, Option.bind_eq_bind, Option.bind_eq_some_iff] at h
      obtain ⟨d, hd, h⟩ := h
      rw [Option.bind_eq_bind, Option.bind_eq_some_iff] at h
      obtain ⟨others, hothers, h⟩ := h
      cases h
      exact .cons hd (ih hothers)

/-- The trees of fields, field by field. -/
theorem forall₂_of_fieldTrees? {entries : List (Node × Node)} {fs : List (String × Datum)}
    (h : fieldTrees? entries = some fs) :
    List.Forall₂ (fun f e => e.1.text? = some f.1 ∧ Holds f.2 e.2) fs entries := by
  induction entries generalizing fs with
  | nil =>
      rw [fieldTrees?] at h
      cases h
      exact .nil
  | cons e rest ih =>
      obtain ⟨k, n⟩ := e
      rw [fieldTrees?, Option.bind_eq_bind, Option.bind_eq_some_iff] at h
      obtain ⟨name, hname, h⟩ := h
      rw [Option.bind_eq_bind, Option.bind_eq_some_iff] at h
      obtain ⟨d, hd, h⟩ := h
      obtain ⟨others, hothers, h⟩ := Option.bind_eq_some_iff.mp h
      cases h
      exact .cons ⟨hname, hd⟩ (ih hothers)

/-- What a tree is says which form the node has that holds it. -/
theorem Holds.form {d : Datum} {n : Node} (h : Holds d n) : Form d n := by
  rw [Holds] at h
  cases n with
  | scalar tag style s =>
      cases tag with
      | some tag => cases h
      | none =>
          by_cases hstyle : style = .plain
          · subst hstyle
            rw [tree?] at h
            cases hmeaning : Meaning.of s <;> rw [hmeaning] at h <;> cases h
            · exact .null hmeaning
            · exact .flag hmeaning
            · exact .whole hmeaning
            · exact .real hmeaning
            · exact .plain hmeaning
          · rw [tree?.eq_2 _ _ hstyle] at h
            cases h
            exact .quoted hstyle
  | sequence tag items =>
      cases tag with
      | some tag => cases h
      | none =>
          rw [tree?, Option.map_eq_some_iff] at h
          obtain ⟨ds, hds, rfl⟩ := h
          exact .list (forall₂_of_trees? hds)
  | mapping tag entries =>
      cases tag with
      | some tag => cases h
      | none =>
          rw [tree?, Option.map_eq_some_iff] at h
          obtain ⟨fs, hfs, rfl⟩ := h
          exact .record (forall₂_of_fieldTrees? hfs)
  | loop => cases h

/-- A count is read from an integer that fits it. -/
theorem word?_of_integer {s : String} {n : UInt32} (h : Meaning.of s = .integer n.toNat) :
    word? s = some (n.toNat : Int) := by
  have hlt := n.toNat_lt
  rw [word?, Meaning.integer?_of_integer h, Option.filter_some, if_pos]
  simp only [Bool.and_eq_true, decide_eq_true_eq]
  omega

/-- The entries of a mapping are found under the names of the tree. -/
theorem exists_named {fs : List (String × Datum)} {entries : List (Node × Node)}
    (h : List.Forall₂ (fun f e => e.1.text? = some f.1 ∧ Holds f.2 e.2) fs entries) :
    ∃ es, (Node.mapping none entries).named? = some es ∧ Reader.HoldFields Holds fs es := by
  simp only [named?]
  induction h with
  | nil => exact ⟨[], rfl, .nil⟩
  | @cons f e fs entries hfirst _ ih =>
      obtain ⟨es, hes, hheld⟩ := ih
      refine ⟨(f.1, e.2) :: es, ?_, .cons ⟨rfl, hfirst.2⟩ hheld⟩
      rw [List.mapM_cons, hfirst.1, hes]
      rfl

/-- Where names are distinct, no field is given twice. -/
theorem eachOnce_of_nodup (names : List String) {es : List (String × Node)}
    (h : (es.map Prod.fst).Nodup) : eachOnce names es = true := by
  rw [eachOnce, List.all_eq_true]
  intro name _
  have hcount := List.nodup_iff_count_le_one.mp h name
  rw [List.count, List.countP_map, List.countP_eq_length_filter] at hcount
  exact decide_eq_true hcount

/-- **The reader of nodes is faithful** to the trees that nodes stand for. -/
theorem reader_faithful : reader.Faithful Holds where
  isAbsent := by
    intro d n h
    have hpresent : ∀ {s : String} {m : Meaning}, Meaning.of s = m → m ≠ .null →
        ¬ reader.isAbsent (.scalar none .plain s) = true := by
      rintro s _ rfl hne habsent
      exact hne (Meaning.of_eq_null_iff.mpr habsent)
    cases h.form with
    | null hs => exact iff_of_true (Meaning.of_eq_null_iff.mp hs) rfl
    | flag hs | whole hs | real hs | plain hs =>
        exact iff_of_false (hpresent hs Meaning.noConfusion) Datum.noConfusion
    | @quoted s style hstyle =>
        refine iff_of_false ?_ Datum.noConfusion
        cases style with
        | plain => exact absurd rfl hstyle
        | _ => exact Bool.noConfusion
    | list | record => exact iff_of_false Bool.noConfusion Datum.noConfusion
  flag := by
    intro b n h
    cases h.form with
    | flag hs => exact Meaning.flagWord?_of_flag hs
  count := by
    intro k n h
    cases h.form with
    | whole hs =>
        change (word? _).bind _ = _
        rw [word?_of_integer hs]
        exact Datum.wholeToCount?_count k
  real := by
    intro x n h
    cases h.form with
    | real hs => exact Meaning.float?_of_float hs
  text := by
    intro s n h
    cases h.form <;> rfl
  scalar := by
    intro a n h
    have hplain : ∀ s, reader.scalar? (.scalar none .plain s) = ofMeaning? s := fun _ => rfl
    cases a with
    | flag b =>
        cases h.form with
        | flag hs => rw [hplain, ofMeaning?, hs]
    | number x =>
        cases h.form with
        | real hs => rw [hplain, ofMeaning?, hs]
    | text s =>
        cases h.form with
        | plain hs => rw [hplain, ofMeaning?, hs]
        | @quoted _ style hstyle =>
            cases style with
            | plain => exact absurd rfl hstyle
            | _ => rfl
  choice := by
    intro names s n _ hs h
    cases h.form <;> exact if_pos (List.contains_iff_mem.mpr hs)
  items := by
    intro ds n h
    cases h.form with
    | list hitems => exact ⟨_, rfl, hitems⟩
  entries := by
    intro fs n hnodup h
    cases h.form with
    | record hentries =>
        obtain ⟨es, hes, hheld⟩ := exists_named hentries
        rw [← hheld.names_eq] at hnodup
        refine ⟨es, ?_, hheld⟩
        change (named? _).map _ = _
        rw [hes, Option.map_some, Reader.distinctEntries_of_nodup hnodup]
  fields := by
    intro fs n hnodup h names
    cases h.form with
    | record hentries =>
        obtain ⟨es, hes, hheld⟩ := exists_named hentries
        rw [← hheld.names_eq] at hnodup
        refine ⟨es, ?_, hheld⟩
        change (named? _).filter _ = _
        rw [hes, Option.filter_some, if_pos (eachOnce_of_nodup names hnodup)]

end Node

/-! ### Documents -/

/-- The document that is written for a tree stands for the tree. -/
def Carries (d : Datum) : Prop :=
  (document? (render d)).bind Node.tree? = some d

/-- **What a document carries is read back from it.** -/
theorem read?_render {α : Type} {decode : Reader Node → Node → Option α} {d : Datum} {a : α}
    (hcarries : Carries d) (hdecode : ∀ n, Node.Holds d n → decode Node.reader n = some a) :
    read? decode (render d) = some a := by
  obtain ⟨n, hdocument, hholds⟩ := Option.bind_eq_some_iff.mp hcarries
  rw [read?, hdocument, Option.bind_some]
  exact hdecode n hholds

end Yaml

end SolarBill
