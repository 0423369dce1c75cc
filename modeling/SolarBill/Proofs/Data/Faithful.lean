import Mathlib.Data.List.Forall2
import Mathlib.Data.List.Nodup
import SolarBill.Data.Catalog
import SolarBill.Data.Plan
import SolarBill.Settings.Reader

/-!
# Faithful readers

A value of a source may stand for a data tree: a node of a document for a part of what was written,
a tree for itself.  A reader is faithful when it finds in such a value what the tree holds: the same
scalar, the items of the list, the fields of the record.  Nothing more is needed for a decoder to
read back what its encoder wrote, so the records are treated once, over any faithful reader.

* `Reader.Faithful` — what is asked of a reader;
* `Reader.ReadsBack` — reading inverts writing, with lemmas for optional values, lists and fields;
* `Datum.reader_faithful`, `Settings.reader_faithful` — trees stand for themselves.
-/

namespace SolarBill

namespace Reader

variable {ν α : Type}

/-- Reading inverts writing, from every value that stands for what is written. -/
def ReadsBack (Holds : Datum → ν → Prop) (read : ν → Option α) (write : α → Datum) : Prop :=
  ∀ a v, Holds (write a) v → read v = some a

/-- Values under the same names as trees, one by one. -/
def HoldFields (Holds : Datum → ν → Prop) (fields : List (String × Datum))
    (values : List (String × ν)) : Prop :=
  List.Forall₂ (fun f e => f.1 = e.1 ∧ Holds f.2 e.2) fields values

/-- A reader finds in the values of a source what the trees hold that they stand for. -/
structure Faithful (r : Reader ν) (Holds : Datum → ν → Prop) : Prop where
  isAbsent : ∀ {d v}, Holds d v → (r.isAbsent v = true ↔ d = .null)
  flag : ReadsBack Holds r.flag? .flag
  count : ReadsBack Holds r.count? .count
  real : ReadsBack Holds r.real? .real
  text : ReadsBack Holds r.text? .text
  /-- A flag stays a flag, a number a number, and a text a text. -/
  scalar : ReadsBack Holds r.scalar? AttributeValue.encode
  /-- Names are told apart without regard to upper and lower case. -/
  choice : ∀ {names : List String} {s v}, (names.map Text.lowerAscii).Nodup → s ∈ names →
    Holds (.text s) v → r.choice? names v = some s
  items : ∀ {ds v}, Holds (.list ds) v → ∃ vs, r.items? v = some vs ∧ List.Forall₂ Holds ds vs
  entries : ∀ {fs v}, (fs.map Prod.fst).Nodup → Holds (.record fs) v →
    ∃ es, r.entries? v = some es ∧ HoldFields Holds fs es
  fields : ∀ {fs v}, (fs.map Prod.fst).Nodup → Holds (.record fs) v → ∀ names,
    ∃ es, r.fields? names v = some es ∧ HoldFields Holds fs es

section

variable {r : Reader ν} {Holds : Datum → ν → Prop} {read : ν → Option α} {write : α → Datum}

/-- Reading item by item gives the items. -/
theorem mapM_eq_some_of_forall₂ {β : Type} {f : β → Option α} {as : List α} {bs : List β}
    (h : List.Forall₂ (fun a b => f b = some a) as bs) : bs.mapM f = some as := by
  induction h with
  | nil => rfl
  | cons hfirst _ ih =>
      rw [List.mapM_cons, hfirst, ih]
      rfl

/-! ### Optional values and lists -/

/-- A value that may be missing is read back, if what is written is not the mark of a missing one.
-/
theorem Faithful.option (h : r.Faithful Holds) (hread : ReadsBack Holds read write)
    (hpresent : ∀ a, write a ≠ .null) :
    ReadsBack Holds (r.optional read) (Datum.option write) := by
  intro o v hv
  cases o with
  | none =>
      rw [optional, if_pos ((h.isAbsent hv).mpr rfl)]
  | some a =>
      rw [optional, if_neg (mt (h.isAbsent hv).mp (hpresent a)), hread a v hv, Option.map_some]

/-- A list is read back if its items are. -/
theorem Faithful.listOf_eq (h : r.Faithful Holds) {as : List α}
    (hread : ∀ a ∈ as, ∀ v, Holds (write a) v → read v = some a) {v : ν}
    (hv : Holds (Datum.listOf write as) v) : r.listOf read v = some as := by
  obtain ⟨vs, hitems, hheld⟩ := h.items hv
  rw [List.forall₂_map_left_iff] at hheld
  rw [Reader.listOf, hitems, Option.bind_some]
  apply mapM_eq_some_of_forall₂
  rw [List.forall₂_iff_zip] at hheld ⊢
  refine ⟨hheld.1, ?_⟩
  intro a b hab
  exact hread a (List.of_mem_zip hab).1 b (hheld.2 hab)

/-- Lists of what is read back are read back. -/
theorem Faithful.listOf (h : r.Faithful Holds) (hread : ReadsBack Holds read write) :
    ReadsBack Holds (r.listOf read) (Datum.listOf write) :=
  fun _ _ hv => h.listOf_eq (fun a _ => hread a) hv

/-! ### Fields -/

namespace HoldFields

variable {fs : List (String × Datum)} {es : List (String × ν)}

/-- A field is found with what it holds. -/
theorem lookup (h : HoldFields Holds fs es) (name : String) {d : Datum}
    (hlookup : fs.lookup name = some d) : ∃ v, es.lookup name = some v ∧ Holds d v := by
  induction h with
  | nil => cases hlookup
  | @cons f e fs es hfirst _ ih =>
      obtain ⟨hname, hheld⟩ := hfirst
      rw [List.lookup_cons] at hlookup ⊢
      rw [← hname]
      by_cases hfound : name = f.1
      · rw [beq_iff_eq.mpr hfound] at hlookup ⊢
        cases hlookup
        exact ⟨e.2, rfl, hheld⟩
      · rw [beq_eq_false_iff_ne.mpr hfound] at hlookup ⊢
        exact ih hlookup

/-- The names of the fields are those that were written. -/
theorem names_eq (h : HoldFields Holds fs es) : es.map Prod.fst = fs.map Prod.fst := by
  induction h with
  | nil => rfl
  | cons hfirst _ ih => rw [List.map_cons, List.map_cons, ih, hfirst.1]

/-- A field that must be there is read back. -/
theorem required (h : HoldFields Holds fs es) (name : String) {a : α}
    (hread : ReadsBack Holds read write) (hlookup : fs.lookup name = some (write a)) :
    Reader.required es name read = some a := by
  obtain ⟨v, hfound, hheld⟩ := h.lookup name hlookup
  rw [Reader.required, hfound, Option.bind_some, hread a v hheld]

/-- A field with a default is read back as it was written, whatever the default. -/
theorem withDefault (h : HoldFields Holds fs es) (name : String) {a : α} (default : α)
    (hread : ReadsBack Holds read write) (hlookup : fs.lookup name = some (write a)) :
    Reader.withDefault es name default read = some a := by
  obtain ⟨v, hfound, hheld⟩ := h.lookup name hlookup
  rw [Reader.withDefault, hfound]
  exact hread a v hheld

/-- A text that may be missing is read back. -/
theorem optionalText (h : HoldFields Holds fs es) (hr : r.Faithful Holds) (name : String)
    {o : Option String} (hlookup : fs.lookup name = some (.optionText o)) :
    r.optionalText es name = some o :=
  h.withDefault name none (hr.option hr.text fun _ => Datum.noConfusion) hlookup

end HoldFields

end

/-! ### Names told apart -/

/-- Where keys are distinct, none of them occurs before itself. -/
theorem key_not_mem_before {α β : Type} {key : α → β} {before rest : List α} {a : α}
    (h : ((before ++ a :: rest).map key).Nodup) : key a ∉ before.map key := by
  rw [List.map_append, List.map_cons, List.nodup_middle, List.nodup_cons] at h
  exact fun hmem => h.1 (List.mem_append_left _ hmem)

theorem setEntry_append {name : String} {v : ν} {before : List (String × ν)}
    (h : name ∉ before.map Prod.fst) : setEntry name v before = before ++ [(name, v)] := by
  induction before with
  | nil => rfl
  | cons e rest ih =>
      rw [List.map_cons, List.mem_cons, not_or] at h
      rw [setEntry, if_neg (by rw [beq_iff_eq]; exact Ne.symm h.1), ih h.2, List.cons_append]

/-- Entries whose names are distinct stay as they are. -/
theorem distinctEntries_of_nodup {es : List (String × ν)} (h : (es.map Prod.fst).Nodup) :
    distinctEntries es = es := by
  have hfold : ∀ (rest before : List (String × ν)), ((before ++ rest).map Prod.fst).Nodup →
      rest.foldl (fun acc e => setEntry e.1 e.2 acc) before = before ++ rest := by
    intro rest
    induction rest with
    | nil =>
        intro before _
        rw [List.append_nil]
        rfl
    | cons e rest ih =>
        intro before hnodup
        have hnew := key_not_mem_before hnodup
        rw [List.append_cons] at hnodup ⊢
        rw [List.foldl_cons, setEntry_append hnew]
        exact ih _ hnodup
  exact hfold es [] h

end Reader

/-! ### Trees -/

namespace Datum

/-- A count is read from the integer that it is written as. -/
theorem wholeToCount?_count (n : UInt32) : wholeToCount? n.toNat = some n := by
  have hlt := n.toNat_lt
  rw [wholeToCount?, if_pos ⟨by omega, by omega⟩, Int.toNat_natCast, UInt32.ofNat_toNat]

/-- Trees hold themselves, item by item. -/
theorem forall₂_eq (ds : List Datum) : List.Forall₂ Eq ds ds :=
  List.forall₂_same.mpr fun _ _ => rfl

theorem holdFields_eq (fs : List (String × Datum)) : Reader.HoldFields Eq fs fs :=
  List.forall₂_same.mpr fun _ _ => ⟨rfl, rfl⟩

/-- The reader of trees is faithful to the trees themselves. -/
theorem reader_faithful : reader.Faithful Eq where
  isAbsent := by
    intro d v hv
    subst hv
    cases d <;> simp [reader]
  flag := by
    intro b v hv
    subst hv
    rfl
  count := by
    intro n v hv
    subst hv
    exact wholeToCount?_count n
  real := by
    intro x v hv
    subst hv
    rfl
  text := by
    intro s v hv
    subst hv
    rfl
  scalar := by
    intro a v hv
    subst hv
    cases a <;> rfl
  choice := by
    intro names s v _ hs hv
    subst hv
    exact if_pos (List.contains_iff_mem.mpr hs)
  items := by
    intro ds v hv
    subst hv
    exact ⟨ds, rfl, forall₂_eq ds⟩
  entries := by
    intro fs v hnodup hv
    subst hv
    exact ⟨fs, congrArg some (Reader.distinctEntries_of_nodup hnodup), holdFields_eq fs⟩
  fields := by
    intro fs v _ hv names
    subst hv
    exact ⟨fs, rfl, holdFields_eq fs⟩

end Datum

namespace Settings

/-- Settings that were written as a tree are read as this tree, although scalars are converted where
they do not fit. -/
theorem reader_faithful : reader.Faithful Eq where
  isAbsent := by
    intro d v hv
    subst hv
    cases d <;> simp [reader]
  flag := by
    intro b v hv
    subst hv
    rfl
  count := by
    intro n v hv
    subst hv
    change (if (0 : Int) ≤ n.toNat then some (Int.toNat n.toNat) else none).map UInt32.ofNat = some n
    rw [if_pos (Int.natCast_nonneg _), Int.toNat_natCast, Option.map_some, UInt32.ofNat_toNat]
  real := by
    intro x v hv
    subst hv
    rfl
  text := by
    intro s v hv
    subst hv
    rfl
  scalar := by
    intro a v hv
    subst hv
    cases a <;> rfl
  choice := by
    intro names s v hnodup hs hv
    subst hv
    -- The first name that agrees with the text but for the case of letters is the text itself.
    change names.find? (fun name => Text.lowerAscii name == Text.lowerAscii s) = some s
    induction names with
    | nil => cases hs
    | cons name rest ih =>
        rw [List.map_cons, List.nodup_cons] at hnodup
        rw [List.find?_cons]
        by_cases hfound : Text.lowerAscii name = Text.lowerAscii s
        · rw [beq_iff_eq.mpr hfound]
          rcases List.mem_cons.mp hs with rfl | hrest
          · rfl
          · exact absurd (hfound ▸ List.mem_map_of_mem hrest) hnodup.1
        · rw [beq_eq_false_iff_ne.mpr hfound]
          refine ih hnodup.2 ((List.mem_cons.mp hs).resolve_left ?_)
          rintro rfl
          exact hfound rfl
  items := by
    intro ds v hv
    subst hv
    exact ⟨ds, rfl, Datum.forall₂_eq ds⟩
  entries := by
    intro fs v _ hv
    subst hv
    exact ⟨fs, rfl, Datum.holdFields_eq fs⟩
  fields := by
    intro fs v _ hv names
    subst hv
    exact ⟨fs, rfl, Datum.holdFields_eq fs⟩

end Settings

end SolarBill
