import SolarBill.Coefficients.Check
import SolarBill.Proofs.Coefficients.Sizing
import SolarBill.Proofs.Data.Records
import SolarBill.Settings.Layer
import SolarBill.Yaml.Print

/-!
# Settings of one layer

Coefficients are read as settings: the fields of a document are put, one after the other, into a
tree that is empty at first, and a record is merged into what stands in its place.  For a document
alone this changes nothing, as long as no name is given twice and no name is a longer path
(`settingsOf_document`).

A document of settings cannot hold infinities or not-a-number, so a tree that is carried by such a
document is read back only if its numbers are finite (`SettingsLayer.Carries`).  The numbers of
coefficients that are accepted are (`Coefficients.finite_encode`).
-/

namespace SolarBill

namespace Datum

/-! ### Putting a tree into an empty place -/

mutual

/-- No record of a tree has two fields with one name. -/
def Tidy : Datum → Prop
  | .list items => TidyItems items
  | .record fields => (fields.map Prod.fst).Nodup ∧ TidyFields fields
  | _ => True

/-- No item has a record with two fields of one name. -/
def TidyItems : List Datum → Prop
  | [] => True
  | d :: rest => d.Tidy ∧ TidyItems rest

/-- No field's tree has a record with two fields of one name. -/
def TidyFields : List (String × Datum) → Prop
  | [] => True
  | (_, d) :: rest => d.Tidy ∧ TidyFields rest

end

/-- The items of a list are tidy. -/
theorem tidyItems_iff {items : List Datum} : TidyItems items ↔ ∀ d ∈ items, d.Tidy := by
  induction items with
  | nil => simp [TidyItems]
  | cons d rest ih => rw [TidyItems, ih, List.forall_mem_cons]

/-- The fields of a record are tidy. -/
theorem tidyFields_iff {fields : List (String × Datum)} :
    TidyFields fields ↔ ∀ f ∈ fields, f.2.Tidy := by
  induction fields with
  | nil => simp [TidyFields]
  | cons f rest ih => rw [TidyFields, ih, List.forall_mem_cons]

/-- A name that no field has is not found. -/
theorem field?_eq_none {name : String} {fields : List (String × Datum)}
    (h : name ∉ fields.map Prod.fst) : (Datum.record fields).field? name = none := by
  rw [field?, List.lookup_eq_none_iff]
  intro f hf
  rw [bne_iff_ne]
  intro heq
  exact h (heq ▸ List.mem_map_of_mem hf)

/-- A field with a new name is appended. -/
theorem withField_append {name : String} {v : Datum} {fields : List (String × Datum)}
    (h : name ∉ fields.map Prod.fst) :
    (Datum.record fields).withField name v = .record (fields ++ [(name, v)]) :=
  congrArg Datum.record (Reader.setEntry_append h)

mutual

/-- Merging a tidy tree into nothing gives the tree. -/
theorem merge_none : ∀ {d : Datum}, d.Tidy → merge d none = d
  | .record fields, h => by
      rw [merge, Option.getD_none]
      rw [Tidy] at h
      exact @mergeFields_append fields [] h.1 h.2
  | .null, _ | .flag _, _ | .whole _, _ | .real _, _ | .text _, _ | .list _, _ => rfl

/-- Merging new fields into a record puts them behind its own. -/
theorem mergeFields_append : ∀ {fields before : List (String × Datum)},
    ((before ++ fields).map Prod.fst).Nodup → TidyFields fields →
      mergeFields fields (.record before) = .record (before ++ fields)
  | [], before, _, _ => by rw [mergeFields, List.append_nil]
  | (name, d) :: rest, before, hnodup, htidy => by
      have hnew : name ∉ before.map Prod.fst := Reader.key_not_mem_before hnodup
      rw [TidyFields] at htidy
      rw [mergeFields, field?_eq_none hnew, merge_none htidy.1, withField_append hnew]
      rw [List.append_cons before (name, d) rest] at hnodup ⊢
      exact mergeFields_append hnodup htidy.2

end

/-! ### Numbers in a tree -/

mutual

/-- The numbers with a fraction that a tree holds. -/
def reals : Datum → List Float
  | .real x => [x]
  | .list items => realsOfItems items
  | .record fields => realsOfFields fields
  | _ => []

/-- The numbers of the items of a list. -/
def realsOfItems : List Datum → List Float
  | [] => []
  | d :: rest => d.reals ++ realsOfItems rest

/-- The numbers of the fields of a record. -/
def realsOfFields : List (String × Datum) → List Float
  | [] => []
  | (_, d) :: rest => d.reals ++ realsOfFields rest

end

/-- The reals of items are those of some item. -/
theorem mem_realsOfItems {x : Float} {items : List Datum} :
    x ∈ realsOfItems items ↔ ∃ d ∈ items, x ∈ d.reals := by
  induction items with
  | nil => simp [realsOfItems]
  | cons d rest ih => simp [realsOfItems, ih]

/-- The reals of fields are those of some field. -/
theorem mem_realsOfFields {x : Float} {fields : List (String × Datum)} :
    x ∈ realsOfFields fields ↔ ∃ f ∈ fields, x ∈ f.2.reals := by
  induction fields with
  | nil => simp [realsOfFields]
  | cons f rest ih => simp [realsOfFields, ih]

end Datum

/-! ### The settings of a document -/

/-- The layer of a document that is written for a tree has the tree's fields, and there is one if all
numbers are finite. -/
structure SettingsLayer.Carries (d : Datum) : Prop where
  faithful : ∀ layer, ofDocument? (Yaml.render d) = some layer → d = .record layer
  readable : (∀ x ∈ d.reals, x.isFinite) → (ofDocument? (Yaml.render d)).isSome

/-- Settings of a single layer are its fields. -/
theorem settingsOf_singleton {layer : SettingsLayer} (htidy : (Datum.record layer).Tidy)
    (hnames : ∀ f ∈ layer, PathStep.ofName f.1 = [.field f.1]) :
    settingsOf [layer] = .record layer := by
  have hfold : ∀ (rest before : List (String × Datum)), ((before ++ rest).map Prod.fst).Nodup →
      (∀ f ∈ rest, f.2.Tidy ∧ PathStep.ofName f.1 = [.field f.1]) →
      rest.foldl (fun d s => Datum.put s.2 (PathStep.ofName s.1) d) (.record before) =
        .record (before ++ rest) := by
    intro rest
    induction rest with
    | nil =>
        intro before _ _
        rw [List.append_nil]
        rfl
    | cons f rest ih =>
        intro before hnodup hrest
        obtain ⟨⟨hf, hpath⟩, hothers⟩ := List.forall_mem_cons.mp hrest
        have hnew := Reader.key_not_mem_before hnodup
        rw [List.foldl_cons, hpath, Datum.put, Datum.field?_eq_none hnew, Datum.merge_none hf,
          Datum.withField_append hnew]
        rw [List.append_cons before f rest] at hnodup ⊢
        exact ih _ hnodup hothers
  rw [Datum.Tidy, Datum.tidyFields_iff] at htidy
  rw [settingsOf, List.flatten_singleton]
  exact hfold layer [] htidy.1 fun f hf => ⟨htidy.2 f hf, hnames f hf⟩

namespace Coefficients

variable {c : Coefficients}

/-- Coefficients are written tidily: no name comes twice. -/
theorem tidy_encode (c : Coefficients) : c.encode.Tidy := by
  have htext : ∀ o, (Datum.optionText o).Tidy := by
    intro o
    cases o <;> trivial
  have hroof : ∀ o, (Datum.option Roof.encode o).Tidy := by
    intro o
    cases o <;> trivial
  have hselection : ∀ o, (Datum.option Selection.encode o).Tidy := by
    intro o
    cases o with
    | none => trivial
    | some s => simp [Datum.option, Selection.encode, Datum.Tidy, Datum.TidyFields, Datum.count]
  have hitems : (Consumable.encodeItems c.consumables).Tidy := by
    rw [Consumable.encodeItems, Datum.Tidy, Datum.tidyFields_iff, List.map_map]
    refine ⟨Consumable.nodup_names, ?_⟩
    intro f hf
    obtain ⟨k, -, rfl⟩ := List.mem_map.mp hf
    simp [FlatRate.encode, Datum.Tidy, Datum.TidyFields, htext]
  have hbuckets : (Datum.listOf Bucket.encode c.sizing).Tidy := by
    rw [Datum.listOf, Datum.Tidy, Datum.tidyItems_iff]
    intro d hd
    obtain ⟨b, -, rfl⟩ := List.mem_map.mp hd
    simp [Bucket.encode, Datum.Tidy, Datum.TidyFields, htext]
  simp [encode, Datum.Tidy, Datum.TidyFields, StringWiring.encode, DeviceWiring.encode,
    Grounding.encode, Labels.encode, Presets.encode, htext, hroof, hselection, hitems, hbuckets]

/-- The numbers of accepted coefficients are finite. -/
theorem finite_encode (h : c.Usable) : ∀ x ∈ c.encode.reals, x.isFinite := by
  have htext : ∀ o, (Datum.optionText o).reals = [] := by
    intro o
    cases o <;> rfl
  have hroof : ∀ o, (Datum.option Roof.encode o).reals = [] := by
    intro o
    cases o <;> rfl
  have hselection : ∀ o, (Datum.option Selection.encode o).reals = [] := by
    intro o
    cases o <;> rfl
  have hscalars : ∀ s ∈ c.scalars, s.2.isFinite := by
    intro s hs
    exact (Bool.and_eq_true_iff.mp (h.scalars s hs)).1
  have hitems : ∀ x ∈ (Consumable.encodeItems c.consumables).reals, x.isFinite := by
    intro x hx
    rw [Consumable.encodeItems, Datum.reals, Datum.mem_realsOfFields] at hx
    obtain ⟨f, hf, hx⟩ := hx
    obtain ⟨k, hk, rfl⟩ := List.mem_map.mp hf
    have hquantity : x = (c.consumables k).quantity := by
      simpa [FlatRate.encode, Datum.reals, Datum.realsOfFields, htext] using hx
    have hmem : ("consumables." ++ k.name ++ ".quantity", (c.consumables k).quantity) ∈ c.scalars :=
      List.mem_append_right _ (List.mem_map.mpr ⟨k, hk, rfl⟩)
    have hfinite := hscalars _ hmem
    rw [hquantity]
    exact hfinite
  have hbuckets : ∀ x ∈ (Datum.listOf Bucket.encode c.sizing).reals, x.isFinite := by
    intro x hx
    rw [Datum.listOf, Datum.reals, Datum.mem_realsOfItems] at hx
    obtain ⟨d, hd, hx⟩ := hx
    obtain ⟨b, hb, rfl⟩ := List.mem_map.mp hd
    obtain ⟨hsection, hampacity, hrating⟩ := h.buckets b hb
    have hnumber : x = b.crossSection ∨ x = b.maxAmpacity ∨ x = b.breakerRating := by
      simpa [Bucket.encode, Datum.reals, Datum.realsOfFields, htext] using hx
    rcases hnumber with rfl | rfl | rfl
    · exact (Double.isPositive_iff.mp hsection).1
    · exact (Double.isPositive_iff.mp hampacity).1
    · exact (Double.isPositive_iff.mp hrating).1
  -- The numbers of the lists are done; what remains are the scalars, in the order of the document.
  simp only [scalars, List.forall_mem_append, List.forall_mem_cons] at hscalars
  obtain ⟨⟨hratio, hpairs, hstring, hdevice, hgrounding, hlabels, -⟩, -⟩ := hscalars
  simp only [encode, Datum.reals, Datum.realsOfFields, StringWiring.encode, DeviceWiring.encode,
    Grounding.encode, Labels.encode, Presets.encode, htext, hroof, hselection, List.nil_append,
    List.append_nil, List.forall_mem_append, List.forall_mem_singleton]
  exact ⟨hratio, ⟨hpairs, hstring⟩, hdevice, hbuckets, hgrounding, hlabels, hitems⟩

/-- The settings of coefficients that were written are the coefficients. -/
theorem settingsOf_encode (c : Coefficients) {layer : SettingsLayer}
    (h : c.encode = .record layer) : settingsOf [layer] = c.encode := by
  rw [h]
  apply settingsOf_singleton
  · rw [← h]
    exact tidy_encode c
  · cases h
    simp only [List.forall_mem_cons]
    decide

end Coefficients

end SolarBill
