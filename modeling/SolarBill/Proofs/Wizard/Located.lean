import SolarBill.Proofs.Data.Path
import SolarBill.Wizard.Check

/-!
# Fields that issues name

A stage is checked field by field, and what is wrong is told with the path of the field.  Here the
checks are read as one list of requirements for each stage, every one of them about one field.  An
issue is then a requirement that does not hold.

The requirements of a stage are about fields of the groups that belong to it, no two of them about
the same field.  A path is read as it is written, so different fields have different paths: also
the strings of the inverters together, `inverters.strings`, and those of the second entry,
`inverters[1].strings`.  So no path occurs in two issues, and a path occurs in one exactly if what
is required of its field does not hold.

* `Stage.issues_eq` — issues are the requirements that do not hold;
* `Stage.nodup_places`, `Stage.place_of_mem` — what the requirements of a stage are about;
* `Plan.mem_issues_iff` — what is told of one field;
* `Plan.issues_are_located` — rows, inverter entries and strings: each wrong field is named, once.
-/

namespace SolarBill

open Text

/-- A field of the plan: its group, and the steps that lead to it from there. -/
structure Place where
  group : String
  steps : List PathStep
  deriving DecidableEq

namespace Place

/-- The path of the field, as issues name it. -/
def text (p : Place) : String :=
  PathStep.text p.group p.steps

/-- A field whose path is read as it is written. -/
structure Readable (p : Place) : Prop where
  group : PathStep.IsName p.group
  steps : ∀ step ∈ p.steps, step.Readable

/-- Readable places with the same path are the same. -/
theorem text_inj {p q : Place} (hp : p.Readable) (hq : q.Readable) : p.text = q.text ↔ p = q := by
  rw [text, text, PathStep.text_inj hp.group hp.steps hq.group hq.steps, Place.mk.injEq]

/-- Module count of a row. -/
def row (orientation : String) (index : Nat) : Place :=
  ⟨"layout", [.field orientation, .index index, .field "module_count"]⟩

/-- A field of an inverter entry. -/
def entry (index : Nat) (name : String) : Place :=
  ⟨"inverters", [.index index, .field name]⟩

/-- Module count of a string of an inverter entry. -/
def string (index place : Nat) : Place :=
  ⟨"inverters", [.index index, .field "strings", .index place, .field "module_count"]⟩

/-- A field of a selection. -/
def selection (group name part : String) : Place :=
  ⟨group, [.field name, .field part]⟩

variable {group name part : String}

/-- A single name is readable. -/
theorem readable_group (h : PathStep.IsName group) : (⟨group, []⟩ : Place).Readable :=
  ⟨h, List.forall_mem_nil _⟩

theorem readable_field (h : PathStep.IsName group) (hname : PathStep.IsName name) :
    (⟨group, [.field name]⟩ : Place).Readable :=
  ⟨h, List.forall_mem_singleton.mpr hname⟩

/-- A row is readable. -/
theorem readable_row (h : PathStep.IsName name) (index : Nat) : (row name index).Readable := by
  have hgroup : PathStep.IsName "layout" := by decide
  have hcount : PathStep.IsName "module_count" := by decide
  refine ⟨hgroup, ?_⟩
  simp only [row, List.forall_mem_cons]
  exact ⟨h, trivial, hcount, List.forall_mem_nil _⟩

/-- A field of an inverter entry is readable. -/
theorem readable_entry (index : Nat) (h : PathStep.IsName name) : (entry index name).Readable := by
  have hgroup : PathStep.IsName "inverters" := by decide
  refine ⟨hgroup, ?_⟩
  simp only [entry, List.forall_mem_cons]
  exact ⟨trivial, h, List.forall_mem_nil _⟩

/-- A string is readable. -/
theorem readable_string (index place : Nat) : (string index place).Readable := by
  have hgroup : PathStep.IsName "inverters" := by decide
  have hstrings : PathStep.IsName "strings" := by decide
  have hcount : PathStep.IsName "module_count" := by decide
  refine ⟨hgroup, ?_⟩
  simp only [string, List.forall_mem_cons]
  exact ⟨trivial, hstrings, trivial, hcount, List.forall_mem_nil _⟩

/-- A part of a selection is readable. -/
theorem readable_selection (h : PathStep.IsName group) (hname : PathStep.IsName name)
    (hpart : PathStep.IsName part) : (selection group name part).Readable := by
  refine ⟨h, ?_⟩
  simp only [selection, List.forall_mem_cons]
  exact ⟨hname, hpart, List.forall_mem_nil _⟩

/-- Paths are compared character by character. -/
theorem text_eq_iff {p : Place} {path : String} :
    p.text = path ↔ p.group.toList ++ p.steps.flatMap PathStep.chars = path.toList := by
  rw [← String.toList_inj, text, PathStep.text, String.toList_ofList]

/-- The path of a group is its name. -/
theorem text_group (group : String) : (⟨group, []⟩ : Place).text = group := by
  simp [text_eq_iff]

/-- The path of a field. -/
theorem text_field (group name : String) :
    (⟨group, [.field name]⟩ : Place).text = group ++ ("." ++ name) := by
  simp [text_eq_iff]

/-- The path of a row, as the stage writes it. -/
theorem text_row (orientation : String) (index : Nat) : (row orientation index).text =
    Stage.at_ ("layout." ++ orientation) index ++ ".module_count" := by
  simp [text_eq_iff, row, Stage.at_]

/-- The path of an inverter entry. -/
theorem text_entry (index : Nat) (name : String) : (entry index name).text =
    Stage.at_ "inverters" index ++ ("." ++ name) := by
  simp [text_eq_iff, entry, Stage.at_]

/-- The path of a string. -/
theorem text_string (index place : Nat) : (string index place).text =
    Stage.at_ (Stage.at_ "inverters" index ++ ".strings") place ++ ".module_count" := by
  simp [text_eq_iff, string, Stage.at_]

/-- The path of a part of a selection. -/
theorem text_selection (group name part : String) : (selection group name part).text =
    group ++ "." ++ name ++ ("." ++ part) := by
  simp [text_eq_iff, selection]

end Place

/-- What a stage requires of a field. -/
structure Requirement where
  place : Place
  holds : Bool
  message : String

/-- The issue that a requirement raises if it does not hold. -/
def Requirement.issues (r : Requirement) : List Issue :=
  Stage.require r.holds r.place.text r.message

namespace Stage

/-! ### What is required -/

/-- Every row holds a module. -/
def rowRequirements (orientation : String) (rows : List UInt32) : List Requirement :=
  rows.zipIdx.map fun (count, index) =>
    ⟨.row orientation index, 0 < count, "row must contain at least one module"⟩

/-- Requirements of the module, the roof and the layout. -/
def moduleAndRoofRequirements (p : Plan) : List Requirement :=
  [⟨⟨"module", []⟩, isNamed p.module, "required"⟩, ⟨⟨"roof", []⟩, p.roof.isSome, "required"⟩] ++
    rowRequirements "portrait" p.layout.portrait ++
    rowRequirements "landscape" p.layout.landscape ++
    [⟨⟨"layout", []⟩, 0 < p.totalModules, "at least one module row is required"⟩]

/-- Requirements of the mounting hardware. -/
def mountingRequirements (p : Plan) : List Requirement :=
  let m := p.mounting
  [⟨⟨"mounting", [.field "system"]⟩, isNamed m.system, "required"⟩,
    ⟨⟨"mounting", [.field "end_clamp"]⟩, isNamed m.endClamp, "required"⟩,
    ⟨⟨"mounting", [.field "mid_clamp"]⟩, isNamed m.midClamp, "required"⟩,
    ⟨⟨"mounting", [.field "profile"]⟩, !isNamed m.profileConnector || isNamed m.profile,
      "a profile connector needs a profile"⟩]

/-- Requirements of one inverter entry. -/
def entryRequirements (v : Inverter) (index : Nat) : List Requirement :=
  [⟨.entry index "material_id", !isBlank v.materialId, "required"⟩,
    ⟨.entry index "quantity", 0 < v.quantity, "quantity must be at least 1"⟩,
    ⟨.entry index "strings", !v.strings.isEmpty, "at least one string is required"⟩] ++
    v.strings.zipIdx.map fun (s, j) =>
      ⟨.string index j, 0 < s.moduleCount, "string must contain at least one module"⟩

/-- Requirements of the inverters and their string plans. -/
def inverterRequirements (p : Plan) : List Requirement :=
  ⟨⟨"inverters", []⟩, !p.inverters.isEmpty, "at least one inverter is required"⟩ ::
    (p.inverters.zipIdx.flatMap fun (v, index) => entryRequirements v index) ++
    [⟨⟨"inverters", [.field "strings"]⟩,
      p.inverters.isEmpty || p.stringModules == p.totalModules,
      "strings wire " ++ toString p.stringModules ++ " modules but the layout has " ++
        toString p.totalModules⟩]

/-- Requirements of a selection, if there is one. -/
def selectionRequirements (group : String) (named : String × Option Selection) :
    List Requirement :=
  named.2.toList.flatMap fun s =>
    [⟨.selection group named.1 "material_id", !isBlank s.materialId,
        "a quantity was entered without a material"⟩,
      ⟨.selection group named.1 "quantity", 0 < s.quantity,
        "a material was selected without a quantity"⟩]

/-- What a stage requires of a plan. -/
def requirements : Stage → Plan → List Requirement
  | .moduleAndRoof, p => moduleAndRoofRequirements p
  | .mounting, p => mountingRequirements p
  | .inverters, p => inverterRequirements p
  | .optionalComponents, p => p.options.named.flatMap (selectionRequirements "options")
  | .electricalComponents, p => p.electrical.named.flatMap (selectionRequirements "electrical")
  | .review, _ => []

/-! ### Issues are what does not hold -/

/-- The issues of rows are those of requirements. -/
theorem rowIssues_eq (orientation : String) (rows : List UInt32) :
    rowIssues orientation rows = (rowRequirements orientation rows).flatMap Requirement.issues := by
  rw [rowIssues, rowRequirements, List.flatMap_map]
  simp only [Requirement.issues, Place.text_row]

theorem inverterEntryIssues_eq (v : Inverter) (index : Nat) :
    inverterEntryIssues index v = (entryRequirements v index).flatMap Requirement.issues := by
  simp only [inverterEntryIssues, entryRequirements, List.flatMap_append, List.flatMap_map,
    List.flatMap_cons, List.flatMap_nil, List.append_nil, List.append_assoc, Requirement.issues,
    Place.text_entry, Place.text_string, String.reduceAppend]

theorem selectionIssues_eq (group : String) (named : String × Option Selection) :
    selectionIssues group named =
      (selectionRequirements group named).flatMap Requirement.issues := by
  obtain ⟨name, selection⟩ := named
  cases selection with
  | none => rfl
  | some s =>
      simp only [selectionIssues, selectionRequirements, Option.toList_some, List.flatMap_cons,
        List.flatMap_nil, List.append_nil, Requirement.issues, Place.text_selection,
        String.reduceAppend]

theorem moduleAndRoofIssues_eq (p : Plan) :
    moduleAndRoofIssues p = (moduleAndRoofRequirements p).flatMap Requirement.issues := by
  simp only [moduleAndRoofIssues, moduleAndRoofRequirements, List.flatMap_append, rowIssues_eq,
    List.flatMap_cons, List.flatMap_nil, List.append_nil, Requirement.issues, Place.text_group]

theorem mountingIssues_eq (p : Plan) :
    mountingIssues p = (mountingRequirements p).flatMap Requirement.issues := by
  simp only [mountingIssues, mountingRequirements, List.flatMap_cons, List.flatMap_nil,
    List.append_nil, List.append_assoc, Requirement.issues, Place.text_field, String.reduceAppend]

theorem inverterIssues_eq (p : Plan) :
    inverterIssues p = (inverterRequirements p).flatMap Requirement.issues := by
  rw [inverterIssues, inverterRequirements]
  split_ifs with hempty
  · rw [List.isEmpty_iff.mp hempty]
    rfl
  · simp only [hempty, List.flatMap_append, List.flatMap_cons, List.flatMap_nil, List.append_nil,
      List.flatMap_assoc, inverterEntryIssues_eq, Requirement.issues, Place.text_field,
      String.reduceAppend, Bool.false_or]
    rfl

/-- **Issues are the requirements that do not hold**, in their order. -/
theorem issues_eq (s : Stage) (p : Plan) :
    s.issues p = (s.requirements p).flatMap Requirement.issues := by
  cases s with
  | moduleAndRoof => exact moduleAndRoofIssues_eq p
  | mounting => exact mountingIssues_eq p
  | inverters => exact inverterIssues_eq p
  | optionalComponents | electricalComponents =>
      simp only [issues, requirements, List.flatMap_assoc, ← selectionIssues_eq]
  | review => rfl

/-! ### Distinct fields -/

/-- What belongs to different keys is different. -/
theorem nodup_flatMap_of_key {α β κ : Type} {xs : List α} {f : α → List β} {k : β → κ}
    {g : α → κ} (hkeys : (xs.map g).Nodup) (hkey : ∀ x ∈ xs, ∀ y ∈ f x, k y = g x)
    (heach : ∀ x ∈ xs, (f x).Nodup) : (xs.flatMap f).Nodup := by
  rw [List.Nodup, List.pairwise_map] at hkeys
  refine List.nodup_flatMap.mpr ⟨heach, hkeys.imp_of_mem fun hx hy hne z hz hz' => ?_⟩
  exact hne ((hkey _ hx z hz).symm.trans (hkey _ hy z hz'))

/-- Items with their places give the places. -/
theorem map_place_zipIdx {α β : Type} (xs : List α) (f : Nat → β) :
    xs.zipIdx.map (fun x => f x.2) = (List.range xs.length).map f := by
  rw [List.range_eq_range', ← List.zipIdx_map_snd 0 xs, List.map_map]
  rfl

/-- Rows are required at their own places. -/
theorem places_row (orientation : String) (rows : List UInt32) :
    (rowRequirements orientation rows).map Requirement.place =
      (List.range rows.length).map (Place.row orientation) := by
  rw [rowRequirements, List.map_map, ← map_place_zipIdx]
  rfl

/-- An inverter entry has three places of its own, and one for each string. -/
theorem places_entry (v : Inverter) (index : Nat) :
    (entryRequirements v index).map Requirement.place =
      [.entry index "material_id", .entry index "quantity", .entry index "strings"] ++
        (List.range v.strings.length).map (Place.string index) := by
  rw [entryRequirements, List.map_append, List.map_map, ← map_place_zipIdx]
  rfl

/-- All fields of an entry stand behind its place. -/
theorem head?_entry (v : Inverter) (index : Nat) :
    ∀ q ∈ (entryRequirements v index).map Requirement.place,
      q.steps.head? = some (.index index) := by
  simp [places_entry, Place.entry, Place.string, or_imp, forall_and]

/-- These are distinct. -/
theorem nodup_entry (v : Inverter) (index : Nat) :
    ((entryRequirements v index).map Requirement.place).Nodup := by
  have hstrings : ((List.range v.strings.length).map (Place.string index)).Nodup := by
    refine List.nodup_range.map fun i j hij => ?_
    simpa [Place.string] using hij
  rw [places_entry, List.nodup_append]
  refine ⟨by simp [Place.entry], hstrings, ?_⟩
  simp [Place.entry, Place.string]

theorem nodup_moduleAndRoof (p : Plan) :
    ((moduleAndRoofRequirements p).map Requirement.place).Nodup := by
  have hrows : ∀ orientation n, ((List.range n).map (Place.row orientation)).Nodup := by
    refine fun orientation n => List.nodup_range.map fun i j hij => ?_
    simpa [Place.row] using hij
  simp only [moduleAndRoofRequirements, List.map_append, places_row, List.map_cons, List.map_nil]
  simp [List.nodup_append, hrows, Place.row, or_imp, forall_and]

theorem nodup_inverters (p : Plan) : ((inverterRequirements p).map Requirement.place).Nodup := by
  -- The first step tells the entry, so only fields of one entry have to be compared.
  have hentries : (p.inverters.zipIdx.flatMap fun v =>
      (entryRequirements v.1 v.2).map Requirement.place).Nodup := by
    refine nodup_flatMap_of_key (k := fun q => q.steps.head?)
      (g := fun v => some (PathStep.index v.2)) ?_ (fun v _ => head?_entry v.1 v.2)
      fun v _ => nodup_entry v.1 v.2
    rw [map_place_zipIdx p.inverters fun index => some (PathStep.index index)]
    refine List.nodup_range.map fun i j hij => ?_
    simpa using hij
  have hindex : ∀ q ∈ p.inverters.zipIdx.flatMap fun v =>
      (entryRequirements v.1 v.2).map Requirement.place, ∃ i, q.steps.head? = some (.index i) := by
    intro q hq
    obtain ⟨v, -, hq⟩ := List.mem_flatMap.mp hq
    exact ⟨v.2, head?_entry v.1 v.2 q hq⟩
  -- The requirements of the whole group have no place in the list of entries.
  rw [inverterRequirements, List.cons_append, List.map_cons, List.map_append, List.map_flatMap,
    List.map_singleton, List.nodup_cons, List.mem_append, List.mem_singleton, not_or]
  refine ⟨⟨fun hgroup => ?_, by simp⟩, hentries.append (List.nodup_singleton _) ?_⟩
  · obtain ⟨i, hi⟩ := hindex _ hgroup
    cases hi
  · intro q hq hstrings
    obtain ⟨i, hi⟩ := hindex q hq
    rw [List.mem_singleton.mp hstrings] at hi
    cases hi

/-- A selection has two fields. -/
theorem place_of_selection {group : String} {named : String × Option Selection} {r : Requirement}
    (h : r ∈ selectionRequirements group named) :
    r.place = .selection group named.1 "material_id" ∨
      r.place = .selection group named.1 "quantity" := by
  obtain ⟨s, -, h⟩ := List.mem_flatMap.mp h
  simp only [List.mem_cons, List.not_mem_nil, or_false] at h
  rcases h with rfl | rfl
  · exact Or.inl rfl
  · exact Or.inr rfl

/-- Selections with distinct names are required at distinct places. -/
theorem nodup_selections {group : String} {named : List (String × Option Selection)}
    (h : (named.map Prod.fst).Nodup) :
    ((named.flatMap (selectionRequirements group)).map Requirement.place).Nodup := by
  rw [List.map_flatMap]
  refine nodup_flatMap_of_key (k := fun q => q.steps.head?)
    (g := fun n => some (PathStep.field n.1)) ?_ ?_ ?_
  · have hfields : Function.Injective fun name => some (PathStep.field name) := by
      intro a b hab
      simpa using hab
    have hkeys := h.map hfields
    rw [List.map_map] at hkeys
    exact hkeys
  · intro n _ q hq
    obtain ⟨r, hr, rfl⟩ := List.mem_map.mp hq
    rcases place_of_selection hr with hplace | hplace <;> rw [hplace] <;> rfl
  · rintro ⟨name, selection⟩ -
    cases selection with
    | none => exact List.nodup_nil
    | some s => simp [selectionRequirements, Place.selection]

/-- No stage requires anything twice at one place. -/
theorem nodup_places (s : Stage) (p : Plan) :
    ((s.requirements p).map Requirement.place).Nodup := by
  cases s with
  | moduleAndRoof => exact nodup_moduleAndRoof p
  | mounting => simp [requirements, mountingRequirements]
  | inverters => exact nodup_inverters p
  | optionalComponents => exact nodup_selections (by simp [Options.named])
  | electricalComponents => exact nodup_selections (by simp [Electrical.named])
  | review => exact List.nodup_nil

/-! ### Fields and stages -/

/-- The stage that the fields of a group belong to. -/
def stageOf (group : String) : Stage :=
  if group = "mounting" then .mounting
  else if group = "inverters" then .inverters
  else if group = "options" then .optionalComponents
  else if group = "electrical" then .electricalComponents
  else .moduleAndRoof

/-- A selection's fields are read as they are written. -/
theorem readable_of_selection {group : String} {named : List (String × Option Selection)}
    {r : Requirement} (hgroup : PathStep.IsName group) (hnames : ∀ n ∈ named, PathStep.IsName n.1)
    (h : r ∈ named.flatMap (selectionRequirements group)) :
    r.place.group = group ∧ r.place.Readable := by
  obtain ⟨n, hn, hr⟩ := List.mem_flatMap.mp h
  rcases place_of_selection hr with hplace | hplace <;> rw [hplace]
  · exact ⟨rfl, Place.readable_selection hgroup (hnames n hn) (by decide)⟩
  · exact ⟨rfl, Place.readable_selection hgroup (hnames n hn) (by decide)⟩

/-- What a stage requires is about its own fields, and these are read as they are written. -/
theorem place_of_mem {s : Stage} {p : Plan} {r : Requirement} (h : r ∈ s.requirements p) :
    stageOf r.place.group = s ∧ r.place.Readable := by
  -- The groups of a stage are known one by one; rows, entries and strings carry an index.
  cases s with
  | moduleAndRoof =>
      simp only [requirements, moduleAndRoofRequirements, rowRequirements, List.mem_append,
        List.mem_cons, List.not_mem_nil, or_false, List.mem_map] at h
      rcases h with (((rfl | rfl) | ⟨row, -, rfl⟩) | ⟨row, -, rfl⟩) | rfl
      · exact ⟨rfl, Place.readable_group (by decide)⟩
      · exact ⟨rfl, Place.readable_group (by decide)⟩
      · exact ⟨rfl, Place.readable_row (by decide) row.2⟩
      · exact ⟨rfl, Place.readable_row (by decide) row.2⟩
      · exact ⟨rfl, Place.readable_group (by decide)⟩
  | mounting =>
      simp only [requirements, mountingRequirements, List.mem_cons, List.not_mem_nil,
        or_false] at h
      rcases h with rfl | rfl | rfl | rfl <;>
        exact ⟨rfl, Place.readable_field (by decide) (by decide)⟩
  | inverters =>
      simp only [requirements, inverterRequirements, entryRequirements, List.mem_append,
        List.mem_cons, List.not_mem_nil, or_false, List.mem_flatMap, List.mem_map] at h
      rcases h with (rfl | ⟨v, -, (rfl | rfl | rfl) | ⟨string, -, rfl⟩⟩) | rfl
      · exact ⟨rfl, Place.readable_group (by decide)⟩
      · exact ⟨rfl, Place.readable_entry v.2 (by decide)⟩
      · exact ⟨rfl, Place.readable_entry v.2 (by decide)⟩
      · exact ⟨rfl, Place.readable_entry v.2 (by decide)⟩
      · exact ⟨rfl, Place.readable_string v.2 string.2⟩
      · exact ⟨rfl, Place.readable_field (by decide) (by decide)⟩
  | optionalComponents =>
      have hnames : ∀ n ∈ p.options.named, PathStep.IsName n.1 := by
        simp only [Options.named, List.forall_mem_cons]
        decide
      obtain ⟨hgroup, hreadable⟩ := readable_of_selection (by decide) hnames h
      exact ⟨hgroup ▸ rfl, hreadable⟩
  | electricalComponents =>
      have hnames : ∀ n ∈ p.electrical.named, PathStep.IsName n.1 := by
        simp only [Electrical.named, List.forall_mem_cons]
        decide
      obtain ⟨hgroup, hreadable⟩ := readable_of_selection (by decide) hnames h
      exact ⟨hgroup ▸ rfl, hreadable⟩
  | review => cases h

/-- A requirement that is not met is one issue. -/
theorem require_eq (holds : Bool) (field message : String) :
    require holds field message = if holds then [] else [⟨field, message⟩] := rfl

/-- Issues name fields of what the stage requires, each at most once. -/
theorem fields_sublist (rs : List Requirement) :
    (((rs.flatMap Requirement.issues).map Issue.field).Sublist
      ((rs.map Requirement.place).map Place.text)) := by
  induction rs with
  | nil => exact List.Sublist.slnil
  | cons r rs ih =>
      rw [List.flatMap_cons, List.map_append, List.map_cons, List.map_cons]
      cases hholds : r.holds with
      | true => simpa [Requirement.issues, require_eq, hholds] using ih.cons r.place.text
      | false => simpa [Requirement.issues, require_eq, hholds] using ih

/-- No path is raised twice in a stage. -/
theorem nodup_fields (s : Stage) (p : Plan) : ((s.issues p).map Issue.field).Nodup := by
  have htexts : (((s.requirements p).map Requirement.place).map Place.text).Nodup := by
    refine (nodup_places s p).map_on fun q hq q' hq' heq => ?_
    obtain ⟨r, hr, rfl⟩ := List.mem_map.mp hq
    obtain ⟨r', hr', rfl⟩ := List.mem_map.mp hq'
    exact (Place.text_inj (place_of_mem hr).2 (place_of_mem hr').2).mp heq
  rw [issues_eq]
  exact (fields_sublist _).nodup htexts

/-- A requirement of these that does not hold is about this field and says so. -/
def Raised (place : Place) (message : String) (rs : List Requirement) : Prop :=
  ∃ r ∈ rs, r.place = place ∧ r.holds = false ∧ r.message = message

section Raised

variable {place : Place} {message : String} {rs rs' : List Requirement} {r : Requirement}

@[simp] theorem raised_nil : ¬Raised place message [] := by
  simp [Raised]

/-- What is raised comes from the first requirement or from the others. -/
@[simp] theorem raised_cons : Raised place message (r :: rs) ↔
    (r.place = place ∧ r.holds = false ∧ r.message = message) ∨ Raised place message rs := by
  simp [Raised]

@[simp] theorem raised_append : Raised place message (rs ++ rs') ↔
    Raised place message rs ∨ Raised place message rs' := by
  simp [Raised, or_and_right, exists_or]

/-- Requirements of items are raised at the item's place. -/
theorem raised_zipIdx {α : Type} {xs : List α} {f : α × Nat → Requirement} :
    Raised place message (xs.zipIdx.map f) ↔ ∃ x i, xs[i]? = some x ∧
      (f (x, i)).place = place ∧ (f (x, i)).holds = false ∧ (f (x, i)).message = message := by
  simp [Raised, List.mem_zipIdx_iff_getElem?]

theorem raised_flatMap_zipIdx {α : Type} {xs : List α} {f : α × Nat → List Requirement} :
    Raised place message (xs.zipIdx.flatMap f) ↔
      ∃ x i, xs[i]? = some x ∧ Raised place message (f (x, i)) := by
  simp only [Raised, List.mem_flatMap, Prod.exists, List.mem_zipIdx_iff_getElem?]
  grind

/-- A requirement raises its own issue. -/
theorem mem_requirement_issues {issue : Issue} : issue ∈ r.issues ↔
    r.holds = false ∧ issue = ⟨r.place.text, r.message⟩ := by
  cases hholds : r.holds <;> simp [Requirement.issues, require_eq, hholds]

/-- A field is named in an issue exactly if what its stage requires of it does not hold. -/
theorem mem_issues_iff (hplace : place.Readable) {s : Stage} {p : Plan} :
    ⟨place.text, message⟩ ∈ s.issues p ↔ Raised place message (s.requirements p) := by
  simp only [issues_eq, List.mem_flatMap, mem_requirement_issues, Issue.mk.injEq, Raised]
  refine exists_congr fun r => and_congr_right fun hr => ?_
  rw [Place.text_inj hplace (place_of_mem hr).2, eq_comm (a := place), eq_comm (a := message)]
  exact and_left_comm

end Raised

end Stage

namespace Plan

open Stage

/-- The issues of a plan, of all stages in their order. -/
def issues (p : Plan) : List Issue :=
  Stage.all.flatMap fun s => s.issues p

/-- An issue is in the plan exactly when the stage of its group raises it there. -/
theorem mem_issues_iff {place : Place} (hplace : place.Readable) {message : String} {p : Plan} :
    ⟨place.text, message⟩ ∈ p.issues ↔
      Raised place message ((stageOf place.group).requirements p) := by
  have hall : stageOf place.group ∈ Stage.all := by cases stageOf place.group <;> decide
  rw [issues, List.mem_flatMap]
  constructor
  · rintro ⟨s, -, h⟩
    obtain ⟨r, hr, rfl, hraised⟩ := (Stage.mem_issues_iff hplace).mp h
    rw [(place_of_mem hr).1]
    exact ⟨r, hr, rfl, hraised⟩
  · exact fun h => ⟨_, hall, (Stage.mem_issues_iff hplace).mpr h⟩

/-- Issues of different stages name different fields. -/
theorem nodup_fields (p : Plan) : (p.issues.map Issue.field).Nodup := by
  have hplace : ∀ s, ∀ field ∈ (s.issues p).map Issue.field,
      ∃ place : Place, place.Readable ∧ stageOf place.group = s ∧ field = place.text := by
    intro s field hfield
    rw [Stage.issues_eq] at hfield
    obtain ⟨place, hplace, rfl⟩ := List.mem_map.mp ((fields_sublist _).subset hfield)
    obtain ⟨r, hr, rfl⟩ := List.mem_map.mp hplace
    exact ⟨r.place, (place_of_mem hr).2, (place_of_mem hr).1, rfl⟩
  rw [issues, List.map_flatMap]
  refine List.nodup_flatMap.mpr ⟨fun s _ => Stage.nodup_fields s p, ?_⟩
  have hstages : Stage.all.Nodup := by decide
  -- A field of two stages would be one field of one group, and a group belongs to one stage.
  refine hstages.imp fun {s t} hne field hs ht => ?_
  obtain ⟨place, hreadable, rfl, rfl⟩ := hplace s field hs
  obtain ⟨other, hother, rfl, heq⟩ := hplace t _ ht
  rw [(Place.text_inj hreadable hother).mp heq] at hne
  exact hne rfl

/-! ### Rows, entries and strings -/

/-- A row is raised when it is empty. -/
theorem raised_row_iff {orientation other message : String} {rows : List UInt32} {i : Nat} :
    Raised (.row other i) message (rowRequirements orientation rows) ↔
      orientation = other ∧ rows[i]? = some 0 ∧
        message = "row must contain at least one module" := by
  have hplace : ∀ j, Place.row orientation j = .row other i ↔ orientation = other ∧ j = i := by
    simp [Place.row]
  simp only [rowRequirements, raised_zipIdx, hplace, decide_eq_false_iff_not, UInt32.not_lt,
    UInt32.le_zero_iff]
  constructor
  · rintro ⟨count, j, hcount, ⟨horientation, rfl⟩, rfl, rfl⟩
    exact ⟨horientation, hcount, rfl⟩
  · rintro ⟨rfl, hrow, rfl⟩
    exact ⟨0, i, hrow, ⟨rfl, rfl⟩, rfl, rfl⟩

/-- What is required behind the place of an entry is required of that entry. -/
theorem raised_entry_iff {steps : List PathStep} {message : String} {p : Plan} {i : Nat} :
    Raised ⟨"inverters", .index i :: steps⟩ message (inverterRequirements p) ↔
      ∃ v, p.inverters[i]? = some v ∧
        Raised ⟨"inverters", .index i :: steps⟩ message (entryRequirements v i) := by
  have hindex : ∀ v j, Raised ⟨"inverters", .index i :: steps⟩ message (entryRequirements v j) →
      j = i := by
    rintro v j ⟨r, hr, hplace, -⟩
    have hhead := head?_entry v j r.place (List.mem_map_of_mem hr)
    rw [hplace] at hhead
    simpa [eq_comm] using hhead
  simp only [inverterRequirements, raised_append, raised_cons, raised_nil, raised_flatMap_zipIdx,
    Place.mk.injEq, true_and, reduceCtorEq, List.cons.injEq, false_and, false_or, or_false]
  constructor
  · rintro ⟨v, j, hv, hraised⟩
    obtain rfl := hindex v j hraised
    exact ⟨v, hv, hraised⟩
  · rintro ⟨v, hv, hraised⟩
    exact ⟨v, i, hv, hraised⟩

/-- Every field of a row, an inverter entry or a string is named exactly if it is wrong, with what
is required of it, and no field at all is named twice. -/
structure Located (p : Plan) : Prop where
  distinct : (p.issues.map Issue.field).Nodup
  portrait : ∀ (i : Nat) message,
    ⟨"layout.portrait[" ++ toString i ++ "].module_count", message⟩ ∈ p.issues ↔
      p.layout.portrait[i]? = some 0 ∧ message = "row must contain at least one module"
  landscape : ∀ (i : Nat) message,
    ⟨"layout.landscape[" ++ toString i ++ "].module_count", message⟩ ∈ p.issues ↔
      p.layout.landscape[i]? = some 0 ∧ message = "row must contain at least one module"
  material : ∀ (i : Nat) message,
    ⟨"inverters[" ++ toString i ++ "].material_id", message⟩ ∈ p.issues ↔
      (∃ v, p.inverters[i]? = some v ∧ isBlank v.materialId = true) ∧ message = "required"
  quantity : ∀ (i : Nat) message,
    ⟨"inverters[" ++ toString i ++ "].quantity", message⟩ ∈ p.issues ↔
      (∃ v, p.inverters[i]? = some v ∧ v.quantity = 0) ∧ message = "quantity must be at least 1"
  strings : ∀ (i : Nat) message,
    ⟨"inverters[" ++ toString i ++ "].strings", message⟩ ∈ p.issues ↔
      (∃ v, p.inverters[i]? = some v ∧ v.strings = []) ∧
        message = "at least one string is required"
  string : ∀ (i j : Nat) message,
    ⟨"inverters[" ++ toString i ++ "].strings[" ++ toString j ++ "].module_count", message⟩ ∈
        p.issues ↔
      (∃ v s, p.inverters[i]? = some v ∧ v.strings[j]? = some s ∧ s.moduleCount = 0) ∧
        message = "string must contain at least one module"

variable {p : Plan} {message : String}

/-- An empty row is an issue of the plan at its place. -/
theorem mem_issues_row {orientation : String} (h : PathStep.IsName orientation) {i : Nat} :
    ⟨(Place.row orientation i).text, message⟩ ∈ p.issues ↔
      (orientation = "portrait" ∧ p.layout.portrait[i]? = some 0 ∨
        orientation = "landscape" ∧ p.layout.landscape[i]? = some 0) ∧
      message = "row must contain at least one module" := by
  have hgroup : ∀ group, (⟨group, []⟩ : Place) ≠ .row orientation i := by
    simp [Place.row]
  have hstage : stageOf (Place.row orientation i).group = .moduleAndRoof := rfl
  rw [mem_issues_iff (Place.readable_row h i), hstage, requirements, moduleAndRoofRequirements]
  simp only [raised_append, raised_cons, raised_nil, raised_row_iff, hgroup, false_and, false_or,
    or_false, eq_comm (b := orientation), or_and_right, and_assoc]

/-- An issue of an inverter entry is raised there. -/
theorem mem_issues_entry {name : String} (h : PathStep.IsName name) {i : Nat} :
    ⟨(Place.entry i name).text, message⟩ ∈ p.issues ↔
      ∃ v, p.inverters[i]? = some v ∧ Raised (.entry i name) message (entryRequirements v i) := by
  rw [mem_issues_iff (Place.readable_entry i h)]
  exact raised_entry_iff

theorem mem_issues_string {i j : Nat} : ⟨(Place.string i j).text, message⟩ ∈ p.issues ↔
    ∃ v, p.inverters[i]? = some v ∧ Raised (.string i j) message (entryRequirements v i) := by
  rw [mem_issues_iff (Place.readable_string i j)]
  exact raised_entry_iff

/-- Three requirements of an entry are not about a string of it. -/
theorem raised_entryRequirements_iff {v : Inverter} {i : Nat} {name : String} :
    Raised (.entry i name) message (entryRequirements v i) ↔
      "material_id" = name ∧ isBlank v.materialId = true ∧ "required" = message ∨
      "quantity" = name ∧ v.quantity = 0 ∧ "quantity must be at least 1" = message ∨
      "strings" = name ∧ v.strings = [] ∧ "at least one string is required" = message := by
  have hstring : ∀ j, Place.string i j ≠ .entry i name := by
    simp [Place.string, Place.entry]
  have hentry : ∀ other, Place.entry i other = .entry i name ↔ other = name := by
    simp [Place.entry]
  simp only [entryRequirements, raised_append, raised_cons, raised_nil, raised_zipIdx, hstring,
    hentry, false_and, and_false, exists_false, or_false, Bool.not_eq_false', List.isEmpty_iff,
    decide_eq_false_iff_not, UInt32.not_lt, UInt32.le_zero_iff]

/-- A string is raised when it has no module. -/
theorem raised_stringRequirements_iff {v : Inverter} {i j : Nat} :
    Raised (.string i j) message (entryRequirements v i) ↔
      ∃ s, v.strings[j]? = some s ∧ s.moduleCount = 0 ∧
        "string must contain at least one module" = message := by
  have hentry : ∀ name, Place.entry i name ≠ .string i j := by
    simp [Place.string, Place.entry]
  have hstring : ∀ k, Place.string i k = .string i j ↔ k = j := by
    simp [Place.string]
  simp only [entryRequirements, raised_append, raised_cons, raised_nil, raised_zipIdx, hstring,
    hentry, false_and, or_false, false_or, decide_eq_false_iff_not, UInt32.not_lt,
    UInt32.le_zero_iff]
  constructor
  · rintro ⟨s, k, hs, rfl, hraised⟩
    exact ⟨s, hs, hraised⟩
  · rintro ⟨s, hs, hraised⟩
    exact ⟨s, j, hs, rfl, hraised⟩

/-- **Every wrong field of a row, an entry or a string is named, each once and no other.** -/
theorem issues_are_located (p : Plan) : p.Located where
  distinct := nodup_fields p
  portrait i message := by
    have htext : (Place.row "portrait" i).text =
        "layout.portrait[" ++ toString i ++ "].module_count" := by
      simp [Place.text_eq_iff, Place.row]
    rw [← htext, mem_issues_row (by decide)]
    simp
  landscape i message := by
    have htext : (Place.row "landscape" i).text =
        "layout.landscape[" ++ toString i ++ "].module_count" := by
      simp [Place.text_eq_iff, Place.row]
    rw [← htext, mem_issues_row (by decide)]
    simp
  material i message := by
    have htext : (Place.entry i "material_id").text =
        "inverters[" ++ toString i ++ "].material_id" := by simp [Place.text_eq_iff, Place.entry]
    rw [← htext, mem_issues_entry (by decide)]
    simp [raised_entryRequirements_iff, eq_comm (b := message), ← and_assoc]
  quantity i message := by
    have htext : (Place.entry i "quantity").text =
        "inverters[" ++ toString i ++ "].quantity" := by simp [Place.text_eq_iff, Place.entry]
    rw [← htext, mem_issues_entry (by decide)]
    simp [raised_entryRequirements_iff, eq_comm (b := message), ← and_assoc]
  strings i message := by
    have htext : (Place.entry i "strings").text =
        "inverters[" ++ toString i ++ "].strings" := by simp [Place.text_eq_iff, Place.entry]
    rw [← htext, mem_issues_entry (by decide)]
    simp [raised_entryRequirements_iff, eq_comm (b := message), ← and_assoc]
  string i j message := by
    have htext : (Place.string i j).text =
        "inverters[" ++ toString i ++ "].strings[" ++ toString j ++ "].module_count" := by
      simp [Place.text_eq_iff, Place.string]
    rw [← htext, mem_issues_string]
    simp only [raised_stringRequirements_iff]
    constructor
    · rintro ⟨v, hv, s, hs, hzero, rfl⟩
      exact ⟨⟨v, s, hv, hs, hzero⟩, rfl⟩
    · rintro ⟨⟨v, s, hv, hs, hzero⟩, rfl⟩
      exact ⟨v, hv, s, hs, hzero, rfl⟩

end Plan

end SolarBill
