import SolarBill.Proofs.Bill.Chosen
import SolarBill.Review
import SolarBill.Wizard.Check

/-!
# Plans without issues

The checks of the wizard and the rules of the bill are separate readings of one plan.  Here they are
compared: what a stage without issues says of the plan, stage by stage, is what the rules need to
emit a line for everything that was entered.

* `moduleAndRoofIssues_eq_nil_iff` and the like — what is checked at each stage;
* `checked_plan_is_bookable` — a plan that reaches the review without issues gives a bill that can
  be committed, whatever the catalogue and the coefficients are.
-/

namespace SolarBill

namespace Stage

/-! ### What is checked -/

/-- A requirement that is met raises no issue. -/
@[simp] theorem require_eq_nil_iff {ok : Bool} {field message : String} :
    require ok field message = [] ↔ ok = true := by
  cases ok <;> simp [require]

/-- A name is a name unless it is missing or blank. -/
theorem isNamed_iff {id : Option String} :
    isNamed id = true ↔ ∃ name, id = some name ∧ Text.isBlank name = false := by
  cases id with
  | none => simp [isNamed, Text.nonBlank?]
  | some name => cases h : Text.isBlank name <;> simp [isNamed, Text.nonBlank?, h]

/-- Elements are checked one by one; their places go into the messages only. -/
theorem flatMap_zipIdx_eq_nil_iff {α : Type} {xs : List α} {check : α × Nat → List Issue}
    {ok : α → Prop} (h : ∀ x index, check (x, index) = [] ↔ ok x) :
    xs.zipIdx.flatMap check = [] ↔ ∀ x ∈ xs, ok x := by
  rw [List.flatMap_eq_nil_iff, List.forall_mem_zipIdx, List.forall_mem_iff_getElem]
  exact forall₂_congr fun index _ => h _ _

/-- Rows raise no issue when each has a module. -/
theorem rowIssues_eq_nil_iff {name : String} {rows : List UInt32} :
    rowIssues name rows = [] ↔ ∀ modules ∈ rows, 0 < modules :=
  flatMap_zipIdx_eq_nil_iff fun modules index => by simp

/-- The first stage has no issue: a module, a roof, and rows with modules only, at least one of
them. -/
theorem moduleAndRoofIssues_eq_nil_iff {p : Plan} : moduleAndRoofIssues p = [] ↔
    isNamed p.module = true ∧ p.roof.isSome = true ∧ (∀ row ∈ p.layout.rows, 0 < row.2) ∧
      0 < p.totalModules := by
  simp only [moduleAndRoofIssues, List.append_eq_nil_iff, require_eq_nil_iff, rowIssues_eq_nil_iff,
    decide_eq_true_eq, Layout.rows, List.forall_mem_append, List.forall_mem_map, and_assoc]

/-- The mounting has no issue: a system, both clamps, and a profile wherever there are connectors
for it. -/
theorem mountingIssues_eq_nil_iff {p : Plan} : mountingIssues p = [] ↔
    isNamed p.mounting.system = true ∧ isNamed p.mounting.endClamp = true ∧
      isNamed p.mounting.midClamp = true ∧
      (isNamed p.mounting.profileConnector = true → isNamed p.mounting.profile = true) := by
  simp only [mountingIssues, List.append_eq_nil_iff, require_eq_nil_iff, Bool.or_eq_true,
    Bool.not_eq_true', and_assoc, ← Bool.not_eq_true, ← imp_iff_not_or]

/-- An inverter entry that is complete and wires a module with each of its strings. -/
def Wired (v : Inverter) : Prop :=
  v.isComplete = true ∧ v.strings ≠ [] ∧ ∀ s ∈ v.strings, 0 < s.moduleCount

/-- An inverter entry raises no issue when it is wired. -/
theorem inverterEntryIssues_eq_nil_iff {index : Nat} {v : Inverter} :
    inverterEntryIssues index v = [] ↔ Wired v := by
  rw [inverterEntryIssues, List.append_eq_nil_iff,
    flatMap_zipIdx_eq_nil_iff fun s j => require_eq_nil_iff.trans decide_eq_true_iff]
  simp only [List.append_eq_nil_iff, require_eq_nil_iff, Wired, Inverter.isComplete,
    Bool.and_eq_true, Bool.not_eq_true', List.isEmpty_eq_false_iff, and_assoc]

/-- The inverters have no issue: there are some, each is wired, and all modules are. -/
theorem inverterIssues_eq_nil_iff {p : Plan} : inverterIssues p = [] ↔
    p.inverters ≠ [] ∧ (∀ v ∈ p.inverters, Wired v) ∧ p.stringModules = p.totalModules := by
  unfold inverterIssues
  split_ifs with hempty
  · simp [List.isEmpty_iff.mp hempty]
  · rw [List.append_eq_nil_iff, require_eq_nil_iff, beq_iff_eq,
      flatMap_zipIdx_eq_nil_iff fun v index => inverterEntryIssues_eq_nil_iff]
    exact (and_iff_right (mt List.isEmpty_iff.mpr hempty)).symm

/-- Selections raise no issue when each one that is made is complete. -/
theorem selectionIssues_eq_nil_iff {group : String} {named : String × Option Selection} :
    selectionIssues group named = [] ↔ ∀ s, named.2 = some s → s.isComplete = true := by
  unfold selectionIssues
  split <;> simp_all [Selection.isComplete]

/-- A plan without issues: what is checked before the review, stage by stage. -/
theorem issuesBefore_review_eq_nil_iff {p : Plan} : review.issuesBefore p = [] ↔
    moduleAndRoofIssues p = [] ∧ mountingIssues p = [] ∧ inverterIssues p = [] ∧
      ∀ named ∈ p.options.named ++ p.electrical.named, ∀ s, named.2 = some s →
        s.isComplete = true := by
  have hbefore : review.before = [.moduleAndRoof, .mounting, .inverters, .optionalComponents,
      .electricalComponents] := rfl
  simp only [issuesBefore, hbefore, List.flatMap_cons, List.flatMap_nil, List.append_nil,
    List.append_eq_nil_iff, issues, List.flatMap_eq_nil_iff, selectionIssues_eq_nil_iff,
    List.forall_mem_append]

end Stage

/-! ### What is listed -/

namespace Rules

variable {i : Inputs}

/-- The module has a line. -/
theorem mem_materials_module {id : String} (h : i.plan.module = some id)
    (hid : Text.isBlank id = false) (hpos : 0 < i.plan.totalModules) :
    id ∈ Bill.materials (lines i) := by
  have hchosen : (id, i.plan.totalModules.toNat) ∈ i.plan.chosen := by
    simp [Plan.chosen, h]
  exact mem_materials_of_chosen hchosen hid hpos

/-- A complete inverter entry has a line. -/
theorem mem_materials_inverter {v : Inverter} (hv : v ∈ i.plan.inverters)
    (hcomplete : v.isComplete = true) : v.materialId ∈ Bill.materials (lines i) := by
  have hchosen : (v.materialId, v.quantity.toNat) ∈ i.plan.chosen := by
    refine List.mem_append_left _ (List.mem_append_right _ (List.mem_map.mpr ⟨v, ?_, rfl⟩))
    exact List.mem_filter.mpr ⟨hv, hcomplete⟩
  simp only [Inverter.isComplete, Bool.and_eq_true, Bool.not_eq_true', decide_eq_true_eq]
    at hcomplete
  exact mem_materials_of_chosen hchosen hcomplete.1 hcomplete.2

/-- A complete selection has a line. -/
theorem mem_materials_selection {named : String × Option Selection} {s : Selection}
    (hnamed : named ∈ i.plan.options.named ++ i.plan.electrical.named) (hs : named.2 = some s)
    (hcomplete : s.isComplete = true) : s.materialId ∈ Bill.materials (lines i) := by
  have hchosen : (s.materialId, s.quantity.toNat) ∈ i.plan.chosen := by
    refine List.mem_append_right _ (List.mem_map.mpr ⟨s, ?_, rfl⟩)
    exact List.mem_filter.mpr ⟨List.mem_filterMap.mpr ⟨named, hnamed, hs⟩, hcomplete⟩
  simp only [Selection.isComplete, Bool.and_eq_true, Bool.not_eq_true', decide_eq_true_eq]
    at hcomplete
  exact mem_materials_of_chosen hchosen hcomplete.1 hcomplete.2

end Rules

/-- Where every row holds modules, there are rows as soon as there are modules. -/
theorem Layout.totalRows_pos {l : Layout} (hrows : ∀ row ∈ l.rows, 0 < row.2)
    (hpos : 0 < l.totalModules) : 0 < l.totalRows := by
  have hpopulated : l.populated = l.rows := by
    rw [populated, List.filter_eq_self]
    simpa using hrows
  have hne : l.rows ≠ [] := by
    intro hnil
    rw [totalModules, hnil] at hpos
    exact absurd hpos (by decide)
  have hlength := List.length_pos_iff.mpr hne
  rw [UInt64.lt_iff_toNat_lt, totalRows, hpopulated, Count.toNat_ofNatClamp]
  exact lt_min hlength (by decide)

/-- The end clamp has a line where there are rows. -/
theorem Rules.mem_materials_endClamp {i : Inputs} {id : String}
    (h : i.plan.mounting.endClamp = some id) (hid : Text.isBlank id = false)
    (hrows : 0 < i.plan.totalRows) : id ∈ Bill.materials (lines i) := by
  have hpos : 0 < (Count.mul i.plan.totalRows 4).toNat := by
    rw [Count.toNat_mul]
    have hfour : 0 < i.plan.totalRows.toNat * (4 : UInt64).toNat :=
      Nat.mul_pos (UInt64.lt_iff_toNat_lt.mp hrows) (by decide)
    exact lt_min hfour (by decide)
  refine mem_materials_of_choice (c := (id, (Count.mul i.plan.totalRows 4).toNat)) ?_
    (UInt64.toNat_lt _) hid hpos
  intro l hl
  have hclamp : l ∈ clampLines i := by
    refine List.mem_append_left _ ?_
    rw [h]
    exact hl
  apply (selectedLines_sublist i).mem
  simp only [selectedLines, List.mem_append]
  exact Or.inl (Or.inl (Or.inl (Or.inr hclamp)))

/-- **A checked plan can be booked.**  If a plan has no issues before the review, then its bill has
no warnings and can be committed, and it lists the module, the end clamp, the material of every
inverter entry and that of every selection, whatever the catalogue and the coefficients are. -/
theorem checked_plan_is_bookable (plan : Plan) (h : Stage.review.issuesBefore plan = [])
    (catalog : Catalog) (coefficients : Coefficients) :
    (compile plan catalog coefficients).warnings = [] ∧
    (compile plan catalog coefficients).lines ≠ [] ∧
    (Review.ofBill (compile plan catalog coefficients)).canCommit = true ∧
    (∃ id, plan.module = some id ∧
      ((compile plan catalog coefficients).line? id).isSome = true) ∧
    (∃ id, plan.mounting.endClamp = some id ∧
      ((compile plan catalog coefficients).line? id).isSome = true) ∧
    (∀ v ∈ plan.inverters,
      ((compile plan catalog coefficients).line? v.materialId).isSome = true) ∧
    (∀ named ∈ plan.options.named ++ plan.electrical.named, ∀ s, named.2 = some s →
      ((compile plan catalog coefficients).line? s.materialId).isSome = true) := by
  obtain ⟨hmodule, hmounting, hinverters, hselections⟩ :=
    Stage.issuesBefore_review_eq_nil_iff.mp h
  obtain ⟨hnamed, -, hrows, hpos⟩ := Stage.moduleAndRoofIssues_eq_nil_iff.mp hmodule
  obtain ⟨-, hclamp, -, -⟩ := Stage.mountingIssues_eq_nil_iff.mp hmounting
  obtain ⟨-, hentries, hwired⟩ := Stage.inverterIssues_eq_nil_iff.mp hinverters
  obtain ⟨id, hid, hblank⟩ := Stage.isNamed_iff.mp hnamed
  obtain ⟨clamp, hclamp, hclampblank⟩ := Stage.isNamed_iff.mp hclamp
  have hline : ((compile plan catalog coefficients).line? id).isSome = true :=
    compile_line? (Rules.mem_materials_module hid hblank hpos)
  have hwarnings : (compile plan catalog coefficients).warnings = [] :=
    (Rules.parityWarnings_eq_nil_iff ⟨plan, catalog, coefficients⟩).mpr hwired
  have hlines : (compile plan catalog coefficients).lines ≠ [] := by
    intro hnil
    rw [Bill.line?, hnil] at hline
    exact absurd hline (by simp)
  refine ⟨hwarnings, hlines, ?_, ⟨id, hid, hline⟩, ⟨clamp, hclamp, ?_⟩, ?_, ?_⟩
  · simp [Review.canCommit, Review.ofBill, hwarnings, hlines]
  · exact compile_line? (Rules.mem_materials_endClamp hclamp hclampblank
      (Layout.totalRows_pos hrows hpos))
  · exact fun v hv => compile_line? (Rules.mem_materials_inverter hv (hentries v hv).1)
  · intro named hmem s hs
    exact compile_line? (Rules.mem_materials_selection hmem hs (hselections named hmem s hs))

/-- Two rows on a flat roof, wired to two inverters, with a wallbox. -/
def flatRoofPlan : Plan where
  module := some "MOD"
  roof := some .flat
  layout := { portrait := [3], landscape := [2] }
  mounting := { system := some "RAIL-FOOT", endClamp := some "END", midClamp := some "MID" }
  inverters := [⟨"INV-S", 1, [⟨"S1", 2⟩]⟩, ⟨"INV-L", 2, [⟨"S2", 1⟩, ⟨"S3", 2⟩]⟩]
  options := { wallbox := some ⟨"BOX", 1⟩ }

/-- The flat roof can be booked, with a line for each inverter. -/
theorem checked_plan_is_bookable_flatRoof :
    Stage.review.issuesBefore flatRoofPlan = [] ∧
      (Review.ofBill (compile flatRoofPlan .empty .builtin)).canCommit = true ∧
      ∀ v ∈ flatRoofPlan.inverters,
        ((compile flatRoofPlan .empty .builtin).line? v.materialId).isSome = true := by
  have hissues : Stage.review.issuesBefore flatRoofPlan = [] := by decide
  obtain ⟨-, -, hcommit, -, -, hinverters, -⟩ :=
    checked_plan_is_bookable flatRoofPlan hissues .empty .builtin
  exact ⟨hissues, hcommit, hinverters⟩

end SolarBill
