import SolarBill.Bill.Compile
import SolarBill.Proofs.Number.Value

/-!
# Quantities of a compiled bill

Every rule emits its lines through `emit`, which lets only usable materials and finite quantities
above zero pass, and makes either configured or derived lines, so that the lines of all rules are a
few blocks made in one way (`Rules.lines_in_blocks`).  Consolidating adds quantities above zero up.
So every quantity of a compiled bill is above zero (`compile_pos`); none is not-a-number, and none
is a zero of either sign.

Bills are compared number by number.  For a compiled bill this comparison is equality:
`Bill.eq_of_beq`, `Bill.beq_self`.
-/

namespace SolarBill

/-! ### What the rules emit -/

namespace Rules

/-- Every line is that of a usable material and quantity. -/
def Emitted (i : Inputs) (lines : List Line) : Prop :=
  ∀ l ∈ lines, ∃ id quantity, Text.isBlank id = false ∧ Double.isPositive quantity = true ∧
    (l = Line.configured id quantity i.catalog ∨ l = Line.derived id quantity i.catalog)

/-- Every line is made in one way, of a usable material and quantity. -/
def Made (make : String → Float → Catalog → Line) (i : Inputs) (lines : List Line) : Prop :=
  ∀ l ∈ lines, ∃ id quantity, Text.isBlank id = false ∧ Double.isPositive quantity = true ∧
    l = make id quantity i.catalog

variable {i : Inputs} {make : String → Float → Catalog → Line}

theorem Made.nil : Made make i [] := by
  intro l hl
  cases hl

/-- Lines that were made in the same way, one list behind the other. -/
theorem Made.append {xs ys : List Line} (hx : Made make i xs) (hy : Made make i ys) :
    Made make i (xs ++ ys) := by
  intro l hl
  rcases List.mem_append.mp hl with hl | hl
  · exact hx l hl
  · exact hy l hl

/-- Lines for every item that were made in the same way. -/
theorem Made.flatMap {α : Type} {xs : List α} {f : α → List Line} (h : ∀ x, Made make i (f x)) :
    Made make i (xs.flatMap f) := by
  intro l hl
  obtain ⟨x, -, hl⟩ := List.mem_flatMap.mp hl
  exact h x l hl

/-- A material is usable when it has a name and the quantity is positive. -/
theorem usable?_eq_some {id : Option String} {quantity : Float} {used : String}
    (h : usable? id quantity = some used) :
    id = some used ∧ Text.isBlank used = false ∧ Double.isPositive quantity = true := by
  simpa [usable?, Text.nonBlank?, Option.filter_eq_some_iff, and_assoc] using h

/-- An emitted line is made from a name and a positive quantity. -/
theorem mem_emit {id : Option String} {quantity : Float} {l : Line}
    (h : l ∈ emit make i id quantity) :
    ∃ used, Text.isBlank used = false ∧ Double.isPositive quantity = true ∧
      l = make used quantity i.catalog := by
  simp only [emit, Option.mem_toList, Option.map_eq_some_iff] at h
  obtain ⟨used, hused, rfl⟩ := h
  obtain ⟨-, hblank, hpos⟩ := usable?_eq_some hused
  exact ⟨used, hblank, hpos, rfl⟩

/-- What is emitted is made. -/
theorem made_emit (id : Option String) (quantity : Float) : Made make i (emit make i id quantity) := by
  intro l hl
  obtain ⟨used, hblank, hpos, rfl⟩ := mem_emit hl
  exact ⟨used, quantity, hblank, hpos, rfl⟩

/-! ### Lines that depend on the lines before them -/

/-- The derived line of a material that is not listed yet. -/
def unlisted (i : Inputs) (listed : List Line) (id : Option String) (quantity : Float) : List Line :=
  match Text.nonBlank? id with
  | none => []
  | some name => if isListed listed name then [] else derived i (some name) quantity

/-- The dongle lines in one equation: none when one is selected or replaced, else the one not listed
yet. -/
theorem dongleLines_eq (i : Inputs) (listed : List Line) :
    dongleLines i listed =
      if 0 < selectedUnits i.plan.options.smartDongle || managerReplacesDongle i then []
      else unlisted i listed i.coefficients.dongle (donglesNeeded i).toFloat :=
  rfl

/-- The electrode lines in one equation: none without a grounding rod, else the one not listed yet.
-/
theorem electrodeLines_eq (i : Inputs) (listed : List Line) :
    electrodeLines i listed =
      if selectedUnits i.plan.electrical.groundingRod = 0 then []
      else unlisted i listed i.coefficients.grounding.electrode
        ((selectedUnits i.plan.electrical.groundingRod).toFloat *
          i.coefficients.grounding.multiplier) :=
  rfl

/-- A material is not listed if no line has it. -/
theorem isListed_eq_false_iff {listed : List Line} {id : String} :
    isListed listed id = false ↔ ∀ l ∈ listed, l.materialId ≠ id := by
  simp [isListed]

/-- The line is there for a usable material that no line before it has, and a usable quantity. -/
theorem unlisted_eq (i : Inputs) (listed : List Line) (id : Option String) (quantity : Float) :
    unlisted i listed id quantity =
      (((usable? id quantity).filter fun name => !isListed listed name).map fun name =>
        Line.derived name quantity i.catalog).toList := by
  rw [unlisted, usable?]
  cases hname : Text.nonBlank? id with
  | none => rfl
  | some name =>
      have hsame : Text.nonBlank? (some name) = some name :=
        Text.nonBlank?_eq_some_iff.mpr ⟨rfl, (Text.nonBlank?_eq_some_iff.mp hname).2⟩
      by_cases hpos : Double.isPositive quantity
      · by_cases hlisted : isListed listed name <;>
          simp [hpos, hlisted, derived, emit, usable?, hsame, Option.filter_some]
      · simp [hpos, derived, emit, usable?]

/-- A line that was not listed has a name, a positive quantity, and a material that nothing else
has. -/
theorem mem_unlisted {listed : List Line} {id : Option String} {quantity : Float} {l : Line}
    (h : l ∈ unlisted i listed id quantity) :
    (∀ o ∈ listed, o.materialId ≠ l.materialId) ∧ Text.isBlank l.materialId = false ∧
      Double.isPositive quantity = true ∧ id = some l.materialId ∧
      l = Line.derived l.materialId quantity i.catalog := by
  simp only [unlisted_eq, Option.mem_toList, Option.map_eq_some_iff, Option.filter_eq_some_iff,
    Bool.not_eq_true'] at h
  obtain ⟨name, ⟨husable, hlisted⟩, rfl⟩ := h
  obtain ⟨hid, hblank, hpos⟩ := usable?_eq_some husable
  exact ⟨isListed_eq_false_iff.mp hlisted, hblank, hpos, hid, rfl⟩

/-- What was not listed is derived. -/
theorem made_unlisted (listed : List Line) (id : Option String) (quantity : Float) :
    Made Line.derived i (unlisted i listed id quantity) := by
  intro l hl
  obtain ⟨-, hblank, hpos, -, heq⟩ := mem_unlisted hl
  exact ⟨l.materialId, quantity, hblank, hpos, heq⟩

/-- The dongle lines are at most the one that is not listed yet. -/
theorem dongleLines_subset (i : Inputs) (listed : List Line) :
    dongleLines i listed ⊆ unlisted i listed i.coefficients.dongle (donglesNeeded i).toFloat := by
  rw [dongleLines_eq]
  split_ifs
  · exact List.nil_subset _
  · exact List.Subset.refl _

theorem electrodeLines_subset (i : Inputs) (listed : List Line) :
    electrodeLines i listed ⊆ unlisted i listed i.coefficients.grounding.electrode
      ((selectedUnits i.plan.electrical.groundingRod).toFloat *
        i.coefficients.grounding.multiplier) := by
  rw [electrodeLines_eq]
  split_ifs
  · exact List.nil_subset _
  · exact List.Subset.refl _

/-! ### The rules in blocks -/

/-- Modules, inverters and what they are mounted with. -/
def hardwareLines (i : Inputs) : List Line :=
  moduleLines i ++ inverterLines i ++ mountingLines i ++ clampLines i ++ railLines i

/-- Dongles and electrodes, which go with what is selected. -/
def impliedLines (i : Inputs) : List Line :=
  dongleLines i (selectedLines i) ++
    electrodeLines i (followedBy (selectedLines i) (dongleLines i))

/-- Flat-rate consumables and the warning label. -/
def flatRateLines (i : Inputs) : List Line :=
  if hasInstallation i.plan then consumableLines i ++ labelLines i else []

/-- **The lines of the rules in blocks**, each of which is configured or derived throughout. -/
theorem lines_in_blocks (i : Inputs) :
    lines i = hardwareLines i ++ stringLines i ++ selectionLines i ++ impliedLines i ++
      protectionLines i ++ flatRateLines i := by
  simp only [lines, followedBy, selectedLines, hardwareLines, impliedLines, flatRateLines,
    List.append_assoc]

/-- The hardware is configured. -/
theorem made_hardwareLines : Made Line.configured i (hardwareLines i) := by
  have hinverters : Made Line.configured i (inverterLines i) := Made.flatMap fun _ => made_emit _ _
  have hmounting : Made Line.configured i (mountingLines i) := by
    apply Made.append (made_emit _ _)
    split_ifs
    · exact made_emit _ _
    · exact Made.nil
  have hclamps : Made Line.configured i (clampLines i) := (made_emit _ _).append (made_emit _ _)
  have hrails : Made Line.configured i (railLines i) := by
    unfold railLines
    split_ifs
    · exact (made_emit _ _).append (made_emit _ _)
    · exact Made.nil
  exact ((((made_emit _ _).append hinverters).append hmounting).append hclamps).append hrails

/-- What the strings need is derived. -/
theorem made_stringLines : Made Line.derived i (stringLines i) :=
  (made_emit _ _).append (made_emit _ _)

/-- The selections are configured. -/
theorem made_selectionLines : Made Line.configured i (selectionLines i) :=
  Made.flatMap fun _ => made_emit _ _

/-- What the selections imply is derived. -/
theorem made_impliedLines : Made Line.derived i (impliedLines i) := by
  apply Made.append
  · exact fun l hl => made_unlisted _ _ _ l (dongleLines_subset _ _ hl)
  · exact fun l hl => made_unlisted _ _ _ l (electrodeLines_subset _ _ hl)

/-- Protections are configured, by the plan or by the table. -/
theorem made_protectionLines : Made Line.configured i (protectionLines i) := by
  apply Made.flatMap
  intro s
  unfold subsystemLines
  simp only
  split_ifs
  · exact Made.nil
  · exact ((made_emit _ _).append (made_emit _ _)).append (made_emit _ _)

/-- Flat rates are derived. -/
theorem made_flatRateLines : Made Line.derived i (flatRateLines i) := by
  unfold flatRateLines
  split_ifs
  · exact (Made.flatMap fun _ => made_emit _ _).append (made_emit _ _)
  · exact Made.nil

/-- **Every line of the rules** is that of a usable material and quantity. -/
theorem emitted_lines (i : Inputs) : Emitted i (lines i) := by
  have hconfigured : ∀ {xs : List Line}, Made Line.configured i xs → Emitted i xs := by
    intro xs hxs l hl
    obtain ⟨id, quantity, hblank, hpos, heq⟩ := hxs l hl
    exact ⟨id, quantity, hblank, hpos, Or.inl heq⟩
  have hderived : ∀ {xs : List Line}, Made Line.derived i xs → Emitted i xs := by
    intro xs hxs l hl
    obtain ⟨id, quantity, hblank, hpos, heq⟩ := hxs l hl
    exact ⟨id, quantity, hblank, hpos, Or.inr heq⟩
  intro l hl
  simp only [lines_in_blocks, List.mem_append] at hl
  rcases hl with ((((hl | hl) | hl) | hl) | hl) | hl
  · exact hconfigured made_hardwareLines l hl
  · exact hderived made_stringLines l hl
  · exact hconfigured made_selectionLines l hl
  · exact hderived made_impliedLines l hl
  · exact hconfigured made_protectionLines l hl
  · exact hderived made_flatRateLines l hl

/-- There is no warning when the strings wire as many modules as the layout has. -/
theorem parityWarnings_eq_nil_iff (i : Inputs) :
    parityWarnings i = [] ↔ i.plan.stringModules = i.plan.totalModules := by
  simp [parityWarnings]

end Rules

/-! ### Quantities above zero -/

/-- Every quantity is above zero. -/
def Line.AllPositive (lines : List Line) : Prop :=
  ∀ l ∈ lines, 0.0 < l.quantity

/-- Positive quantities are not zero or less. -/
theorem Line.AllPositive.not_le_zero {lines : List Line} (h : Line.AllPositive lines) :
    ∀ l ∈ lines, ¬ l.quantity ≤ 0.0 :=
  fun l hl => Double.not_le_zero_of_pos (h l hl)

/-- The quantity of a merged line is the sum of the sorted quantities. -/
theorem Bill.merge?_quantity {lines : List Line} {l : Line} (h : merge? lines = some l) :
    l.quantity = Double.sum (Double.sort (lines.map Line.quantity)) := by
  cases lines with
  | nil => simp [merge?] at h
  | cons first rest =>
      simp only [merge?, Option.some.injEq] at h
      rw [← h]

theorem Bill.merge?_ne_nil {lines : List Line} {l : Line} (h : merge? lines = some l) :
    lines ≠ [] := by
  rintro rfl
  simp [merge?] at h

/-- Merging sorts the quantities of the lines, and nothing else. -/
theorem Bill.mem_sorted {lines : List Line} {x : Float}
    (hx : x ∈ Double.sort (lines.map Line.quantity)) : ∃ l ∈ lines, l.quantity = x :=
  List.mem_map.mp ((Double.sort_perm _).mem_iff.mp hx)

theorem Bill.sorted_ne_nil {lines : List Line} (hne : lines ≠ []) :
    Double.sort (lines.map Line.quantity) ≠ [] := by
  intro hnil
  have hperm := Double.sort_perm (lines.map Line.quantity)
  rw [hnil] at hperm
  exact hne (List.map_eq_nil_iff.mp hperm.nil_eq.symm)

/-- What holds of all quantities and is kept by adding two holds of the consolidated ones. -/
theorem Bill.consolidate_induction {P : Float → Prop} (hadd : ∀ x y, P x → P y → P (x + y))
    {lines : List Line} (h : ∀ l ∈ lines, P l.quantity) :
    ∀ l ∈ consolidate lines, P l.quantity := by
  intro l hl
  obtain ⟨id, -, hmerge⟩ := List.mem_filterMap.mp hl
  rw [merge?_quantity hmerge]
  apply Double.sum_induction hadd (sorted_ne_nil (merge?_ne_nil hmerge))
  intro x hx
  obtain ⟨l, hl, rfl⟩ := mem_sorted hx
  exact h l (List.mem_of_mem_filter hl)

/-- Consolidating keeps quantities above zero. -/
theorem Bill.consolidate_pos {lines : List Line} (h : Line.AllPositive lines) :
    Line.AllPositive (consolidate lines) :=
  consolidate_induction (P := fun x => 0.0 < x) (fun _ _ hx hy => Double.add_pos hx hy) h

/-- **Every quantity of a compiled bill is above zero.** -/
theorem compile_pos (plan : Plan) (catalog : Catalog) (coefficients : Coefficients) :
    Line.AllPositive (compile plan catalog coefficients).lines := by
  apply Bill.consolidate_pos
  intro l hl
  obtain ⟨id, quantity, -, hpos, rfl | rfl⟩ := Rules.emitted_lines _ l hl
  · exact Double.pos_of_isPositive hpos
  · exact Double.pos_of_isPositive hpos

/-! ### Comparing bills -/

/-- Lines compare field by field. -/
theorem Line.beq_iff (a b : Line) :
    (a == b) = true ↔ a.materialId = b.materialId ∧ (a.quantity == b.quantity) = true ∧
      a.description = b.description ∧ a.category = b.category ∧
      a.isConfigured = b.isConfigured ∧ a.isManual = b.isManual := by
  change instBEqLine.beq a b = true ↔ _
  cases a
  cases b
  simp only [instBEqLine.beq, Bool.and_eq_true, beq_iff_eq]

/-- Bills compare by their lines and their warnings. -/
theorem Bill.beq_iff (a b : Bill) :
    (a == b) = true ↔ (a.lines == b.lines) = true ∧ a.warnings = b.warnings := by
  change instBEqBill.beq a b = true ↔ _
  cases a
  cases b
  simp only [instBEqBill.beq, Bool.and_eq_true, beq_iff_eq]

/-- A line whose quantity is not zero or below compares equal to no other line. -/
theorem Line.eq_of_beq {a b : Line} (hne : ¬ a.quantity ≤ 0.0) (h : (a == b) = true) : a = b := by
  obtain ⟨hid, hquantity, hdescription, hcategory, hconfigured, hmanual⟩ := (Line.beq_iff a b).mp h
  have hquantity := Double.eq_of_beq hne hquantity
  cases a
  cases b
  simp_all only

/-- A line with a positive quantity compares equal to itself, as it would not with one that is no
number. -/
theorem Line.beq_self {a : Line} (hpos : 0.0 < a.quantity) : (a == a) = true :=
  (Line.beq_iff a a).mpr ⟨rfl, Double.beq_self hpos, rfl, rfl, rfl, rfl⟩

/-- Lists of lines that compare equal are equal if no quantity is zero or less. -/
theorem Line.list_eq_of_beq {xs ys : List Line} (hne : ∀ l ∈ xs, ¬ l.quantity ≤ 0.0)
    (h : (xs == ys) = true) : xs = ys := by
  induction xs generalizing ys with
  | nil =>
      cases ys with
      | nil => rfl
      | cons y rest => simp at h
  | cons x rest ih =>
      cases ys with
      | nil => simp at h
      | cons y others =>
          rw [List.cons_beq_cons, Bool.and_eq_true] at h
          rw [Line.eq_of_beq (hne x List.mem_cons_self) h.1,
            ih (fun l hl => hne l (List.mem_cons_of_mem x hl)) h.2]

/-- Lines with positive quantities compare equal to themselves. -/
theorem Line.list_beq_self {xs : List Line} (hpos : Line.AllPositive xs) : (xs == xs) = true := by
  induction xs with
  | nil => rfl
  | cons x rest ih =>
      rw [List.cons_beq_cons, Bool.and_eq_true]
      exact ⟨Line.beq_self (hpos x List.mem_cons_self),
        ih fun l hl => hpos l (List.mem_cons_of_mem x hl)⟩

/-- **A compiled bill compares equal to no other bill.** -/
theorem Bill.eq_of_beq {a b : Bill} (hpos : Line.AllPositive a.lines) (h : (a == b) = true) :
    a = b := by
  obtain ⟨hlines, hwarnings⟩ := (Bill.beq_iff a b).mp h
  have hlines := Line.list_eq_of_beq hpos.not_le_zero hlines
  cases a
  cases b
  simp_all only

/-- **A compiled bill compares equal to itself.** -/
theorem Bill.beq_self {a : Bill} (hpos : Line.AllPositive a.lines) : (a == a) = true :=
  (Bill.beq_iff a a).mpr ⟨Line.list_beq_self hpos, rfl⟩

end SolarBill
