import SolarBill.Proofs.Bill.Rearranged
import SolarBill.Proofs.Bill.Steps

/-!
# Flags of merged lines

A merged line has the flags of the first line of its material.  Every rule emits lines of one flag,
so what counts is which rule comes first.  The consumables and labels come last, and take no flag
away from anything.  Connectors and cables of the strings are derived before the selections, and the
dongle and the electrodes before the protection devices, so a material of these that is selected as
well can be listed as a derived one first; then its merged line is a flat-rate line.

* `Rules.Made.flagged_true`, `flagged_false` — configured and derived blocks of lines;
* `Rules.firstFlag?_lines` — the first flag of a material that is configured anywhere;
* `configured_unless_derived_first` — which configured materials have configured lines;
* `selected_connector_is_flat_rate` — one that has not.
-/

namespace SolarBill

/-! ### The rules by their flags -/

theorem Bill.mem_materials_append {xs ys : List Line} {id : String} :
    id ∈ materials (xs ++ ys) ↔ id ∈ materials xs ∨ id ∈ materials ys := by
  simp only [mem_materials, List.mem_append, or_and_right, exists_or]

namespace Rules

open Bill

variable {i : Inputs} {xs : List Line}

/-- Selected hardware is flagged as configured. -/
theorem Made.flagged_true (h : Made Line.configured i xs) : Flagged true xs := by
  intro l hl
  obtain ⟨id, quantity, -, -, rfl⟩ := h l hl
  rfl

/-- Derived lines are not. -/
theorem Made.flagged_false (h : Made Line.derived i xs) : Flagged false xs := by
  intro l hl
  obtain ⟨id, quantity, -, -, rfl⟩ := h l hl
  rfl

/-- A derived line has the material that it was derived for. -/
theorem mem_derived {id : Option String} {quantity : Float} {l : Line}
    (h : l ∈ derived i id quantity) : id = some l.materialId := by
  simp only [derived, emit, Option.mem_toList, Option.map_eq_some_iff] at h
  obtain ⟨used, hused, rfl⟩ := h
  exact (usable?_eq_some hused).1

/-- An implied line is one of the dongle or the electrode, and its material is not listed before. -/
theorem mem_impliedLines {l : Line} (h : l ∈ impliedLines i) :
    (i.coefficients.dongle = some l.materialId ∨
      i.coefficients.grounding.electrode = some l.materialId) ∧
    l.materialId ∉ materials (selectedLines i) := by
  have hnew : ∀ {listed : List Line}, (∀ o ∈ listed, o.materialId ≠ l.materialId) →
      l.materialId ∉ materials listed := by
    intro listed hlisted hmem
    obtain ⟨o, ho, heq⟩ := mem_materials.mp hmem
    exact hlisted o ho heq
  rcases List.mem_append.mp h with hl | hl
  · obtain ⟨hlisted, -, -, hid, -⟩ := mem_unlisted (dongleLines_subset _ _ hl)
    exact ⟨Or.inl hid, hnew hlisted⟩
  · obtain ⟨hlisted, -, -, hid, -⟩ := mem_unlisted (electrodeLines_subset _ _ hl)
    refine ⟨Or.inr hid, hnew fun o ho => ?_⟩
    exact hlisted o (List.mem_append_left _ ho)

/-- A material is derived for the strings, without being hardware, or it is implied. -/
def DerivedFirst (i : Inputs) (id : String) : Prop :=
  id ∉ materials (hardwareLines i) ∧ id ∈ materials (stringLines i) ∨ id ∈ materials (impliedLines i)

instance (i : Inputs) (id : String) : Decidable (DerivedFirst i id) :=
  inferInstanceAs (Decidable (_ ∨ _))

/-- Nothing but strings, dongle and electrodes derives a material before it can be configured. -/
theorem DerivedFirst.material {id : String} (h : DerivedFirst i id) :
    some id ∈ [i.coefficients.dc.connectorMaterial, i.coefficients.dc.cableMaterial,
      i.coefficients.dongle, i.coefficients.grounding.electrode] := by
  rcases h with ⟨-, hstring⟩ | himplied
  · obtain ⟨l, hl, rfl⟩ := mem_materials.mp hstring
    rcases List.mem_append.mp hl with hl | hl
    · simp [mem_derived hl]
    · simp [mem_derived hl]
  · obtain ⟨l, hl, rfl⟩ := mem_materials.mp himplied
    rcases (mem_impliedLines hl).1 with hid | hid
    · simp [hid]
    · simp [hid]

/-- Selected materials come from the hardware, the strings or the options. -/
theorem mem_selected_iff {id : String} :
    id ∈ materials (selectedLines i) ↔ id ∈ materials (hardwareLines i) ∨
      id ∈ materials (stringLines i) ∨ id ∈ materials (selectionLines i) := by
  have hblocks : selectedLines i = hardwareLines i ++ stringLines i ++ selectionLines i := rfl
  rw [hblocks, mem_materials_append, mem_materials_append, or_assoc]

/-- Configured lines are those of hardware, selections and protection. -/
theorem mem_configured {l : Line} (h : l ∈ lines i) (hflag : l.isConfigured = true) :
    l.materialId ∈ materials (hardwareLines i) ∨ l.materialId ∈ materials (selectionLines i) ∨
      l.materialId ∈ materials (protectionLines i) := by
  have hnot : ∀ {xs : List Line}, Flagged false xs → l ∉ xs := by
    intro xs hxs hl
    rw [hxs l hl] at hflag
    cases hflag
  have hmem : ∀ {xs : List Line}, l ∈ xs → l.materialId ∈ materials xs := fun hl =>
    mem_materials.mpr ⟨l, hl, rfl⟩
  simp only [lines_in_blocks, List.mem_append] at h
  rcases h with ((((hl | hl) | hl) | hl) | hl) | hl
  · exact Or.inl (hmem hl)
  · exact absurd hl (hnot made_stringLines.flagged_false)
  · exact Or.inr (Or.inl (hmem hl))
  · exact absurd hl (hnot made_impliedLines.flagged_false)
  · exact Or.inr (Or.inr (hmem hl))
  · exact absurd hl (hnot made_flatRateLines.flagged_false)

/-- **The first flag** of a material that is configured anywhere. -/
theorem firstFlag?_lines {l : Line} (h : l ∈ lines i) (hflag : l.isConfigured = true) :
    firstFlag? (lines i) l.materialId = some (!decide (DerivedFirst i l.materialId)) := by
  have hconfigured := mem_configured h hflag
  have himplied : l.materialId ∈ materials (impliedLines i) →
      l.materialId ∉ materials (selectedLines i) := by
    intro hid
    obtain ⟨o, ho, heq⟩ := mem_materials.mp hid
    exact heq ▸ (mem_impliedLines ho).2
  rw [mem_selected_iff] at himplied
  simp only [lines_in_blocks, firstFlag?_append, firstFlag?_of_flagged made_hardwareLines.flagged_true,
    firstFlag?_of_flagged made_stringLines.flagged_false,
    firstFlag?_of_flagged made_selectionLines.flagged_true,
    firstFlag?_of_flagged made_impliedLines.flagged_false,
    firstFlag?_of_flagged made_protectionLines.flagged_true]
  unfold DerivedFirst
  by_cases hhardware : l.materialId ∈ materials (hardwareLines i)
  · simp_all
  · by_cases hstring : l.materialId ∈ materials (stringLines i)
    · simp_all
    · by_cases hselection : l.materialId ∈ materials (selectionLines i)
      · simp_all
      · by_cases hid : l.materialId ∈ materials (impliedLines i) <;> simp_all

end Rules

/-! ### The compiled bill -/

/-- The line of a material in a compiled bill has the first flag that the rules give it. -/
theorem compile_line?_eq (plan : Plan) (catalog : Catalog) (coefficients : Coefficients)
    (id : String) :
    (compile plan catalog coefficients).line? id =
      (Bill.firstFlag? (Rules.lines ⟨plan, catalog, coefficients⟩) id).map fun flag =>
        { Line.derived id (Bill.total (Rules.lines ⟨plan, catalog, coefficients⟩) id) catalog with
          isConfigured := flag } := by
  rw [Bill.line?_eq_head?, compile_lines, Bill.linesOf_consolidate_eq,
    Bill.merge?_linesOf fun l hl => (Rules.emitted_ofCatalog hl).1]
  exact Option.head?_toList

/-- **Configured materials.**  A material that any rule lists as configured has a configured line in
the bill exactly if it is not derived first: as connector or cable of the strings without being
hardware, as the dongle, or as the electrode.  In particular it has one if it is none of these four
materials of the coefficients. -/
theorem configured_unless_derived_first {plan : Plan} {catalog : Catalog}
    {coefficients : Coefficients} {id : String}
    (h : ∃ l ∈ (Rules.draft plan catalog coefficients).lines,
      l.materialId = id ∧ l.isConfigured = true) :
    ∃ line, (compile plan catalog coefficients).line? id = some line ∧
      (line.isConfigured = true ↔ ¬ Rules.DerivedFirst ⟨plan, catalog, coefficients⟩ id) ∧
      (some id ∉ [coefficients.dc.connectorMaterial, coefficients.dc.cableMaterial,
        coefficients.dongle, coefficients.grounding.electrode] → line.isConfigured = true) := by
  obtain ⟨l, hl, rfl, hflag⟩ := h
  have hline := compile_line?_eq plan catalog coefficients l.materialId
  rw [Rules.firstFlag?_lines hl hflag, Option.map_some] at hline
  refine ⟨_, hline, by simp, ?_⟩
  intro hother
  simpa using mt Rules.DerivedFirst.material hother

/-- A string of modules, and a connector pair selected as an optimizer. -/
def connectorPlan : Plan where
  inverters := [⟨"INV", 1, [⟨"S", 1⟩]⟩]
  options := { optimizer := some ⟨"MC4-PAIR", 1⟩ }

/-- The inverter of that plan keeps its flag. -/
theorem configured_unless_derived_first_inverter :
    ∃ line, (compile connectorPlan .empty .builtin).line? "INV" = some line ∧
      line.isConfigured = true := by
  have hinverter : Rules.hardwareLines ⟨connectorPlan, .empty, .builtin⟩ =
      [Line.configured "INV" 1.0 .empty] := by
    decide
  have hlisted : Line.configured "INV" 1.0 .empty ∈
      Rules.lines ⟨connectorPlan, .empty, .builtin⟩ := by
    simp only [Rules.lines_in_blocks, List.mem_append, hinverter, List.mem_singleton, true_or]
  obtain ⟨line, hline, -, hother⟩ := configured_unless_derived_first ⟨_, hlisted, rfl, rfl⟩
  exact ⟨line, hline, hother (by decide)⟩

/-- **A selected connector is a flat-rate line.**  The strings list it first. -/
theorem selected_connector_is_flat_rate :
    ¬ ∀ (plan : Plan) (catalog : Catalog) (coefficients : Coefficients) (id : String),
      (∃ l ∈ (Rules.draft plan catalog coefficients).lines,
        l.materialId = id ∧ l.isConfigured = true) →
      ∃ line, (compile plan catalog coefficients).line? id = some line ∧
        line.isConfigured = true := by
  intro hall
  have hselection : Rules.selectionLines ⟨connectorPlan, .empty, .builtin⟩ =
      [Line.configured "MC4-PAIR" 1.0 .empty] := by
    decide
  have hlisted : Line.configured "MC4-PAIR" 1.0 .empty ∈
      Rules.lines ⟨connectorPlan, .empty, .builtin⟩ := by
    simp only [Rules.lines_in_blocks, List.mem_append, hselection, List.mem_singleton, or_true, true_or]
  have hderived : Rules.DerivedFirst ⟨connectorPlan, .empty, .builtin⟩ "MC4-PAIR" := by
    decide
  have hfirst : Bill.firstFlag? (Rules.lines ⟨connectorPlan, .empty, .builtin⟩) "MC4-PAIR" =
      some (!decide (Rules.DerivedFirst ⟨connectorPlan, .empty, .builtin⟩ "MC4-PAIR")) :=
    Rules.firstFlag?_lines hlisted rfl
  obtain ⟨line, hline, hflag⟩ :=
    hall connectorPlan .empty .builtin "MC4-PAIR" ⟨_, hlisted, rfl, rfl⟩
  rw [compile_line?_eq, hfirst, decide_eq_true hderived, Option.map_some,
    Option.some.injEq] at hline
  rw [← hline] at hflag
  cases hflag

end SolarBill
