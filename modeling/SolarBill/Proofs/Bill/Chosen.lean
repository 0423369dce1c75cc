import SolarBill.Coefficients.Builtin
import SolarBill.Proofs.Bill.Lines
import SolarBill.Proofs.Number.Counting

/-!
# What the installer chose

Modules, inverters and selections are chosen by the installer with their units; all other quantities
of a bill are derived.  Each choice is a line of the rules, other rules may add lines of the same
material, and consolidating adds them all up in doubles:

* `Rules.chosenLines_sublist` — the rules emit the lines of the choices, in this order;
* `Bill.total_atLeast` — a total is at least the whole units in the lines;
* `nothing_chosen_is_lost` — the bill has one line for a chosen material, with all its units.
-/

namespace SolarBill

/-- What the installer chose: the module for all rows, and the complete inverter entries and
selections, each material with its units. -/
def Plan.chosen (p : Plan) : List (String × Nat) :=
  p.module.toList.map (fun id => (id, p.totalModules.toNat)) ++
    (p.inverters.filter Inverter.isComplete).map (fun v => (v.materialId, v.quantity.toNat)) ++
    (Rules.selections p).map fun s => (s.materialId, s.quantity.toNat)

/-- Units of one material among choices. -/
def unitsOf (choices : List (String × Nat)) (id : String) : Nat :=
  ((choices.filter fun c => c.1 == id).map Prod.snd).sum

/-- Units of a material that the installer chose. -/
def Plan.chosenUnits (p : Plan) (id : String) : Nat :=
  unitsOf p.chosen id

theorem unitsOf_cons (c : String × Nat) (rest : List (String × Nat)) (id : String) :
    unitsOf (c :: rest) id = (if c.1 = id then c.2 else 0) + unitsOf rest id := by
  by_cases h : c.1 = id <;> simp [unitsOf, h]

/-- Units that were chosen come from some choice. -/
theorem exists_chosen {choices : List (String × Nat)} {id : String} (h : 0 < unitsOf choices id) :
    ∃ c ∈ choices, c.1 = id ∧ 0 < c.2 := by
  induction choices with
  | nil => exact absurd h (lt_irrefl 0)
  | cons c rest ih =>
      rw [unitsOf_cons] at h
      by_cases hc : c.1 = id ∧ 0 < c.2
      · exact ⟨c, List.mem_cons_self, hc⟩
      · obtain ⟨o, ho, hunits⟩ := ih (by grind)
        exact ⟨o, List.mem_cons_of_mem c ho, hunits⟩

/-- A choice is a 64-bit word: selections and their quantities are words. -/
theorem Plan.chosen_lt {p : Plan} {c : String × Nat} (h : c ∈ p.chosen) : c.2 < 2 ^ 64 := by
  have hword : ∀ n : UInt32, n.toNat < 2 ^ 64 := fun n => n.toNat_lt.trans (by norm_num)
  rcases List.mem_append.mp h with h | h
  · rcases List.mem_append.mp h with h | h
    · obtain ⟨id, -, rfl⟩ := List.mem_map.mp h
      exact p.totalModules.toNat_lt
    · obtain ⟨v, -, rfl⟩ := List.mem_map.mp h
      exact hword _
  · obtain ⟨s, -, rfl⟩ := List.mem_map.mp h
    exact hword _

/-! ### Lines of the choices -/

namespace Rules

variable {i : Inputs}

/-- The line of a choice that names a material and at least one unit. -/
def choiceLines (i : Inputs) (c : String × Nat) : List Line :=
  configured i (some c.1) (Double.ofCount c.2)

/-- A choice makes a line if it names a material and has at least one unit. -/
theorem choiceLines_eq {c : String × Nat} (hlt : c.2 < 2 ^ 64) :
    choiceLines i c = if Text.isBlank c.1 = false ∧ 0 < c.2 then
      [Line.configured c.1 (Double.ofCount c.2) i.catalog] else [] := by
  simp only [choiceLines, configured, emit, usable?, Text.nonBlank?, ← Double.isPositive_ofCount hlt]
  cases hblank : Text.isBlank c.1 <;> cases hpos : Double.isPositive (Double.ofCount c.2) <;>
    simp [hblank]

/-- The lines of all choices. -/
def chosenLines (i : Inputs) : List Line :=
  i.plan.chosen.flatMap (choiceLines i)

/-- The lines of the selected hardware are among the lines of the rules. -/
theorem selectedLines_sublist (i : Inputs) : (selectedLines i).Sublist (lines i) := by
  simp only [lines, followedBy, List.append_assoc]
  exact List.sublist_append_left _ _

/-- **Every choice is emitted**, in this order, with lines of other rules before and between. -/
theorem chosenLines_sublist (i : Inputs) : (chosenLines i).Sublist (lines i) := by
  have hmodule : (i.plan.module.toList.map fun id => (id, i.plan.totalModules.toNat)).flatMap
      (choiceLines i) = moduleLines i := by
    cases hid : i.plan.module with
    | none => simp [moduleLines, hid, configured, emit, usable?, Text.nonBlank?]
    | some id =>
        simp only [moduleLines, hid, Option.toList_some, List.map_cons, List.map_nil,
          List.flatMap_singleton]
        rfl
  have hinverters : (((i.plan.inverters.filter Inverter.isComplete).map
      fun v => (v.materialId, v.quantity.toNat)).flatMap (choiceLines i)).Sublist
      (inverterLines i) := by
    rw [List.flatMap_map]
    exact List.filter_sublist.flatMap _
  have hselections : ((selections i.plan).map
      fun s => (s.materialId, s.quantity.toNat)).flatMap (choiceLines i) = selectionLines i := by
    rw [List.flatMap_map]
    rfl
  have hfirst : (moduleLines i ++ inverterLines i).Sublist (moduleLines i ++ inverterLines i ++
      mountingLines i ++ clampLines i ++ railLines i ++ stringLines i) := by
    simp only [List.append_assoc, List.append_sublist_append_left]
    exact List.sublist_append_left _ _
  rw [chosenLines, Plan.chosen, List.flatMap_append, List.flatMap_append, hmodule, hselections]
  refine List.Sublist.trans ?_ (selectedLines_sublist i)
  exact (((List.Sublist.refl _).append hinverters).trans hfirst).append (List.Sublist.refl _)

/-- A line that the rules emit for a named material and at least one unit lists the material. -/
theorem mem_materials_of_choice {c : String × Nat} (hlines : ∀ l ∈ choiceLines i c, l ∈ lines i)
    (hlt : c.2 < 2 ^ 64) (hid : Text.isBlank c.1 = false) (hpos : 0 < c.2) :
    c.1 ∈ Bill.materials (lines i) := by
  rw [choiceLines_eq hlt, if_pos ⟨hid, hpos⟩] at hlines
  exact Bill.mem_materials.mpr ⟨_, hlines _ (List.mem_singleton_self _), rfl⟩

/-- A material that is chosen at least once has a line. -/
theorem mem_materials_of_chosen {c : String × Nat} (hc : c ∈ i.plan.chosen)
    (hid : Text.isBlank c.1 = false) (hpos : 0 < c.2) : c.1 ∈ Bill.materials (lines i) := by
  refine mem_materials_of_choice ?_ (Plan.chosen_lt hc) hid hpos
  intro l hl
  exact (chosenLines_sublist i).mem (List.mem_flatMap.mpr ⟨c, hc, hl⟩)

end Rules

/-! ### Whole units in lines -/

namespace Bill

/-- The whole units in the lines of a material. -/
def wholeUnitsOf (lines : List Line) (id : String) : Nat :=
  ((linesOf lines id).map fun l => Double.wholeUnits l.quantity).sum

theorem wholeUnitsOf_singleton (l : Line) (id : String) :
    wholeUnitsOf [l] id = if l.materialId = id then Double.wholeUnits l.quantity else 0 := by
  by_cases h : l.materialId = id <;> simp [wholeUnitsOf, linesOf, h]

theorem wholeUnitsOf_append (xs ys : List Line) (id : String) :
    wholeUnitsOf (xs ++ ys) id = wholeUnitsOf xs id + wholeUnitsOf ys id := by
  rw [wholeUnitsOf, linesOf, List.filter_append, List.map_append, List.sum_append]
  rfl

/-- Fewer lines hold no more whole units. -/
theorem wholeUnitsOf_le {xs ys : List Line} (h : xs.Sublist ys) (id : String) :
    wholeUnitsOf xs id ≤ wholeUnitsOf ys id :=
  ((h.filter _).map _).sum_le_sum fun _ _ => Nat.zero_le _

/-- **A total keeps the whole units of its lines.** -/
theorem total_atLeast {lines : List Line} {id : String} (hid : id ∈ materials lines)
    (hpos : Line.AllPositive lines) {n : Nat} (hn : n ≤ wholeUnitsOf lines id)
    (hlt : n ≤ 2 ^ 53) : Double.AtLeast n (total lines id) := by
  apply Double.sum_atLeast (sorted_ne_nil (linesOf_ne_nil hid)) _ _ hlt
  · intro x hx
    obtain ⟨l, hl, rfl⟩ := mem_sorted hx
    exact hpos l (List.mem_of_mem_filter hl)
  · rw [((Double.sort_perm _).map Double.wholeUnits).sum_eq, List.map_map]
    exact hn

end Bill

namespace Rules

variable {i : Inputs}

/-- Below 2 ^ 53 the line of a choice holds all its units. -/
theorem wholeUnitsOf_choiceLines {id : String} (hid : Text.isBlank id = false)
    {c : String × Nat} (hword : c.2 < 2 ^ 64) (hlt : c.1 = id → c.2 < 2 ^ 53) :
    Bill.wholeUnitsOf (choiceLines i c) id = if c.1 = id then c.2 else 0 := by
  have hzero : Bill.wholeUnitsOf [] id = 0 := rfl
  rw [choiceLines_eq hword]
  split_ifs with hline hmaterial hmaterial
  · rw [Bill.wholeUnitsOf_singleton]
    exact (if_pos hmaterial).trans (Double.wholeUnits_ofCount (hlt hmaterial))
  · rw [Bill.wholeUnitsOf_singleton]
    exact if_neg hmaterial
  · -- A named material has no line only for want of units.
    grind
  · exact hzero

/-- Lines of choices hold the units that were chosen. -/
theorem wholeUnitsOf_choices {id : String} (hid : Text.isBlank id = false)
    {choices : List (String × Nat)} (hword : ∀ c ∈ choices, c.2 < 2 ^ 64)
    (hlt : unitsOf choices id < 2 ^ 53) :
    Bill.wholeUnitsOf (choices.flatMap (choiceLines i)) id = unitsOf choices id := by
  induction choices with
  | nil => rfl
  | cons c rest ih =>
      have hunits := unitsOf_cons c rest id
      have hfirst : c.1 = id → c.2 < 2 ^ 53 := by
        intro hmaterial
        rw [if_pos hmaterial] at hunits
        omega
      rw [List.flatMap_cons, Bill.wholeUnitsOf_append,
        wholeUnitsOf_choiceLines hid (hword c List.mem_cons_self) hfirst,
        ih (fun o ho => hword o (List.mem_cons_of_mem c ho)) (by omega), hunits]

end Rules

/-- **Nothing that was chosen is lost.**  A material that the installer chose, fewer than `2 ^ 53`
units of it in all, has exactly one line, and that line has at least these units, whatever else the
rules derive of the material. -/
theorem nothing_chosen_is_lost (plan : Plan) (catalog : Catalog) (coefficients : Coefficients)
    (id : String) (hid : Text.isBlank id = false) (hpos : 0 < plan.chosenUnits id)
    (hlt : plan.chosenUnits id < 2 ^ 53) :
    ∃ l, Bill.linesOf (compile plan catalog coefficients).lines id = [l] ∧
      (compile plan catalog coefficients).line? id = some l ∧
      (plan.chosenUnits id).toUInt64.toFloat ≤ l.quantity := by
  have hemitted : Line.AllPositive (Rules.lines ⟨plan, catalog, coefficients⟩) := fun l hl =>
    Double.pos_of_isPositive (Rules.emitted_ofCatalog hl).2
  have hchosen : plan.chosenUnits id = Bill.wholeUnitsOf
      (Rules.chosenLines ⟨plan, catalog, coefficients⟩) id :=
    (Rules.wholeUnitsOf_choices hid (fun _ hc => Plan.chosen_lt hc) hlt).symm
  have hall := Bill.wholeUnitsOf_le (Rules.chosenLines_sublist ⟨plan, catalog, coefficients⟩) id
  have hmaterial : id ∈ Bill.materials (Rules.lines ⟨plan, catalog, coefficients⟩) := by
    obtain ⟨c, hc, rfl, hunits⟩ := exists_chosen hpos
    exact Rules.mem_materials_of_chosen hc hid hunits
  obtain ⟨l, hlines, hquantity⟩ := Bill.linesOf_consolidate hmaterial
  have hbound := Bill.total_atLeast hmaterial hemitted (hchosen.trans_le hall) hlt.le
  refine ⟨l, hlines, ?_, ?_⟩
  · rw [Bill.line?_eq_head?]
    exact congrArg List.head? hlines
  · rw [hquantity, Double.toFloat_eq_ofCount, UInt64.toNat_ofNat_of_lt' (hlt.trans (by norm_num))]
    exact hbound.ofCount_le hlt

/-- Junction boxes under two headings, where the consumables hold another one per inverter. -/
def junctionPlan : Plan where
  inverters := [⟨"INV", 1, []⟩]
  electrical :=
    { combiner := some ⟨"JUNCTION-BOX-AP", 2⟩
      connectionBox := some ⟨"JUNCTION-BOX-AP", 1⟩ }

/-- The three junction boxes are one line, which may hold more than these. -/
theorem nothing_chosen_is_lost_junction :
    Text.isBlank "JUNCTION-BOX-AP" = false ∧ junctionPlan.chosenUnits "JUNCTION-BOX-AP" = 3 ∧
      ∃ l, Bill.linesOf (compile junctionPlan .empty .builtin).lines "JUNCTION-BOX-AP" = [l] ∧
        (3 : UInt64).toFloat ≤ l.quantity := by
  have hid : Text.isBlank "JUNCTION-BOX-AP" = false := by decide
  have hunits : junctionPlan.chosenUnits "JUNCTION-BOX-AP" = 3 := by decide
  obtain ⟨l, hlines, -, hquantity⟩ := nothing_chosen_is_lost junctionPlan .empty .builtin
    "JUNCTION-BOX-AP" hid (by rw [hunits]; norm_num) (by rw [hunits]; norm_num)
  rw [hunits] at hquantity
  exact ⟨hid, hunits, l, hlines, hquantity⟩

end SolarBill
