import SolarBill.Proofs.Bill.Quantities
import SolarBill.Proofs.Number.Order

/-!
# The lines of a compiled bill

Consolidating keeps every material, once, in order of first appearance (`Bill.ids_consolidate`), and
the one line of a material has the total of its quantities (`Bill.linesOf_consolidate`).

A line that the rules emit says of its material what the catalogue says (`Line.OfCatalog`): it is
the derived line of its material and quantity, up to the flag of a configured one.  Lines of one
material then differ in quantity and flag only, so merging them is the sum of the quantities under
the flag of the first one (`Bill.merge?_ofCatalog`).  What holds of every line that the rules emit
and of every line of a bill is put together in `lines_are_usable`.
-/

namespace SolarBill

/-! ### One line per material -/

namespace Bill

/-- The total of a material, as consolidating computes it. -/
def total (lines : List Line) (id : String) : Float :=
  Double.sum (Double.sort ((linesOf lines id).map Line.quantity))

/-- The lines of all materials but one, in their order. -/
def otherLines (lines : List Line) (id : String) : List Line :=
  lines.filter fun l => !(l.materialId == id)

/-- The materials of lines are those that some line has. -/
theorem mem_materials {lines : List Line} {id : String} :
    id ∈ materials lines ↔ ∃ l ∈ lines, l.materialId = id := by
  rw [materials, List.mem_eraseDups, List.mem_map]

/-- The lines of a material. -/
theorem mem_linesOf {lines : List Line} {id : String} {l : Line} :
    l ∈ linesOf lines id ↔ l ∈ lines ∧ l.materialId = id := by
  rw [linesOf, List.mem_filter, beq_iff_eq]

theorem linesOf_ne_nil {lines : List Line} {id : String} (h : id ∈ materials lines) :
    linesOf lines id ≠ [] := by
  obtain ⟨l, hl⟩ := mem_materials.mp h
  exact List.ne_nil_of_mem (mem_linesOf.mpr hl)

/-- Some lines have a merged one. -/
theorem exists_merge {lines : List Line} (h : lines ≠ []) : ∃ l, merge? lines = some l := by
  cases lines with
  | nil => exact absurd rfl h
  | cons first rest => exact ⟨_, rfl⟩

/-- The first material, and those of the lines that are not of it. -/
theorem materials_cons (l : Line) (rest : List Line) :
    materials (l :: rest) = l.materialId :: materials (otherLines rest l.materialId) := by
  rw [materials, materials, List.map_cons, List.eraseDups_cons, List.filter_map]
  rfl

/-- Leaving one material out leaves the lines of all others. -/
theorem linesOf_otherLines {lines : List Line} {id other : String}
    (h : other ∈ materials (otherLines lines id)) :
    other ≠ id ∧ linesOf (otherLines lines id) other = linesOf lines other := by
  obtain ⟨o, ho, rfl⟩ := mem_materials.mp h
  have hne : o.materialId ≠ id := by
    simpa using (List.mem_filter.mp ho).2
  refine ⟨hne, ?_⟩
  rw [linesOf, otherLines, List.filter_filter, linesOf]
  apply List.filter_congr
  intro l _
  by_cases hl : l.materialId = o.materialId
  · simp [hl, hne]
  · simp [hl]

/-- The line of the first material, and the consolidated lines of the other materials. -/
theorem consolidate_cons (l : Line) (rest : List Line) :
    ∃ merged, merge? (linesOf (l :: rest) l.materialId) = some merged ∧
      consolidate (l :: rest) = merged :: consolidate (otherLines rest l.materialId) := by
  have hfirst : l.materialId ∈ materials (l :: rest) := by
    rw [materials_cons]
    exact List.mem_cons_self
  obtain ⟨merged, hmerge⟩ := exists_merge (linesOf_ne_nil hfirst)
  have hothers : ∀ id ∈ materials (otherLines rest l.materialId),
      merge? (linesOf (l :: rest) id) = merge? (linesOf (otherLines rest l.materialId) id) := by
    intro id hid
    obtain ⟨hne, hlines⟩ := linesOf_otherLines hid
    rw [hlines, linesOf, List.filter_cons_of_neg (by simpa using hne.symm)]
    rfl
  refine ⟨merged, hmerge, ?_⟩
  rw [consolidate, materials_cons, List.filterMap_cons, hmerge, List.filterMap_congr hothers]
  rfl

/-- The line that a material is merged into has this material. -/
theorem materialId_of_merge? {lines : List Line} {id : String} {l : Line}
    (h : merge? (linesOf lines id) = some l) : l.materialId = id := by
  cases hlines : linesOf lines id with
  | nil =>
      rw [hlines] at h
      cases h
  | cons first rest =>
      have hfirst : first ∈ linesOf lines id := by
        rw [hlines]
        exact List.mem_cons_self
      rw [hlines, merge?, Option.some.injEq] at h
      rw [← h]
      exact (mem_linesOf.mp hfirst).2

/-- **Consolidating keeps every material**, once, in order of first appearance. -/
theorem ids_consolidate (lines : List Line) :
    (consolidate lines).map Line.materialId = materials lines := by
  have hid : ∀ id ∈ materials lines,
      (merge? (linesOf lines id)).map Line.materialId = some id := by
    intro id h
    obtain ⟨l, hmerge⟩ := exists_merge (linesOf_ne_nil h)
    rw [hmerge, Option.map_some, materialId_of_merge? hmerge]
  rw [consolidate, List.map_filterMap, List.filterMap_congr hid, List.filterMap_some]

/-- Each material is named once. -/
theorem nodup_materials (lines : List Line) : (materials lines).Nodup := by
  induction hn : lines.length using Nat.strong_induction_on generalizing lines with
  | _ n ih =>
    cases lines with
    | nil => exact List.nodup_nil
    | cons l rest =>
        have hlength : (otherLines rest l.materialId).length ≤ rest.length :=
          List.length_filter_le _ rest
        rw [materials_cons, List.nodup_cons]
        refine ⟨fun hmem => (linesOf_otherLines hmem).1 rfl, ?_⟩
        exact ih _ (by rw [← hn, List.length_cons]; omega) _ rfl

/-- Merged lines have distinct materials. -/
theorem nodup_consolidate (lines : List Line) :
    ((consolidate lines).map Line.materialId).Nodup := by
  rw [ids_consolidate]
  exact nodup_materials lines

/-- Where no material has two lines, the materials are those of the lines. -/
theorem materials_of_nodup {lines : List Line} (h : (lines.map Line.materialId).Nodup) :
    materials lines = lines.map Line.materialId := by
  induction lines with
  | nil => rfl
  | cons l rest ih =>
      rw [List.map_cons, List.nodup_cons] at h
      have hothers : otherLines rest l.materialId = rest := by
        rw [otherLines, List.filter_eq_self]
        intro o ho
        have hne : o.materialId ≠ l.materialId := fun heq => h.1 (heq ▸ List.mem_map_of_mem ho)
        simpa using hne
      rw [materials_cons, hothers, ih h.2, List.map_cons]

/-- The only line of a material, where no material has two. -/
theorem linesOf_eq_singleton {lines : List Line} {l : Line}
    (h : (lines.map Line.materialId).Nodup) (hl : l ∈ lines) :
    linesOf lines l.materialId = [l] := by
  induction lines with
  | nil => cases hl
  | cons first rest ih =>
      rw [List.map_cons, List.nodup_cons] at h
      have hfirst : ∀ o ∈ rest, o.materialId ≠ first.materialId := fun o ho heq =>
        h.1 (heq ▸ List.mem_map_of_mem ho)
      rcases List.mem_cons.mp hl with rfl | hl
      · rw [linesOf, List.filter_cons_of_pos (by simp), List.filter_eq_nil_iff.mpr]
        intro o ho
        simpa using hfirst o ho
      · rw [linesOf, List.filter_cons_of_neg (by simpa using (hfirst l hl).symm)]
        exact ih h.2 hl

/-- The line of a material in a consolidated list, and no other. -/
theorem linesOf_consolidate {lines : List Line} {id : String} (h : id ∈ materials lines) :
    ∃ l, linesOf (consolidate lines) id = [l] ∧ l.quantity = total lines id := by
  obtain ⟨l, hmerge⟩ := exists_merge (linesOf_ne_nil h)
  have hl : l ∈ consolidate lines := List.mem_filterMap.mpr ⟨id, h, hmerge⟩
  refine ⟨l, ?_, merge?_quantity hmerge⟩
  rw [← materialId_of_merge? hmerge]
  exact linesOf_eq_singleton (nodup_consolidate lines) hl

/-- The line of a material in a bill is the first of its lines. -/
theorem line?_eq_head? (b : Bill) (id : String) : b.line? id = (linesOf b.lines id).head? :=
  List.head?_filter.symm

end Bill

/-! ### What the catalogue says of a line -/

/-- Every material that has a name is described in words. -/
theorem Line.isBlank_describe {id : String} (h : Text.isBlank id = false) (m : Option Material) :
    Text.isBlank (Line.describe id m) = false := by
  cases m with
  | none => exact h
  | some m =>
      simp only [Line.describe]
      split_ifs with hblank
      · exact h
      · exact Bool.eq_false_iff.mpr hblank

/-- A line that names a material and says of it what the catalogue says. -/
structure Line.OfCatalog (catalog : Catalog) (l : Line) : Prop where
  named : Text.isBlank l.materialId = false
  description : l.description = Line.describe l.materialId (catalog.get? l.materialId)
  category : l.category = ((catalog.get? l.materialId).map Material.category).getD ""
  notManual : l.isManual = false

namespace Line.OfCatalog

variable {catalog : Catalog} {l : Line}

/-- A line of a catalogue has a description. -/
theorem described (h : l.OfCatalog catalog) : Text.isBlank l.description = false := by
  rw [h.description]
  exact Line.isBlank_describe h.named _

/-- Nothing but the material, the quantity and one flag distinguishes such lines. -/
theorem eq_derived (h : l.OfCatalog catalog) :
    l = { Line.derived l.materialId l.quantity catalog with isConfigured := l.isConfigured } := by
  obtain ⟨-, hdescription, hcategory, hmanual⟩ := h
  cases l
  simp only [Line.derived] at *
  simp only [← hdescription, ← hcategory, hmanual]

/-- Derived and configured lines have the words of the catalogue. -/
theorem of_derived {id : String} (h : Text.isBlank id = false) (quantity : Float)
    (isConfigured : Bool) :
    Line.OfCatalog catalog
      { Line.derived id quantity catalog with isConfigured := isConfigured } :=
  ⟨h, rfl, rfl, rfl⟩

end Line.OfCatalog

/-- Every line that the rules emit is the catalogue's, of a finite quantity above zero. -/
theorem Rules.emitted_ofCatalog {i : Rules.Inputs} {l : Line} (h : l ∈ Rules.lines i) :
    l.OfCatalog i.catalog ∧ Double.isPositive l.quantity = true := by
  obtain ⟨id, quantity, hid, hpos, rfl | rfl⟩ := Rules.emitted_lines i l h
  · exact ⟨Line.OfCatalog.of_derived hid quantity true, hpos⟩
  · exact ⟨Line.OfCatalog.of_derived hid quantity false, hpos⟩

/-! ### Merging lines of one material -/

namespace Bill

/-- Words that agree are preferred to themselves. -/
theorem foldl_preferred {description : String} {others : List String}
    (h : ∀ d ∈ others, d = description) : others.foldl preferred description = description := by
  induction others with
  | nil => rfl
  | cons d rest ih =>
      obtain rfl := h d List.mem_cons_self
      rw [List.foldl_cons, preferred, ite_self]
      exact ih fun o ho => h o (List.mem_cons_of_mem d ho)

/-- Merged lines of one material: the sum of their quantities, under the flag of the first. -/
theorem merge?_ofCatalog {catalog : Catalog} {id : String} {lines : List Line}
    (h : ∀ l ∈ lines, l.OfCatalog catalog) (hid : ∀ l ∈ lines, l.materialId = id) :
    merge? lines = lines.head?.map fun first =>
      { Line.derived id (Double.sum (Double.sort (lines.map Line.quantity))) catalog with
        isConfigured := first.isConfigured } := by
  cases lines with
  | nil => rfl
  | cons first rest =>
      have hfirst := h first List.mem_cons_self
      obtain rfl := hid first List.mem_cons_self
      have hdescriptions : ∀ d ∈ rest.map Line.description, d = first.description := by
        intro d hd
        obtain ⟨l, hl, rfl⟩ := List.mem_map.mp hd
        rw [(h l (List.mem_cons_of_mem first hl)).description,
          hid l (List.mem_cons_of_mem first hl), hfirst.description]
      simp only [merge?, foldl_preferred hdescriptions, List.head?_cons, Option.map_some,
        Option.some.injEq]
      rw [hfirst.eq_derived]
      rfl

/-- Flag of the first line of a material. -/
def firstFlag? (lines : List Line) (id : String) : Option Bool :=
  (linesOf lines id).head?.map Line.isConfigured

/-- The consolidated line of a material: the total of its quantities, under the first flag. -/
theorem merge?_linesOf {catalog : Catalog} {lines : List Line}
    (h : ∀ l ∈ lines, l.OfCatalog catalog) (id : String) :
    merge? (linesOf lines id) = (firstFlag? lines id).map fun flag =>
      { Line.derived id (total lines id) catalog with isConfigured := flag } := by
  rw [merge?_ofCatalog (fun l hl => h l (mem_linesOf.mp hl).1) (fun l hl => (mem_linesOf.mp hl).2),
    firstFlag?, Option.map_map]
  rfl

/-- A consolidated line of the catalogue's lines is the catalogue's again. -/
theorem consolidate_ofCatalog {catalog : Catalog} {lines : List Line}
    (h : ∀ l ∈ lines, l.OfCatalog catalog) : ∀ l ∈ consolidate lines, l.OfCatalog catalog := by
  intro l hl
  obtain ⟨id, -, hmerge⟩ := List.mem_filterMap.mp hl
  rw [merge?_linesOf h, Option.map_eq_some_iff] at hmerge
  obtain ⟨flag, hflag, rfl⟩ := hmerge
  obtain ⟨first, hfirst, -⟩ := Option.map_eq_some_iff.mp hflag
  obtain ⟨hmem, rfl⟩ := mem_linesOf.mp (List.mem_of_head? hfirst)
  exact Line.OfCatalog.of_derived (h first hmem).named _ _

end Bill

/-- The lines of a bill are the merged lines of all rules. -/
theorem compile_lines (plan : Plan) (catalog : Catalog) (coefficients : Coefficients) :
    (compile plan catalog coefficients).lines =
      Bill.consolidate (Rules.lines ⟨plan, catalog, coefficients⟩) :=
  rfl

/-- A compiled bill has a line of every material that the rules list. -/
theorem compile_line? {plan : Plan} {catalog : Catalog} {coefficients : Coefficients} {id : String}
    (h : id ∈ Bill.materials (Rules.lines ⟨plan, catalog, coefficients⟩)) :
    ((compile plan catalog coefficients).line? id).isSome = true := by
  obtain ⟨l, hlines, -⟩ := Bill.linesOf_consolidate h
  rw [Bill.line?_eq_head?, compile_lines, hlines]
  rfl

/-- **Lines that can be used.**  Whatever the plan, the catalogue and the coefficients are, every
line of the rules names a material, has a finite quantity above zero, is not a manual one and says
what the catalogue says, not nothing.  The bill has one line for each of their materials, in the
order of the rules, and its lines are such lines too, though a sum of quantities may be infinite. -/
theorem lines_are_usable (plan : Plan) (catalog : Catalog) (coefficients : Coefficients) :
    (∀ l ∈ (Rules.draft plan catalog coefficients).lines,
      l.OfCatalog catalog ∧ Text.isBlank l.description = false ∧
        l.quantity.isFinite = true ∧ 0.0 < l.quantity) ∧
    (compile plan catalog coefficients).lines.map Line.materialId =
      Bill.materials (Rules.draft plan catalog coefficients).lines ∧
    ((compile plan catalog coefficients).lines.map Line.materialId).Nodup ∧
    (∀ l ∈ (compile plan catalog coefficients).lines,
      l.OfCatalog catalog ∧ Text.isBlank l.description = false ∧
        0.0 < l.quantity ∧ l.quantity.isNaN = false) := by
  have hemitted := fun l (hl : l ∈ (Rules.draft plan catalog coefficients).lines) =>
    Rules.emitted_ofCatalog hl
  have hids : (compile plan catalog coefficients).lines.map Line.materialId =
      Bill.materials (Rules.draft plan catalog coefficients).lines := Bill.ids_consolidate _
  refine ⟨?_, hids, ?_, ?_⟩
  · intro l hl
    obtain ⟨hcatalog, hpos⟩ := hemitted l hl
    exact ⟨hcatalog, hcatalog.described, (Double.isPositive_iff.mp hpos).1,
      Double.pos_of_isPositive hpos⟩
  · rw [hids]
    exact Bill.nodup_materials _
  · intro l hl
    have hcatalog := Bill.consolidate_ofCatalog (fun o ho => (hemitted o ho).1) l hl
    have hpos := compile_pos plan catalog coefficients l hl
    exact ⟨hcatalog, hcatalog.described, hpos,
      Bool.eq_false_iff.mpr (Double.NonNegative.not_isNaN_of_pos hpos)⟩

end SolarBill
