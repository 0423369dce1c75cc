import SolarBill.Proofs.Bill.Edits

/-!
# Reviews as maps that remember an order

A review stores a plain list.  Adding a line merges the whole list anew, setting a quantity changes
the first line of a material, and removing a material filters all its lines.  What they all amount
to is a map from materials to lines that remembers in which order the materials came:

* `LineMap` — such a map, and what an edit means for it, which line it adds, and what it reports;
* `Bill.consolidate_append_new`, `Bill.consolidate_append_old` — merging a line into lines of
  distinct materials puts it at the end or adds it to the one line of its material, and leaves all
  the others alone;
* `lines_edit` — one edit of a review is the edit of the map, and `report_eq`, what it reports: the
  comparison of lengths and the search that a review makes tell whether the map has the material;
* `editEach_map`, `reportEach_map` — editing with a catalogue for each edit, as a session edits when
  all these catalogues are its own;
* `review_is_line_map` — every list of edits of a compiled bill is that of the map.
-/

namespace SolarBill

/-- The material that an edit is about. -/
def Review.Edit.material : Review.Edit → String
  | .addManual id _ | .remove id | .setQuantity id _ => id

/-! ### Maps of lines -/

/-- Lines by their material, and the materials in the order in which they came. -/
structure LineMap where
  order : List String
  line? : String → Option Line
  distinct : order.Nodup
  mem_order : ∀ id, id ∈ order ↔ (line? id).isSome = true
  keyed : ∀ id l, line? id = some l → l.materialId = id

namespace LineMap

variable {m : LineMap} {l : Line} {id : String}

/-- The lines in order. -/
def toList (m : LineMap) : List Line :=
  m.order.filterMap m.line?

/-- The map of lines no two of which have the same material. -/
def ofLines (lines : List Line) (h : (lines.map Line.materialId).Nodup) : LineMap where
  order := lines.map Line.materialId
  line? id := lines.find? fun l => l.materialId == id
  distinct := h
  mem_order id := by
    simp [List.find?_isSome]
  keyed id l hl := by
    simpa using List.find?_some hl

/-- Put a line in the place of the one of its material, and at the end if there is none. -/
def put (m : LineMap) (l : Line) : LineMap where
  order := if (m.line? l.materialId).isSome then m.order else m.order ++ [l.materialId]
  line? := Function.update m.line? l.materialId (some l)
  distinct := by
    split_ifs with hold
    · exact m.distinct
    · rw [← m.mem_order] at hold
      exact m.distinct.append (List.nodup_singleton _) (by simpa using hold)
  mem_order id := by
    have hmem := m.mem_order id
    by_cases hid : id = l.materialId
    · subst hid
      split_ifs with hold
      · simp [m.mem_order, hold]
      · simp
    · rw [Function.update_of_ne hid]
      split_ifs with hold
      · exact hmem
      · simp [hmem, hid]
  keyed id o ho := by
    by_cases hid : id = l.materialId
    · subst hid
      rw [Function.update_self, Option.some.injEq] at ho
      rw [ho]
    · rw [Function.update_of_ne hid] at ho
      exact m.keyed id o ho

/-- Drop the line of a material; the others close ranks. -/
def erase (m : LineMap) (id : String) : LineMap where
  order := m.order.filter fun other => other != id
  line? := Function.update m.line? id none
  distinct := m.distinct.filter _
  mem_order other := by
    have hmem := m.mem_order other
    by_cases hother : other = id
    · simp [hother]
    · simp [hother, hmem]
  keyed other o ho := by
    by_cases hother : other = id
    · rw [hother, Function.update_self] at ho
      cases ho
    · rw [Function.update_of_ne hother] at ho
      exact m.keyed other o ho

/-- The words for a material: those of the catalogue, or its identifier where there are none. -/
def wordsFor (catalog : Catalog) (id : String) : String :=
  match catalog.get? id with
  | some material => if Text.isBlank material.description then id else material.description
  | none => id

/-- A new line added by hand, with the words and the category of the catalogue. -/
def added (catalog : Catalog) (id : String) (quantity : Float) : Line where
  materialId := id
  quantity := quantity
  description := wordsFor catalog id
  category := (catalog.get? id).elim "" Material.category
  isConfigured := false
  isManual := true

/-- The longer one of two descriptions, and of equally long ones the last in text order. -/
def longer (d e : String) : String :=
  if d.length < e.length ∨ d.length = e.length ∧ d < e then e else d

/-- **What an edit means.**  A line added by hand comes last if its material is new; otherwise the
line of the material has the sum of both quantities and the longer one of both descriptions, and is
the same in all else.  A quantity that is set replaces the one of the line, if there is one, and
removes the line if it is zero or below. -/
def edit (catalog : Catalog) (m : LineMap) : Review.Edit → LineMap
  | .addManual id quantity =>
    if quantity.isFinite ∧ 0.0 < quantity then
      match m.line? id with
      | none => m.put (added catalog id quantity)
      | some old =>
        m.put { old with
          quantity := old.quantity + quantity
          description := longer old.description (wordsFor catalog id) }
    else m
  | .remove id => m.erase id
  | .setQuantity id quantity =>
    if quantity ≤ 0.0 then m.erase id
    else
      match m.line? id with
      | none => m
      | some old => m.put { old with quantity := quantity }

/-- What an edit reports: whether there was a line to remove or to change. -/
def report (m : LineMap) : Review.Edit → Option Bool
  | .addManual _ _ => none
  | .remove id | .setQuantity id _ => some (m.line? id).isSome

/-- The map after edits, each under the catalogue of its time. -/
def editEach (m : LineMap) (edits : List (Catalog × Review.Edit)) : LineMap :=
  edits.foldl (fun m e => m.edit e.1 e.2) m

/-- The reports of these edits, one by one. -/
def reportEach (m : LineMap) : List (Catalog × Review.Edit) → List (Option Bool)
  | [] => []
  | e :: rest => m.report e.2 :: (m.edit e.1 e.2).reportEach rest

/-- What is added to a review by hand is a manual line, not a configured one. -/
theorem manual_eq (catalog : Catalog) (id : String) (quantity : Float) :
    Line.manual id quantity catalog = added catalog id quantity := by
  simp only [Line.manual, Line.derived, Line.describe, added, wordsFor]
  cases catalog.get? id <;> rfl

/-- The words that are preferred are the longer ones, or the later ones of the same length. -/
theorem longer_eq (d e : String) : Bill.preferred d e = longer d e := by
  simp only [Bill.preferred, Bill.prefers, longer, Bool.or_eq_true, Bool.and_eq_true,
    decide_eq_true_eq, beq_iff_eq, eq_comm (a := e.length)]

/-- Every material in the order has its line. -/
theorem exists_line (h : id ∈ m.order) : ∃ l, m.line? id = some l ∧ l.materialId = id := by
  obtain ⟨l, hl⟩ := Option.isSome_iff_exists.mp ((m.mem_order id).mp h)
  exact ⟨l, hl, m.keyed id l hl⟩

/-- The lines of the list are the lines of the map. -/
theorem mem_toList : l ∈ m.toList ↔ m.line? l.materialId = some l := by
  rw [toList, List.mem_filterMap]
  constructor
  · rintro ⟨id, -, hl⟩
    rw [m.keyed id l hl]
    exact hl
  · intro hl
    exact ⟨l.materialId, (m.mem_order _).mpr (by rw [hl]; rfl), hl⟩

/-- The list has the materials in their order. -/
theorem ids_toList (m : LineMap) : m.toList.map Line.materialId = m.order := by
  have hid : ∀ id ∈ m.order, (m.line? id).map Line.materialId = some id := by
    intro id h
    obtain ⟨l, hl, hkey⟩ := exists_line h
    rw [hl, Option.map_some, hkey]
  rw [toList, List.map_filterMap, List.filterMap_congr hid, List.filterMap_some]

/-- The materials of the lines are distinct. -/
theorem nodup_toList (m : LineMap) : (m.toList.map Line.materialId).Nodup := by
  rw [ids_toList]
  exact m.distinct

/-- A line of a material is found in the list exactly when the map has one. -/
theorem any_toList (m : LineMap) (id : String) :
    (m.toList.any fun l => l.materialId == id) = (m.line? id).isSome := by
  rw [Bool.eq_iff_iff, ← m.mem_order, ← ids_toList, List.mem_map, List.any_eq_true]
  simp only [beq_iff_eq]

/-- Lines of distinct materials are the list of their own map. -/
theorem toList_ofLines {lines : List Line} (h : (lines.map Line.materialId).Nodup) :
    (ofLines lines h).toList = lines := by
  have hfind : ∀ l ∈ lines, (lines.find? fun o => o.materialId == l.materialId) = some l := by
    intro l hl
    have hone := Bill.linesOf_eq_singleton h hl
    rw [← List.head?_filter, ← Bill.linesOf, hone, List.head?_cons]
  rw [toList, ofLines, List.filterMap_map]
  exact (List.filterMap_congr hfind).trans List.filterMap_some

/-- A line of a new material comes last. -/
theorem toList_put_new (h : m.line? l.materialId = none) : (m.put l).toList = m.toList ++ [l] := by
  have hnew : ¬ (m.line? l.materialId).isSome = true := by
    rw [h]
    exact Bool.false_ne_true
  have hold : ∀ id ∈ m.order, Function.update m.line? l.materialId (some l) id = m.line? id := by
    intro id hid
    apply Function.update_of_ne
    rintro rfl
    exact hnew ((m.mem_order _).mp hid)
  simp only [toList, put, if_neg hnew, List.filterMap_append, List.filterMap_congr hold,
    List.filterMap_cons, Function.update_self, List.filterMap_nil]

/-- A line of a material that is there already takes the place of its line. -/
theorem toList_put_old (h : (m.line? l.materialId).isSome = true) :
    (m.put l).toList = m.toList.map fun o => if o.materialId = l.materialId then l else o := by
  simp only [toList, put, if_pos h, List.map_filterMap]
  apply List.filterMap_congr
  intro id hid
  obtain ⟨o, ho, hkey⟩ := exists_line hid
  by_cases hplace : id = l.materialId
  · rw [ho, Option.map_some, if_pos (hkey.trans hplace), hplace, Function.update_self]
  · rw [Function.update_of_ne hplace, ho, Option.map_some, if_neg (hkey ▸ hplace)]

/-- Changing the line of a material, and not its material, changes no other line. -/
theorem toList_put_changed {old : Line} (h : m.line? id = some old) (f : Line → Line)
    (hf : (f old).materialId = id) :
    (m.put (f old)).toList = m.toList.map fun o => if o.materialId = id then f o else o := by
  rw [toList_put_old (by rw [hf, h]; rfl), hf]
  apply List.map_congr_left
  intro o ho
  split_ifs with hid
  · have hline := mem_toList.mp ho
    rw [hid, h, Option.some.injEq] at hline
    rw [hline]
  · rfl

/-- Erasing a material leaves out its lines. -/
theorem toList_erase (m : LineMap) (id : String) :
    (m.erase id).toList = m.toList.filter fun l => l.materialId != id := by
  simp only [toList, erase, List.filter_filterMap, List.filterMap_filter]
  apply List.filterMap_congr
  intro other hmem
  obtain ⟨o, ho, hkey⟩ := exists_line hmem
  rw [ho, Option.filter_some, hkey]
  split_ifs with hother
  · rw [Function.update_of_ne (by simpa using hother), ho]
  · rfl

/-- Putting a line leaves those of other materials alone. -/
theorem otherLines_put (m : LineMap) (l : Line) :
    Bill.otherLines (m.put l).toList l.materialId = Bill.otherLines m.toList l.materialId := by
  by_cases h : (m.line? l.materialId).isSome = true
  · rw [toList_put_old h]
    induction m.toList with
    | nil => rfl
    | cons o rest ih =>
        simp only [Bill.otherLines, List.map_cons] at ih ⊢
        by_cases ho : o.materialId = l.materialId
        · rw [if_pos ho, List.filter_cons_of_neg (by simp), List.filter_cons_of_neg (by simp [ho]),
            ih]
        · rw [if_neg ho, List.filter_cons_of_pos (by simpa using ho),
            List.filter_cons_of_pos (by simpa using ho), ih]
  · have hnew : m.line? l.materialId = none := by simpa using h
    rw [toList_put_new hnew, Bill.otherLines, List.filter_append,
      List.filter_cons_of_neg (by simp), List.filter_nil, List.append_nil]
    rfl

/-- Erasing a material leaves the lines of others alone. -/
theorem otherLines_erase (m : LineMap) (id : String) :
    Bill.otherLines (m.erase id).toList id = Bill.otherLines m.toList id := by
  rw [toList_erase, Bill.otherLines, List.filter_filter]
  apply List.filter_congr
  intro l _
  exact Bool.and_self _

/-- An edit leaves the lines of all other materials alone. -/
theorem otherLines_edit (m : LineMap) (catalog : Catalog) (e : Review.Edit) :
    Bill.otherLines (m.edit catalog e).toList e.material =
      Bill.otherLines m.toList e.material := by
  cases e with
  | addManual id quantity =>
      simp only [edit, Review.Edit.material]
      split_ifs
      · split
        · exact otherLines_put m (added catalog id quantity)
        · next old hline =>
          obtain rfl := m.keyed id old hline
          exact otherLines_put m _
      · rfl
  | remove id => exact otherLines_erase m id
  | setQuantity id quantity =>
      simp only [edit, Review.Edit.material]
      split_ifs
      · exact otherLines_erase m id
      · split
        · rfl
        · next old hline =>
          obtain rfl := m.keyed id old hline
          exact otherLines_put m { old with quantity := quantity }

end LineMap

/-! ### One line more -/

namespace Bill

variable {lines : List Line} {l : Line}

theorem merge?_singleton (l : Line) : merge? [l] = some l := by
  simp [merge?, Double.sum_sort_singleton]

/-- A line merged with one of its material and words adds up the quantities. -/
theorem merge?_pair (l added : Line) : merge? [l, added] =
    some { l with
      quantity := l.quantity + added.quantity
      description := preferred l.description added.description } := by
  simp [merge?, Double.sum_sort_pair]

theorem linesOf_append (xs ys : List Line) (id : String) :
    linesOf (xs ++ ys) id = linesOf xs id ++ linesOf ys id :=
  List.filter_append xs ys

/-- Lines of distinct materials stay as they are. -/
theorem consolidate_of_nodup (h : (lines.map Line.materialId).Nodup) :
    consolidate lines = lines := by
  have hmerge : ∀ l ∈ lines, merge? (linesOf lines l.materialId) = some l := by
    intro l hl
    rw [linesOf_eq_singleton h hl, merge?_singleton]
  rw [consolidate, materials_of_nodup h, List.filterMap_map]
  exact (List.filterMap_congr hmerge).trans List.filterMap_some

/-- Consolidating lines of distinct materials and one of a new material changes nothing. -/
theorem consolidate_append_new (h : (lines.map Line.materialId).Nodup)
    (hnew : l.materialId ∉ lines.map Line.materialId) :
    consolidate (lines ++ [l]) = lines ++ [l] := by
  apply consolidate_of_nodup
  rw [List.map_append]
  exact h.append (List.nodup_singleton _) (by simpa using hnew)

/-- Consolidating lines of distinct materials and one of a material among them adds it to the line
of this material. -/
theorem consolidate_append_old (h : (lines.map Line.materialId).Nodup)
    (hold : l.materialId ∈ lines.map Line.materialId) :
    consolidate (lines ++ [l]) = lines.map fun o =>
      if o.materialId = l.materialId then
        { o with
          quantity := o.quantity + l.quantity
          description := preferred o.description l.description }
      else o := by
  have hmaterials : materials (lines ++ [l]) = lines.map Line.materialId := by
    have hknown : [l.materialId].removeAll (lines.map Line.materialId) = [] := by
      rw [List.removeAll, List.filter_eq_nil_iff]
      simpa using hold
    rw [materials, List.map_append, List.map_singleton, List.eraseDups_append, hknown,
      ← materials, materials_of_nodup h, List.eraseDups_nil, List.append_nil]
  have hmerge : ∀ o ∈ lines, merge? (linesOf (lines ++ [l]) o.materialId) = some
      (if o.materialId = l.materialId then
        { o with
          quantity := o.quantity + l.quantity
          description := preferred o.description l.description }
      else o) := by
    intro o ho
    rw [linesOf_append, linesOf_eq_singleton h ho]
    split_ifs with hid
    · rw [linesOf, List.filter_cons_of_pos (by simpa using hid.symm), List.filter_nil]
      exact merge?_pair o l
    · rw [linesOf, List.filter_cons_of_neg (by simpa using Ne.symm hid), List.filter_nil,
        List.append_nil]
      exact merge?_singleton o
  rw [consolidate, hmaterials, List.filterMap_map]
  exact (List.filterMap_congr hmerge).trans (congrFun List.filterMap_eq_map' lines)

end Bill

/-! ### Edits -/

namespace Review

variable {r : Review} {m : LineMap}

/-- Where lines have distinct materials, the first line of a material is the only one. -/
theorem overwrite_eq_map {lines : List Line} (h : (lines.map Line.materialId).Nodup) (id : String)
    (quantity : Float) :
    overwrite id quantity lines =
      lines.map fun o => if o.materialId = id then { o with quantity := quantity } else o := by
  induction lines with
  | nil => rfl
  | cons first rest ih =>
      rw [List.map_cons, List.nodup_cons] at h
      rw [overwrite, List.map_cons]
      by_cases hfirst : first.materialId = id
      · have hrest : ∀ o ∈ rest,
            (if o.materialId = id then { o with quantity := quantity } else o) = o := by
          intro o ho
          apply if_neg
          intro heq
          exact h.1 (hfirst.trans heq.symm ▸ List.mem_map_of_mem ho)
        rw [if_pos (beq_iff_eq.mpr hfirst), if_pos hfirst, List.map_congr_left hrest, List.map_id']
      · rw [if_neg (by simpa using hfirst), if_neg hfirst, ih h.2]

/-- The review has a line of a material exactly when the map has one. -/
theorem hasLine_eq (h : r.lines = m.toList) (id : String) :
    r.hasLine id = (m.line? id).isSome := by
  rw [hasLine, h, LineMap.any_toList]

/-- Removing a material makes the review shorter exactly if there is a line of it. -/
theorem removes_eq (r : Review) (id : String) : r.removes id = r.hasLine id := by
  rw [removes, remove, hasLine, Bool.eq_iff_iff, bne_iff_ne, ne_eq, List.length_filter_eq_length_iff,
    List.any_eq_true]
  simp

/-- Setting a quantity finds a line exactly if there is one. -/
theorem setsQuantity_eq (r : Review) (id : String) (quantity : Float) :
    r.setsQuantity id quantity = r.hasLine id := by
  have hfind : (r.lines.find? fun l => l.materialId == id).isSome = r.hasLine id := by
    rw [Bool.eq_iff_iff, List.find?_isSome, hasLine, List.any_eq_true]
  rw [setsQuantity, removes_eq, hfind, ite_self]

/-- Edits report what the map knows. -/
theorem report_eq (h : r.lines = m.toList) (e : Edit) : r.report e = m.report e := by
  cases e with
  | addManual id quantity => rfl
  | remove id => rw [report, removes_eq, hasLine_eq h, LineMap.report]
  | setQuantity id quantity => rw [report, setsQuantity_eq, hasLine_eq h, LineMap.report]

/-- Adding by hand, in the review and in the map. -/
theorem lines_addManual (h : r.lines = m.toList) (id : String) (quantity : Float)
    (catalog : Catalog) :
    (r.addManual id quantity catalog).lines =
      (m.edit catalog (.addManual id quantity)).toList := by
  have hpositive : Double.isPositive quantity = true ↔ quantity.isFinite ∧ 0.0 < quantity := by
    rw [Double.isPositive, Bool.and_eq_true, decide_eq_true_eq]
  simp only [addManual, LineMap.edit, hpositive, LineMap.manual_eq]
  split_ifs
  · have hmem : id ∈ m.toList.map Line.materialId ↔ (m.line? id).isSome = true := by
      rw [LineMap.ids_toList, m.mem_order]
    simp only [h]
    cases hline : m.line? id with
    | none =>
        have hnew : id ∉ m.toList.map Line.materialId := by
          rw [hmem, hline]
          exact Bool.false_ne_true
        rw [Bill.consolidate_append_new m.nodup_toList hnew]
        exact (LineMap.toList_put_new hline).symm
    | some old =>
        have hold : id ∈ m.toList.map Line.materialId := by
          rw [hmem, hline]
          rfl
        rw [Bill.consolidate_append_old m.nodup_toList hold]
        simp only [LineMap.longer_eq]
        exact (LineMap.toList_put_changed hline
          (fun o => { o with
            quantity := o.quantity + quantity
            description := LineMap.longer o.description (LineMap.wordsFor catalog id) })
          (m.keyed id old hline)).symm
  · exact h

/-- Removing a material, in the review and in the map. -/
theorem lines_remove (h : r.lines = m.toList) (id : String) :
    (r.remove id).lines = (m.erase id).toList := by
  rw [LineMap.toList_erase, ← h]
  rfl

/-- Setting a quantity, in the review and in the map. -/
theorem lines_setQuantity (h : r.lines = m.toList) (id : String) (quantity : Float)
    (catalog : Catalog) :
    (r.setQuantity id quantity).lines =
      (m.edit catalog (.setQuantity id quantity)).toList := by
  simp only [setQuantity, LineMap.edit]
  split_ifs with hle
  · exact lines_remove h id
  · cases hline : m.line? id with
    | none =>
        have hnone : ¬ r.hasLine id = true := by
          rw [hasLine_eq h, hline]
          exact Bool.false_ne_true
        exact (overwrite_of_not_any quantity hnone).trans h
    | some old =>
        simp only [h]
        rw [overwrite_eq_map m.nodup_toList]
        exact (LineMap.toList_put_changed hline _ (m.keyed id old hline)).symm

/-- **One edit** of a review is the edit of the map of its lines. -/
theorem lines_edit (h : r.lines = m.toList) (catalog : Catalog) (e : Edit) :
    (r.edit catalog e).lines = (m.edit catalog e).toList := by
  cases e with
  | addManual id quantity => exact lines_addManual h id quantity catalog
  | remove id => exact lines_remove h id
  | setQuantity id quantity => exact lines_setQuantity h id quantity catalog

/-! ### Lists of edits -/

/-- The review after edits, each under the catalogue of its time. -/
def editEach (r : Review) (edits : List (Catalog × Edit)) : Review :=
  edits.foldl (fun r e => r.edit e.1 e.2) r

/-- The reports of these edits, one by one. -/
def reportEach (r : Review) : List (Catalog × Edit) → List (Option Bool)
  | [] => []
  | e :: rest => r.report e.2 :: (r.edit e.1 e.2).reportEach rest

/-- Edits under one catalogue. -/
theorem editEach_map (catalog : Catalog) (r : Review) (edits : List Edit) :
    r.editEach (edits.map fun e => (catalog, e)) = r.editAll catalog edits := by
  rw [editEach, List.foldl_map]
  rfl

/-- With one catalogue for all edits, the reports are those of the edits in turn. -/
theorem reportEach_map (catalog : Catalog) (r : Review) (edits : List Edit) :
    r.reportEach (edits.map fun e => (catalog, e)) = r.reports catalog edits := by
  induction edits generalizing r with
  | nil => rfl
  | cons e rest ih =>
      rw [List.map_cons, reportEach, reports]
      exact congrArg _ (ih (r.edit catalog e))

/-- A compiled bill has one line for each material. -/
theorem nodup_compile (plan : Plan) (catalog : Catalog) (coefficients : Coefficients) :
    ((ofBill (compile plan catalog coefficients)).lines.map Line.materialId).Nodup :=
  Bill.nodup_consolidate _

/-- Edits in turn are the edits of the map, each with its own catalogue. -/
theorem lines_editEach (h : r.lines = m.toList) (edits : List (Catalog × Edit)) :
    (r.editEach edits).lines = (m.editEach edits).toList := by
  induction edits generalizing r m with
  | nil => exact h
  | cons e rest ih => exact ih (lines_edit h e.1 e.2)

theorem reportEach_eq (h : r.lines = m.toList) (edits : List (Catalog × Edit)) :
    r.reportEach edits = m.reportEach edits := by
  induction edits generalizing r m with
  | nil => rfl
  | cons e rest ih =>
      rw [reportEach, LineMap.reportEach, report_eq h, ih (lines_edit h e.1 e.2)]

/-- The warnings of the bill are there after all edits. -/
theorem warnings_editEach (r : Review) (edits : List (Catalog × Edit)) :
    (r.editEach edits).warnings = r.warnings := by
  induction edits generalizing r with
  | nil => rfl
  | cons e rest ih => exact (ih (r.edit e.1 e.2)).trans (warnings_edit e.1 r e.2)

/-- **A review is an ordered map.**  However the lines of a compiled bill are edited, with whatever
quantities and under whatever catalogues, they are those of the map that is edited in the same way,
in its order, and the edits report the same.  No two lines ever have the same material, the warnings
are those of the bill, and the next edit leaves every line of another material as it is. -/
theorem review_is_line_map (plan : Plan) (catalog : Catalog) (coefficients : Coefficients)
    (edits : List (Catalog × Edit)) :
    let review := ofBill (compile plan catalog coefficients)
    let map := LineMap.ofLines review.lines (nodup_compile plan catalog coefficients)
    (review.editEach edits).lines = (map.editEach edits).toList ∧
    review.reportEach edits = map.reportEach edits ∧
    ((review.editEach edits).lines.map Line.materialId).Nodup ∧
    (review.editEach edits).warnings = review.warnings ∧
    ∀ (others : Catalog) (e : Edit),
      Bill.otherLines ((review.editEach edits).edit others e).lines e.material =
        Bill.otherLines (review.editEach edits).lines e.material := by
  intro review map
  have hstart : review.lines = map.toList := (LineMap.toList_ofLines _).symm
  have hlines := lines_editEach hstart edits
  refine ⟨hlines, reportEach_eq hstart edits, ?_, warnings_editEach review edits, ?_⟩
  · rw [hlines]
    exact LineMap.nodup_toList _
  · intro others e
    rw [lines_edit hlines, hlines]
    exact LineMap.otherLines_edit _ others e

/-- A plan of two modules. -/
def modulesPlan : Plan :=
  { module := some "MOD", layout := { portrait := [2] } }

/-- Coefficients without materials, so that a bill has the selected materials only. -/
def bareRules : Coefficients where
  version := ""
  mountingRatio := 1.0
  dc := { connectorPairsPerString := 2.0, cableLengthPerString := 25.0 }
  ac := { cableLengthPerDevice := 15.0 }
  sizing := []
  grounding := { multiplier := 1.0 }
  labels := { quantity := 1.0 }

/-- The catalogue of the review knows the module under a longer name than the bill. -/
def reviewCatalog : Catalog :=
  .ofList
    [{ id := "MOD", description := "Module 400 W", category := "module" },
      { id := "TIE", description := "Cable tie", category := "consumable" }]

/-- Ties are added and then counted again, a module is added to the two of the bill, and a rod is
added, removed, removed again, and counted when it is gone. -/
def siteEdits : List (Catalog × Edit) :=
  [(reviewCatalog, .addManual "TIE" 50.0), (reviewCatalog, .addManual "MOD" 1.0),
    (reviewCatalog, .addManual "ROD" 1.0), (reviewCatalog, .setQuantity "TIE" 12.5),
    (.empty, .remove "ROD"), (.empty, .remove "ROD"), (.empty, .setQuantity "ROD" 2.0)]

/-- The module stays a configured line without a category, and the ties are a manual line with the
category of the catalogue. -/
theorem review_is_line_map_site :
    ((ofBill (compile modulesPlan .empty bareRules)).editEach siteEdits).lines =
        [{ materialId := "MOD", quantity := 3.0, description := "Module 400 W",
           isConfigured := true },
          { materialId := "TIE", quantity := 12.5, description := "Cable tie",
            category := "consumable", isManual := true }] ∧
      (ofBill (compile modulesPlan .empty bareRules)).reportEach siteEdits =
        [none, none, none, some true, some true, some false, some false] := by
  obtain ⟨hlines, hreports, -⟩ := review_is_line_map modulesPlan .empty bareRules siteEdits
  rw [hlines, hreports]
  exact ⟨by decide +kernel, by decide +kernel⟩

end Review

end SolarBill
