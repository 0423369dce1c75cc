import SolarBill.Proofs.Bill.LineMap
import SolarBill.Proofs.Number.Integer

/-!
# Consolidating in steps

A consolidated list may be consolidated again with further lines, as a review does with every line
that is added by hand.  A merged line then stands for its group.  Its place, its category and its
flags are those of the first line of the group, and its description is the preferred one of the
group, so for these it makes no difference.  For the quantity it makes none where sums are exact:

* `Line.AddUp` — whole quantities that are small enough, material by material;
* `merge?_absorb` — the merged line of such a group stands for the group;
* `consolidate_in_steps` — consolidating in between does not change the result.
-/

namespace SolarBill

/-! ### Quantities that add up -/

/-- All quantities are whole numbers, and for every material their absolute values together stay
below `2 ^ 53`. -/
structure Line.AddUp (lines : List Line) : Prop where
  whole : ∀ l ∈ lines, Double.IsInteger l.quantity
  small : ∀ id, Double.absSum ((Bill.linesOf lines id).map Line.quantity) < 2 ^ 53

/-- It is enough that all quantities together are small. -/
theorem Line.AddUp.of_total {lines : List Line} (whole : ∀ l ∈ lines, Double.IsInteger l.quantity)
    (small : Double.absSum (lines.map Line.quantity) < 2 ^ 53) : AddUp lines where
  whole := whole
  small id := by
    refine lt_of_le_of_lt ?_ small
    exact Double.absSum_sublist (List.filter_sublist.map Line.quantity)

theorem Line.AddUp.left {xs ys : List Line} (h : AddUp (xs ++ ys)) : AddUp xs where
  whole l hl := h.whole l (List.mem_append_left ys hl)
  small id := by
    have hsmall := h.small id
    rw [Bill.linesOf_append, List.map_append, Double.absSum_append] at hsmall
    have hrest := Double.absSum_nonneg ((Bill.linesOf ys id).map Line.quantity)
    linarith

namespace Bill

variable {xs ys group rest : List Line} {l : Line}

/-- **A merged line stands for its group.** -/
theorem merge?_absorb (hmerge : merge? group = some l)
    (hwhole : ∀ q ∈ (group ++ rest).map Line.quantity, Double.IsInteger q)
    (hsmall : Double.absSum ((group ++ rest).map Line.quantity) < 2 ^ 53) :
    merge? (l :: rest) = merge? (group ++ rest) := by
  cases group with
  | nil => cases hmerge
  | cons first others =>
      have hquantity : Double.sum (Double.sort ((l :: rest).map Line.quantity)) =
          Double.sum (Double.sort ((first :: others ++ rest).map Line.quantity)) := by
        rw [List.map_append] at hwhole hsmall ⊢
        rw [List.map_cons, merge?_quantity hmerge]
        exact Double.sum_sort_absorb hwhole hsmall
      rw [merge?, Option.some.injEq] at hmerge
      rw [merge?, hquantity, ← hmerge, List.cons_append, merge?, List.map_append, List.foldl_append]

/-- The line of a material in a consolidated list, if it has any lines. -/
theorem linesOf_consolidate_eq (lines : List Line) (id : String) :
    linesOf (consolidate lines) id = (merge? (linesOf lines id)).toList := by
  by_cases hid : id ∈ materials lines
  · obtain ⟨l, hmerge⟩ := exists_merge (linesOf_ne_nil hid)
    have hl : l ∈ consolidate lines := List.mem_filterMap.mpr ⟨id, hid, hmerge⟩
    rw [hmerge, ← materialId_of_merge? hmerge]
    exact linesOf_eq_singleton (nodup_consolidate lines) hl
  · have hnone : ∀ others : List Line, id ∉ materials others → linesOf others id = [] := by
      intro others hothers
      rw [linesOf, List.filter_eq_nil_iff]
      intro l hl heq
      exact hothers (mem_materials.mpr ⟨l, hl, beq_iff_eq.mp heq⟩)
    have hconsolidated : id ∉ materials (consolidate lines) := by
      rw [materials_of_nodup (nodup_consolidate lines), ids_consolidate]
      exact hid
    rw [hnone lines hid, hnone _ hconsolidated]
    rfl

/-- Consolidating in between keeps the materials and their order. -/
theorem materials_consolidate_append (xs ys : List Line) :
    materials (consolidate xs ++ ys) = materials (xs ++ ys) := by
  have hids : ((consolidate xs).map Line.materialId).eraseDups =
      (xs.map Line.materialId).eraseDups := by
    rw [← materials, materials_of_nodup (nodup_consolidate xs), ids_consolidate, materials]
  have hknown : (ys.map Line.materialId).removeAll ((consolidate xs).map Line.materialId) =
      (ys.map Line.materialId).removeAll (xs.map Line.materialId) := by
    rw [List.removeAll, List.removeAll]
    apply List.filter_congr
    intro id _
    rw [Bool.eq_iff_iff, ids_consolidate, materials]
    simp only [Bool.not_eq_true', ← Bool.not_eq_true, List.elem_eq_mem, decide_eq_true_eq,
      List.mem_eraseDups]
  rw [materials, materials, List.map_append, List.map_append, List.eraseDups_append,
    List.eraseDups_append, hids, hknown]

/-- Lines that are consolidated before others are added are consolidated with them in the end. -/
theorem consolidate_append (h : Line.AddUp (xs ++ ys)) :
    consolidate (consolidate xs ++ ys) = consolidate (xs ++ ys) := by
  change (materials (consolidate xs ++ ys)).filterMap (fun id =>
      merge? (linesOf (consolidate xs ++ ys) id)) =
    (materials (xs ++ ys)).filterMap fun id => merge? (linesOf (xs ++ ys) id)
  rw [materials_consolidate_append]
  apply List.filterMap_congr
  intro id _
  rw [linesOf_append, linesOf_append, linesOf_consolidate_eq]
  cases hgroup : merge? (linesOf xs id) with
  | none =>
      have hempty : linesOf xs id = [] := by
        by_contra hne
        obtain ⟨l, hmerge⟩ := exists_merge hne
        rw [hgroup] at hmerge
        cases hmerge
      rw [hempty]
      rfl
  | some merged =>
      change merge? (merged :: linesOf ys id) = _
      apply merge?_absorb hgroup
      · intro q hq
        rw [← linesOf_append] at hq
        obtain ⟨l, hl, rfl⟩ := List.mem_map.mp hq
        exact h.whole l (mem_linesOf.mp hl).1
      · rw [← linesOf_append]
        exact h.small id

end Bill

/-! ### Adding by hand -/

namespace Review

/-- The lines that additions by hand stand for; what is not finite and above zero is none. -/
def manualLines (catalog : Catalog) (additions : List (String × Float)) : List Line :=
  (additions.filter fun a => Double.isPositive a.2).map fun a => Line.manual a.1 a.2 catalog

/-- Adding by hand, one after the other. -/
def addAll (catalog : Catalog) (r : Review) (additions : List (String × Float)) : Review :=
  r.editAll catalog (additions.map fun a => .addManual a.1 a.2)

theorem addAll_concat (catalog : Catalog) (r : Review) (additions : List (String × Float))
    (a : String × Float) :
    r.addAll catalog (additions ++ [a]) = (r.addAll catalog additions).addManual a.1 a.2 catalog := by
  rw [addAll, List.map_append, editAll_append]
  rfl

/-- The last addition makes the last line, if its quantity is positive. -/
theorem manualLines_concat (catalog : Catalog) (additions : List (String × Float))
    (a : String × Float) :
    manualLines catalog (additions ++ [a]) = manualLines catalog additions ++
      if Double.isPositive a.2 then [Line.manual a.1 a.2 catalog] else [] := by
  rw [manualLines, List.filter_append, List.map_append, manualLines]
  by_cases hpos : Double.isPositive a.2 = true <;> simp [hpos]

/-- Lines that are added one by one are consolidated with all lines in the end. -/
theorem lines_addAll {catalog : Catalog} {r : Review} {xs : List Line}
    (hlines : r.lines = Bill.consolidate xs) (additions : List (String × Float))
    (h : Line.AddUp (xs ++ manualLines catalog additions)) :
    (r.addAll catalog additions).lines = Bill.consolidate (xs ++ manualLines catalog additions) := by
  induction additions using List.reverseRecOn with
  | nil =>
      rw [manualLines, List.filter_nil, List.map_nil, List.append_nil]
      exact hlines
  | append_singleton additions a ih =>
      rw [manualLines_concat, ← List.append_assoc] at h ⊢
      rw [addAll_concat, addManual]
      by_cases hpos : Double.isPositive a.2 = true
      · rw [if_pos hpos] at h ⊢
        rw [if_pos hpos]
        simp only [ih h.left]
        exact Bill.consolidate_append h
      · rw [if_neg hpos, ih h.left, if_neg hpos, List.append_nil]

end Review

/-- **Consolidating in steps.**  Where quantities are whole numbers and small enough to add up
exactly, a list that is consolidated before further lines are added ends up as if all lines had been
consolidated at once: the same lines with the same words, flags and quantities, in the same order.
So adding lines to a review by hand, one by one, is consolidating the lines that it was made of with
all of the added ones. -/
theorem consolidate_in_steps {xs ys : List Line} (h : Line.AddUp (xs ++ ys)) :
    Bill.consolidate (Bill.consolidate xs ++ ys) = Bill.consolidate (xs ++ ys) ∧
    ∀ (catalog : Catalog) (r : Review) (additions : List (String × Float)),
      r.lines = Bill.consolidate xs → Review.manualLines catalog additions = ys →
      (r.addAll catalog additions).lines = Bill.consolidate (xs ++ ys) := by
  refine ⟨Bill.consolidate_append h, ?_⟩
  rintro catalog r additions hlines rfl
  exact Review.lines_addAll hlines additions h

/-- Three hooks, and a clamp between the first two of them and the third one. -/
def hookLines : List Line :=
  [{ materialId := "HOOK", quantity := 2.0, description := "Hook" },
    { materialId := "CLAMP", quantity := 4.0, description := "Clamp" },
    { materialId := "HOOK", quantity := 1.0, description := "Roof hook", isConfigured := true }]

/-- Additions by hand, of which the second one says nothing. -/
def hookAdditions : List (String × Float) :=
  [("HOOK", 5.0), ("CLAMP", -1.0), ("RAIL", 3.0)]

/-- Adding to the review of hooks and a clamp. -/
theorem consolidate_in_steps_hooks :
    let added := Review.manualLines .empty hookAdditions
    Line.AddUp (hookLines ++ added) ∧
      Bill.consolidate (Bill.consolidate hookLines ++ added) =
        Bill.consolidate (hookLines ++ added) ∧
      (Review.addAll .empty ⟨Bill.consolidate hookLines, []⟩ hookAdditions).lines =
        Bill.consolidate (hookLines ++ added) := by
  intro added
  have hadded : added = [Line.manual "HOOK" 5.0 .empty, Line.manual "RAIL" 3.0 .empty] := by
    decide
  have haddUp : Line.AddUp (hookLines ++ added) := by
    rw [hadded]
    apply Line.AddUp.of_total
    · simp only [hookLines, List.cons_append, List.nil_append, List.forall_mem_cons]
      exact ⟨⟨rfl, 2, by decide +kernel⟩, ⟨rfl, 4, by decide +kernel⟩, ⟨rfl, 1, by decide +kernel⟩,
        ⟨rfl, 5, by decide +kernel⟩, ⟨rfl, 3, by decide +kernel⟩, fun _ h => nomatch h⟩
    · decide +kernel
  obtain ⟨hlists, hreview⟩ := consolidate_in_steps haddUp
  exact ⟨haddUp, hlists, hreview .empty _ hookAdditions rfl rfl⟩

end SolarBill
