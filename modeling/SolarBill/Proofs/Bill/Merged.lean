import SolarBill.Proofs.Bill.LineMap

/-!
# What merging makes of lines

Lines of one material become one line.  What this line is can be said without the merging itself:

* `IsPreferred` — of several descriptions the longest, and of equally long ones the last in text
  order; there is one, however often texts tie (`isPreferred_foldl`), and no second one;
* `IsTotal` — the sum of several quantities, added in total order;
* `Merges` — the line of a group of lines, and `merge?_eq_some_iff` that merging finds it;
* `consolidate_merges` — the materials in the order of their first lines, one line for each, the
  same words and the same quantity in whatever order the lines come, and nothing left to merge.
-/

namespace SolarBill.Bill

/-! ### Descriptions -/

/-- A description is shorter than another one, or as long and not behind it in text order. -/
def YieldsTo (d e : String) : Prop :=
  d.length < e.length ∨ d.length = e.length ∧ d ≤ e

namespace YieldsTo

variable {d e f : String}

theorem refl (d : String) : YieldsTo d d :=
  Or.inr ⟨rfl, String.le_refl d⟩

theorem trans (hde : YieldsTo d e) (hef : YieldsTo e f) : YieldsTo d f := by
  rcases hde with hlt | ⟨heq, hle⟩
  · rcases hef with hlt' | ⟨heq', -⟩
    · exact Or.inl (hlt.trans hlt')
    · exact Or.inl (heq' ▸ hlt)
  · rcases hef with hlt' | ⟨heq', hle'⟩
    · exact Or.inl (heq ▸ hlt')
    · exact Or.inr ⟨heq.trans heq', String.le_trans hle hle'⟩

/-- Descriptions that yield to each other are the same. -/
theorem antisymm (hde : YieldsTo d e) (hed : YieldsTo e d) : d = e := by
  rcases hde with hlt | ⟨heq, hle⟩
  · rcases hed with hlt' | ⟨heq', -⟩ <;> omega
  · rcases hed with hlt' | ⟨-, hle'⟩
    · omega
    · exact String.le_antisymm hle hle'

end YieldsTo

/-- Longer words are preferred, and later ones of the same length. -/
theorem prefers_iff {candidate current : String} :
    prefers candidate current = true ↔
      current.length < candidate.length ∨ candidate.length = current.length ∧ current < candidate := by
  simp [prefers]

/-- Of two descriptions the other one yields to the preferred one. -/
theorem preferred_cases (d e : String) :
    preferred d e = e ∧ YieldsTo d e ∨ preferred d e = d ∧ YieldsTo e d := by
  rw [preferred]
  split_ifs with hprefers
  · rw [prefers_iff] at hprefers
    left
    refine ⟨rfl, ?_⟩
    rcases hprefers with hlt | ⟨heq, hlt⟩
    · exact Or.inl hlt
    · exact Or.inr ⟨heq.symm, String.not_lt.mp (String.lt_asymm hlt)⟩
  · rw [prefers_iff, not_or, not_and, String.not_lt] at hprefers
    right
    refine ⟨rfl, ?_⟩
    rcases Nat.lt_or_eq_of_le (Nat.not_lt.mp hprefers.1) with hlt | heq
    · exact Or.inl hlt
    · exact Or.inr ⟨heq, hprefers.2 heq⟩

/-- One of the descriptions, to which all of them yield. -/
structure IsPreferred (ds : List String) (d : String) : Prop where
  mem : d ∈ ds
  greatest : ∀ e ∈ ds, YieldsTo e d

namespace IsPreferred

variable {ds es : List String} {d e : String}

/-- There is one preferred description at most. -/
theorem unique (hd : IsPreferred ds d) (he : IsPreferred ds e) : d = e :=
  (he.greatest d hd.mem).antisymm (hd.greatest e he.mem)

/-- Which words are preferred does not depend on their order. -/
theorem perm (hd : IsPreferred ds d) (h : ds.Perm es) : IsPreferred es d where
  mem := h.mem_iff.mp hd.mem
  greatest e he := hd.greatest e (h.mem_iff.mpr he)

end IsPreferred

/-- Preferring one description after the other ends at the preferred one of all. -/
theorem isPreferred_foldl (first : String) (rest : List String) :
    IsPreferred (first :: rest) (rest.foldl preferred first) := by
  -- The description kept so far yields to the result, and so does all that it was preferred to.
  induction rest generalizing first with
  | nil =>
      refine ⟨List.mem_cons_self, ?_⟩
      intro e he
      rw [List.mem_singleton.mp he]
      exact YieldsTo.refl first
  | cons d rest ih =>
      obtain ⟨hmem, hgreatest⟩ := ih (preferred first d)
      have hkept := hgreatest _ List.mem_cons_self
      rw [List.foldl_cons]
      rcases preferred_cases first d with ⟨hpref, hyields⟩ | ⟨hpref, hyields⟩ <;>
        rw [hpref] at hmem hgreatest hkept ⊢
      · refine ⟨List.mem_cons_of_mem _ hmem, ?_⟩
        intro e he
        rcases List.mem_cons.mp he with rfl | he
        · exact hyields.trans hkept
        · exact hgreatest e he
      · refine ⟨?_, ?_⟩
        · rcases List.mem_cons.mp hmem with heq | hmem
          · rw [heq]
            exact List.mem_cons_self
          · exact List.mem_cons_of_mem _ (List.mem_cons_of_mem _ hmem)
        · intro e he
          rcases List.mem_cons.mp he with rfl | he
          · exact hkept
          · rcases List.mem_cons.mp he with rfl | he
            · exact hyields.trans hkept
            · exact hgreatest e (List.mem_cons_of_mem _ he)

/-! ### Quantities -/

/-- The sum of quantities, added from left to right in total order. -/
def IsTotal (qs : List Float) (q : Float) : Prop :=
  ∃ sorted : List Float, sorted.Perm qs ∧
    sorted.Pairwise (fun a b => Double.orderKey a ≤ Double.orderKey b) ∧ q = Double.sum sorted

/-- There is one total order of quantities, and so one total. -/
theorem isTotal_iff {qs : List Float} {q : Float} :
    IsTotal qs q ↔ q = Double.sum (Double.sort qs) := by
  constructor
  · rintro ⟨sorted, hperm, hsorted, rfl⟩
    have hsort : sorted = Double.sort qs := by
      apply List.Perm.eq_of_pairwise _ hsorted (Double.sort_pairwise qs)
        (hperm.trans (Double.sort_perm qs).symm)
      intro a b _ _ hab hba
      exact Double.orderKey_injective (le_antisymm hab hba)
    rw [hsort]
  · rintro rfl
    exact ⟨Double.sort qs, Double.sort_perm qs, Double.sort_pairwise qs, rfl⟩

/-! ### The line of a group -/

/-- The line that a group of lines of one material is merged into. -/
structure Merges (group : List Line) (l : Line) : Prop where
  /-- Material, category and flags are those of the first line. -/
  first : ∃ first, group.head? = some first ∧ l.materialId = first.materialId ∧
    l.category = first.category ∧ l.isConfigured = first.isConfigured ∧
    l.isManual = first.isManual
  description : IsPreferred (group.map Line.description) l.description
  quantity : IsTotal (group.map Line.quantity) l.quantity

/-- **Merging finds the line of a group**, unless the group is empty. -/
theorem merge?_eq_some_iff {group : List Line} {l : Line} :
    merge? group = some l ↔ Merges group l := by
  cases group with
  | nil =>
      constructor
      · intro h
        cases h
      · rintro ⟨⟨first, hfirst, -⟩, -, -⟩
        cases hfirst
  | cons first rest =>
      have hpreferred := isPreferred_foldl first.description (rest.map Line.description)
      rw [merge?, Option.some.injEq]
      constructor
      · rintro rfl
        exact ⟨⟨first, rfl, rfl, rfl, rfl, rfl⟩, hpreferred, isTotal_iff.mpr rfl⟩
      · rintro ⟨⟨head, hhead, hid, hcategory, hconfigured, hmanual⟩, hdescription, hquantity⟩
        obtain rfl : first = head := by simpa using hhead
        have hwords := hpreferred.unique hdescription
        cases l
        simp only at hid hcategory hconfigured hmanual hwords
        rw [← isTotal_iff.mp hquantity, hwords, hid, hcategory, hconfigured, hmanual]

/-- A consolidated list holds the lines of the groups, and no other lines. -/
theorem mem_consolidate {lines : List Line} {l : Line} :
    l ∈ consolidate lines ↔ Merges (linesOf lines l.materialId) l := by
  rw [consolidate, List.mem_filterMap]
  constructor
  · rintro ⟨id, -, hmerge⟩
    rw [materialId_of_merge? hmerge]
    exact merge?_eq_some_iff.mp hmerge
  · intro h
    obtain ⟨first, hfirst, -⟩ := h.first
    have hmem := (mem_linesOf.mp (List.mem_of_head? hfirst))
    exact ⟨l.materialId, mem_materials.mpr ⟨first, hmem⟩, merge?_eq_some_iff.mpr h⟩

/-! ### Order of the materials -/

/-- Leaving entries out does not change which of the others comes first. -/
theorem idxOf_lt_of_filter {p : String → Bool} {a b : String} {ids : List String}
    (ha : a ∈ ids.filter p) (hb : p b = true)
    (h : (ids.filter p).idxOf a < (ids.filter p).idxOf b) : ids.idxOf a < ids.idxOf b := by
  induction ids with
  | nil => cases ha
  | cons id rest ih =>
      have hid : id ≠ b := by
        rintro rfl
        rw [List.filter_cons_of_pos hb, List.idxOf_cons_self] at h
        omega
      rw [List.idxOf_cons_ne _ hid]
      by_cases hfirst : id = a
      · rw [hfirst, List.idxOf_cons_self]
        omega
      · rw [List.idxOf_cons_ne _ hfirst]
        apply Nat.succ_lt_succ
        by_cases hkept : p id = true
        · rw [List.filter_cons_of_pos hkept] at ha h
          rw [List.idxOf_cons_ne _ hfirst, List.idxOf_cons_ne _ hid] at h
          exact ih ((List.mem_cons.mp ha).resolve_left (Ne.symm hfirst)) (Nat.lt_of_succ_lt_succ h)
        · rw [List.filter_cons_of_neg hkept] at ha h
          exact ih ha h

/-- Identifiers without repetitions stand in the order of their first places. -/
theorem eraseDups_order (ids : List String) :
    ids.eraseDups.Pairwise fun a b => ids.idxOf a < ids.idxOf b := by
  induction hn : ids.length using Nat.strong_induction_on generalizing ids with
  | _ n ih =>
    cases ids with
    | nil => exact List.Pairwise.nil
    | cons id rest =>
        have hlength : (rest.filter fun other => !other == id).length ≤ rest.length :=
          List.length_filter_le _ rest
        have hother : ∀ other ∈ (rest.filter fun other => !other == id).eraseDups, id ≠ other := by
          intro other hmem
          have hfilter := List.of_mem_filter (List.mem_eraseDups.mp hmem)
          rintro rfl
          simp at hfilter
        rw [List.eraseDups_cons, List.pairwise_cons]
        constructor
        · intro other hmem
          rw [List.idxOf_cons_self, List.idxOf_cons_ne _ (hother other hmem)]
          omega
        · have horder := ih _ (by rw [← hn, List.length_cons]; omega)
            (rest.filter fun other => !other == id) rfl
          refine List.Pairwise.imp_of_mem ?_ horder
          intro a b ha hb hlt
          have hkept : (!b == id) = true := by
            simpa using (hother b hb).symm
          rw [List.idxOf_cons_ne _ (hother a ha), List.idxOf_cons_ne _ (hother b hb)]
          exact Nat.succ_lt_succ (idxOf_lt_of_filter (List.mem_eraseDups.mp ha) hkept hlt)

/-! ### Consolidating -/

/-- The groups of two orders of lines are merged into lines with the same words and quantity. -/
theorem Merges.exists_perm {xs ys : List Line} {l : Line} (hperm : xs.Perm ys) (h : Merges xs l) :
    ∃ m, Merges ys m ∧ m.description = l.description ∧ m.quantity = l.quantity := by
  have hne : ys ≠ [] := by
    rintro rfl
    obtain ⟨first, hfirst, -⟩ := h.first
    rw [hperm.eq_nil] at hfirst
    cases hfirst
  obtain ⟨m, hmerge⟩ := exists_merge hne
  have hm := merge?_eq_some_iff.mp hmerge
  refine ⟨m, hm, hm.description.unique (h.description.perm (hperm.map _)), ?_⟩
  rw [isTotal_iff.mp hm.quantity, isTotal_iff.mp h.quantity,
    Double.sort_eq_of_perm (hperm.map Line.quantity)]

/-- **Consolidating.**  The result has the materials of the lines, in the order of their first
lines, so none twice.  It holds exactly the merged lines of their groups.  In whatever order the
lines come, a material gets the same description and the same quantity.  Consolidating again changes
nothing. -/
theorem consolidate_merges (lines : List Line) :
    ((consolidate lines).map Line.materialId).Pairwise (fun a b =>
      (lines.map Line.materialId).idxOf a < (lines.map Line.materialId).idxOf b) ∧
    (∀ id, id ∈ (consolidate lines).map Line.materialId ↔ id ∈ lines.map Line.materialId) ∧
    (∀ l, l ∈ consolidate lines ↔ Merges (linesOf lines l.materialId) l) ∧
    (∀ others, lines.Perm others → ∀ l ∈ consolidate lines, ∃ m ∈ consolidate others,
      m.materialId = l.materialId ∧ m.description = l.description ∧ m.quantity = l.quantity) ∧
    consolidate (consolidate lines) = consolidate lines := by
  refine ⟨?_, fun id => ?_, fun l => mem_consolidate, fun others hperm l hl => ?_, ?_⟩
  · rw [ids_consolidate]
    exact eraseDups_order _
  · rw [ids_consolidate, materials, List.mem_eraseDups]
  · have hgroup : (linesOf lines l.materialId).Perm (linesOf others l.materialId) := hperm.filter _
    obtain ⟨m, hm, hwords, hquantity⟩ := (mem_consolidate.mp hl).exists_perm hgroup
    have hid : m.materialId = l.materialId := by
      obtain ⟨first, hfirst, hm', -⟩ := hm.first
      rw [hm']
      exact (mem_linesOf.mp (List.mem_of_head? hfirst)).2
    exact ⟨m, mem_consolidate.mpr (hid ▸ hm), hid, hwords, hquantity⟩
  · exact consolidate_of_nodup (nodup_consolidate lines)

/-- A cable in two lines with a hook between them. -/
def cableLines : List Line :=
  [{ materialId := "CABLE", quantity := 0.1, description := "Cable", isConfigured := true },
    { materialId := "HOOK", quantity := 4.0, description := "Hook" },
    { materialId := "CABLE", quantity := 12.5, description := "Cable 6 mm2" }]

/-- The cable is one line, in front of the hook and behind it. -/
theorem consolidate_merges_cable :
    cableLines.Perm cableLines.reverse ∧
    ∀ l ∈ consolidate cableLines, ∃ m ∈ consolidate cableLines.reverse,
      m.materialId = l.materialId ∧ m.description = l.description ∧ m.quantity = l.quantity :=
  ⟨cableLines.reverse_perm.symm,
    (consolidate_merges cableLines).2.2.2.1 _ cableLines.reverse_perm.symm⟩

end SolarBill.Bill
