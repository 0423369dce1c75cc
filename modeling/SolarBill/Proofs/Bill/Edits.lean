import SolarBill.Proofs.Bill.Lines
import SolarBill.Review

/-!
# Edits of a review

No edit touches the warnings of a review.  What it does to the quantities depends on its argument:
an addition is let through for finite quantities above zero only, but setting a quantity turns away
only what is zero or below, so not-a-number and infinity get in; and an addition merges lines of
one material, where finite quantities can overflow.

* `edit_usable_iff` — when the quantities of a review stay finite and above zero under an edit;
* `editAll_chunks` — they stay so while all of them together are no more than doubles can add up;
* `edited_quantities` — both for a list of edits, and that no quantity ever is zero or below.
-/

namespace SolarBill

/-! ### Consolidating usable lines -/

/-- Every quantity is finite and above zero. -/
def Line.AllUsable (lines : List Line) : Prop :=
  ∀ l ∈ lines, Double.isPositive l.quantity = true

/-- The chunks that the quantities of the lines fill. -/
def Line.chunks (lines : List Line) : Nat :=
  (lines.map fun l => Double.chunks l.quantity).sum

/-- The order of the lines does not matter to their chunks. -/
theorem Line.chunks_perm {xs ys : List Line} (h : xs.Perm ys) : chunks xs = chunks ys :=
  (h.map _).sum_eq

theorem Line.chunks_append (xs ys : List Line) : chunks (xs ++ ys) = chunks xs + chunks ys := by
  rw [chunks, List.map_append, List.sum_append]
  rfl

theorem Line.chunks_singleton (l : Line) : chunks [l] = Double.chunks l.quantity :=
  List.sum_singleton

/-- Lines with at most a chunk each have at most as many chunks as there are lines. -/
theorem Line.chunks_le_length {lines : List Line}
    (h : ∀ l ∈ lines, Double.value l.quantity ≤ 2 ^ (971 : Int)) : chunks lines ≤ lines.length := by
  induction lines with
  | nil => exact le_refl 0
  | cons l rest ih =>
      have hone := Double.chunks_le_one (h l List.mem_cons_self)
      have hrest := ih fun o ho => h o (List.mem_cons_of_mem l ho)
      simp only [chunks, List.map_cons, List.sum_cons, List.length_cons] at hrest ⊢
      omega

/-- Leaving lines out leaves chunks out. -/
theorem Line.chunks_filter_le (p : Line → Bool) (lines : List Line) :
    chunks (lines.filter p) ≤ chunks lines := by
  have hperm := Line.chunks_perm (List.filter_append_perm p lines)
  rw [chunks_append] at hperm
  omega

namespace Bill

/-- The chunks of a material and those of all the others. -/
theorem chunks_split (lines : List Line) (id : String) :
    Line.chunks (linesOf lines id) + Line.chunks (otherLines lines id) = Line.chunks lines := by
  rw [← Line.chunks_append]
  exact Line.chunks_perm (List.filter_append_perm _ lines)

/-- Usable lines stay usable if no total overflows. -/
theorem consolidate_usable_iff {lines : List Line} (husable : Line.AllUsable lines) :
    Line.AllUsable (consolidate lines) ↔
      ∀ id ∈ materials lines, (total lines id).isFinite := by
  have htotal : ∀ id ∈ materials lines,
      (Double.isPositive (total lines id) = true ↔ (total lines id).isFinite) := by
    intro id hid
    apply Double.isPositive_iff_isFinite
    apply Double.sum_induction (P := fun x => ¬ x ≤ 0.0)
      (fun _ _ hx hy => Double.add_not_le_zero hx hy) (sorted_ne_nil (linesOf_ne_nil hid))
    intro x hx
    obtain ⟨l, hl, rfl⟩ := mem_sorted hx
    have hpos := Double.pos_of_isPositive (husable l (List.mem_of_mem_filter hl))
    exact Double.not_le_zero_of_pos hpos
  constructor
  · intro h id hid
    obtain ⟨l, hmerge⟩ := exists_merge (linesOf_ne_nil hid)
    rw [← htotal id hid, total, ← merge?_quantity hmerge]
    exact h l (List.mem_filterMap.mpr ⟨id, hid, hmerge⟩)
  · intro h l hl
    obtain ⟨id, hid, hmerge⟩ := List.mem_filterMap.mp hl
    rw [merge?_quantity hmerge]
    exact (htotal id hid).mpr (h id hid)

/-- Merging usable lines neither loses the sign nor adds chunks, so the quantity stays finite. -/
theorem merge?_chunks {lines : List Line} {l : Line} (h : merge? lines = some l)
    (husable : Line.AllUsable lines) (hlt : Line.chunks lines < 2 ^ 53) :
    Double.isPositive l.quantity = true ∧ Double.chunks l.quantity ≤ Line.chunks lines := by
  have hsum : ((Double.sort (lines.map Line.quantity)).map Double.chunks).sum =
      Line.chunks lines := by
    rw [((Double.sort_perm _).map _).sum_eq, List.map_map]
    rfl
  rw [merge?_quantity h, ← hsum]
  apply Double.sum_chunks (sorted_ne_nil (merge?_ne_nil h))
  · intro x hx
    obtain ⟨o, ho, rfl⟩ := mem_sorted hx
    exact husable o ho
  · rw [hsum]
    exact hlt

/-- Consolidating usable lines loses none while their chunks are few, and adds no chunk. -/
theorem consolidate_chunks {lines : List Line} (husable : Line.AllUsable lines)
    (hlt : Line.chunks lines < 2 ^ 53) :
    Line.AllUsable (consolidate lines) ∧ Line.chunks (consolidate lines) ≤ Line.chunks lines := by
  induction hn : lines.length using Nat.strong_induction_on generalizing lines with
  | _ n ih =>
    cases lines with
    | nil => exact ⟨fun l hl => absurd hl List.not_mem_nil, le_refl _⟩
    | cons l rest =>
      have hlength : (otherLines rest l.materialId).length ≤ rest.length :=
        List.length_filter_le _ rest
      have hsplit := chunks_split (l :: rest) l.materialId
      have hothers : otherLines (l :: rest) l.materialId = otherLines rest l.materialId :=
        List.filter_cons_of_neg (by simp)
      rw [hothers] at hsplit
      obtain ⟨merged, hmerge, hlines⟩ := consolidate_cons l rest
      obtain ⟨hpos, hchunks⟩ := merge?_chunks hmerge
        (fun o ho => husable o (List.mem_of_mem_filter ho)) (by omega)
      have hrest_usable : Line.AllUsable (otherLines rest l.materialId) :=
        fun o ho => husable o (List.mem_cons_of_mem l (List.mem_of_mem_filter ho))
      obtain ⟨hrest, hle⟩ := ih (otherLines rest l.materialId).length
        (by rw [← hn, List.length_cons]; omega) hrest_usable (by omega) rfl
      rw [hlines]
      constructor
      · intro o ho
        rcases List.mem_cons.mp ho with rfl | ho
        · exact hpos
        · exact hrest o ho
      · rw [← List.singleton_append, Line.chunks_append, Line.chunks_singleton]
        omega

end Bill

namespace Review

/-! ### Warnings -/

/-- Edits leave the warnings alone. -/
theorem warnings_edit (catalog : Catalog) (r : Review) (e : Edit) :
    (r.edit catalog e).warnings = r.warnings := by
  cases e with
  | addManual id quantity =>
      simp only [edit, addManual]
      split_ifs <;> rfl
  | remove id => rfl
  | setQuantity id quantity =>
      simp only [edit, setQuantity]
      split_ifs <;> rfl

/-- No edit loses a warning or adds one. -/
theorem warnings_editAll (catalog : Catalog) (r : Review) (edits : List Edit) :
    (r.editAll catalog edits).warnings = r.warnings := by
  induction edits generalizing r with
  | nil => rfl
  | cons e rest ih => exact (ih (r.edit catalog e)).trans (warnings_edit catalog r e)

theorem editAll_append (catalog : Catalog) (r : Review) (past more : List Edit) :
    r.editAll catalog (past ++ more) = (r.editAll catalog past).editAll catalog more :=
  List.foldl_append

/-! ### What one edit does to the quantities -/

/-- Overwriting a quantity changes no line but those with the new quantity. -/
theorem mem_overwrite {id : String} {quantity : Float} {lines : List Line} {l : Line}
    (h : l ∈ overwrite id quantity lines) : l ∈ lines ∨ l.quantity = quantity := by
  induction lines with
  | nil => cases h
  | cons first rest ih =>
      rw [overwrite] at h
      split_ifs at h
      · rcases List.mem_cons.mp h with rfl | h
        · exact Or.inr rfl
        · exact Or.inl (List.mem_cons_of_mem first h)
      · rcases List.mem_cons.mp h with rfl | h
        · exact Or.inl List.mem_cons_self
        · exact (ih h).imp_left (List.mem_cons_of_mem first)

/-- If the material is there, some line gets the new quantity. -/
theorem exists_mem_overwrite {id : String} {lines : List Line} (quantity : Float)
    (h : (lines.any fun l => l.materialId == id) = true) :
    ∃ l ∈ overwrite id quantity lines, l.quantity = quantity := by
  induction lines with
  | nil => exact absurd h (by simp)
  | cons first rest ih =>
      rw [overwrite]
      split_ifs with hfirst
      · exact ⟨_, List.mem_cons_self, rfl⟩
      · rw [List.any_cons, Bool.or_eq_true] at h
        obtain ⟨l, hl, hquantity⟩ := ih (h.resolve_left hfirst)
        exact ⟨l, List.mem_cons_of_mem first hl, hquantity⟩

/-- If the material is not there, nothing is overwritten. -/
theorem overwrite_of_not_any {id : String} {lines : List Line} (quantity : Float)
    (h : ¬ (lines.any fun l => l.materialId == id) = true) :
    overwrite id quantity lines = lines := by
  induction lines with
  | nil => rfl
  | cons first rest ih =>
      rw [List.any_cons, Bool.or_eq_true, not_or] at h
      rw [overwrite, if_neg h.1, ih h.2]

/-- Overwriting adds the chunks of one quantity at most. -/
theorem overwrite_chunks_le (id : String) (quantity : Float) (lines : List Line) :
    Line.chunks (overwrite id quantity lines) ≤ Line.chunks lines + Double.chunks quantity := by
  induction lines with
  | nil => exact Nat.zero_le _
  | cons first rest ih =>
      rw [overwrite]
      split_ifs <;> simp only [Line.chunks, List.map_cons, List.sum_cons] at ih ⊢ <;> omega

/-- An edit leaves no quantity that is zero or below, whatever its argument. -/
theorem edit_not_le_zero (catalog : Catalog) {r : Review} (h : ∀ l ∈ r.lines, ¬ l.quantity ≤ 0.0)
    (e : Edit) : ∀ l ∈ (r.edit catalog e).lines, ¬ l.quantity ≤ 0.0 := by
  cases e with
  | addManual id quantity =>
      simp only [edit, addManual]
      split_ifs with hpositive
      · apply Bill.consolidate_induction (P := fun x => ¬ x ≤ 0.0)
          fun _ _ hx hy => Double.add_not_le_zero hx hy
        intro l hl
        rcases List.mem_append.mp hl with hl | hl
        · exact h l hl
        · rw [List.mem_singleton.mp hl]
          exact Double.not_le_zero_of_pos (Double.pos_of_isPositive hpositive)
      · exact h
  | remove id => exact fun l hl => h l (List.mem_of_mem_filter hl)
  | setQuantity id quantity =>
      simp only [edit, setQuantity]
      split_ifs with hle
      · exact fun l hl => h l (List.mem_of_mem_filter hl)
      · intro l hl
        rcases mem_overwrite hl with hl | hl
        · exact h l hl
        · rw [hl]
          exact hle

/-- Is there a line of this material? -/
def hasLine (r : Review) (id : String) : Bool :=
  r.lines.any fun l => l.materialId == id

/-- An edit that spares the quantities of a review: none of them overflows in the merged lines,
and what is set is turned away or finite. -/
def Edit.Spares (catalog : Catalog) (r : Review) : Edit → Prop
  | .addManual id quantity =>
      Double.isPositive quantity = true →
        ∀ m ∈ Bill.materials (r.lines ++ [Line.manual id quantity catalog]),
          (Bill.total (r.lines ++ [Line.manual id quantity catalog]) m).isFinite
  | .remove _ => True
  | .setQuantity id quantity => r.hasLine id = true → quantity ≤ 0.0 ∨ quantity.isFinite

/-- A line that is added by hand with a positive quantity is usable. -/
theorem usable_added {lines : List Line} {id : String} {quantity : Float} (catalog : Catalog)
    (h : Line.AllUsable lines) (hpositive : Double.isPositive quantity = true) :
    Line.AllUsable (lines ++ [Line.manual id quantity catalog]) := by
  intro l hl
  rcases List.mem_append.mp hl with hl | hl
  · exact h l hl
  · rw [List.mem_singleton.mp hl]
    exact hpositive

/-- **One edit.**  The quantities stay finite and above zero exactly if it spares them. -/
theorem edit_usable_iff (catalog : Catalog) {r : Review} (h : Line.AllUsable r.lines) (e : Edit) :
    Line.AllUsable (r.edit catalog e).lines ↔ e.Spares catalog r := by
  cases e with
  | addManual id quantity =>
      simp only [edit, addManual, Edit.Spares]
      split_ifs with hpositive
      · rw [Bill.consolidate_usable_iff (usable_added catalog h hpositive)]
        exact ⟨fun hfinite _ => hfinite, fun hfinite => hfinite hpositive⟩
      · exact ⟨fun _ hc => absurd hc hpositive, fun _ => h⟩
  | remove id => exact ⟨fun _ => trivial, fun _ l hl => h l (List.mem_of_mem_filter hl)⟩
  | setQuantity id quantity =>
      simp only [edit, setQuantity, Edit.Spares]
      split_ifs with hle
      · exact ⟨fun _ _ => Or.inl hle, fun _ l hl => h l (List.mem_of_mem_filter hl)⟩
      · by_cases hline : r.hasLine id = true
        · constructor
          · intro hlines _
            obtain ⟨l, hl, hquantity⟩ := exists_mem_overwrite quantity hline
            exact Or.inr ((Double.isPositive_iff_isFinite hle).mp (hquantity ▸ hlines l hl))
          · intro hspares l hl
            have hfinite := (hspares hline).resolve_left hle
            rcases mem_overwrite hl with hl | hl
            · exact h l hl
            · exact hl ▸ (Double.isPositive_iff_isFinite hle).mpr hfinite
        · rw [overwrite_of_not_any quantity hline]
          exact ⟨fun _ hc => absurd hc hline, fun _ => h⟩

/-- An edit of moderate size: what is added or set is at most `2 ^ 971`. -/
def Edit.Moderate : Edit → Prop
  | .addManual _ quantity => Double.value quantity ≤ 2 ^ (971 : Int)
  | .remove _ => True
  | .setQuantity _ quantity =>
      quantity ≤ 0.0 ∨ quantity.isFinite ∧ Double.value quantity ≤ 2 ^ (971 : Int)

/-- A moderate edit adds at most one chunk. -/
theorem edit_chunks (catalog : Catalog) {r : Review} (h : Line.AllUsable r.lines) {e : Edit}
    (he : e.Moderate) (hlt : Line.chunks r.lines + 1 < 2 ^ 53) :
    Line.AllUsable (r.edit catalog e).lines ∧
      Line.chunks (r.edit catalog e).lines ≤ Line.chunks r.lines + 1 := by
  have hremoved : ∀ id, Line.AllUsable (r.remove id).lines ∧
      Line.chunks (r.remove id).lines ≤ Line.chunks r.lines + 1 := fun id =>
    ⟨fun l hl => h l (List.mem_of_mem_filter hl),
      (Line.chunks_filter_le _ r.lines).trans (Nat.le_succ _)⟩
  -- Only a line added by hand or a quantity that is set brings in a new chunk.
  cases e with
  | addManual id quantity =>
      simp only [edit, addManual]
      split_ifs with hpositive
      · have hchunks : Line.chunks (r.lines ++ [Line.manual id quantity catalog]) ≤
            Line.chunks r.lines + 1 := by
          rw [Line.chunks_append, Line.chunks_singleton]
          exact Nat.add_le_add_left (Double.chunks_le_one he) _
        obtain ⟨husable, hle⟩ := Bill.consolidate_chunks (usable_added catalog h hpositive)
          (hchunks.trans_lt hlt)
        exact ⟨husable, hle.trans hchunks⟩
      · exact ⟨h, Nat.le_succ _⟩
  | remove id => exact hremoved id
  | setQuantity id quantity =>
      simp only [edit, setQuantity]
      split_ifs with hle
      · exact hremoved id
      · obtain ⟨hfinite, hquantity⟩ := he.resolve_left hle
        constructor
        · intro l hl
          rcases mem_overwrite hl with hl | hl
          · exact h l hl
          · exact hl ▸ (Double.isPositive_iff_isFinite hle).mpr hfinite
        · exact (overwrite_chunks_le id quantity r.lines).trans
            (Nat.add_le_add_left (Double.chunks_le_one hquantity) _)

/-! ### What a list of edits does to the quantities -/

/-- No list of edits brings in a quantity that is zero or less. -/
theorem editAll_not_le_zero (catalog : Catalog) {r : Review}
    (h : ∀ l ∈ r.lines, ¬ l.quantity ≤ 0.0) (edits : List Edit) :
    ∀ l ∈ (r.editAll catalog edits).lines, ¬ l.quantity ≤ 0.0 := by
  induction edits generalizing r with
  | nil => exact h
  | cons e rest ih => exact ih (edit_not_le_zero catalog h e)

/-- Moderate edits of usable lines leave usable lines, as long as the chunks can be counted. -/
theorem editAll_chunks (catalog : Catalog) {r : Review} (h : Line.AllUsable r.lines)
    {edits : List Edit} (hedits : ∀ e ∈ edits, e.Moderate)
    (hlt : Line.chunks r.lines + edits.length < 2 ^ 53) :
    Line.AllUsable (r.editAll catalog edits).lines := by
  induction edits generalizing r with
  | nil => exact h
  | cons e rest ih =>
      rw [List.length_cons] at hlt
      obtain ⟨husable, hle⟩ := edit_chunks catalog h (hedits e List.mem_cons_self) (by omega)
      exact ih husable (fun o ho => hedits o (List.mem_cons_of_mem e ho)) (by omega)

/-- All reviews on the way are usable exactly when every edit spares the lines it meets. -/
theorem editAll_usable_iff (catalog : Catalog) {r : Review} (h : Line.AllUsable r.lines)
    (edits : List Edit) :
    (∀ past, past <+: edits → Line.AllUsable (r.editAll catalog past).lines) ↔
      ∀ past e, past ++ [e] <+: edits → e.Spares catalog (r.editAll catalog past) := by
  constructor
  · intro husable past e hfirst
    have hpast := husable past ((List.prefix_append past [e]).trans hfirst)
    rw [← edit_usable_iff catalog hpast]
    have hnext := husable (past ++ [e]) hfirst
    rw [editAll_append] at hnext
    exact hnext
  · intro hspares past
    induction past using List.reverseRecOn with
    | nil => exact fun _ => h
    | append_singleton past e ih =>
        intro hfirst
        have hpast := ih ((List.prefix_append past [e]).trans hfirst)
        rw [editAll_append]
        exact (edit_usable_iff catalog hpast e).mpr (hspares past e hfirst)

/-- **Quantities under review.**  However a review of finite quantities above zero is edited, none
of its quantities ever is zero or below.  All of them are finite numbers at every moment exactly if
each edit spares those it finds.  Moderate edits do, as long as lines and edits are fewer than
`2 ^ 53` and the bill is moderate, too. -/
theorem edited_quantities (b : Bill) (hb : Line.AllUsable b.lines) (catalog : Catalog)
    (edits : List Edit) :
    (∀ l ∈ ((ofBill b).editAll catalog edits).lines, ¬ l.quantity ≤ 0.0) ∧
    ((∀ past, past <+: edits → Line.AllUsable ((ofBill b).editAll catalog past).lines) ↔
      ∀ past e, past ++ [e] <+: edits → e.Spares catalog ((ofBill b).editAll catalog past)) ∧
    ((∀ l ∈ b.lines, Double.value l.quantity ≤ 2 ^ (971 : Int)) → (∀ e ∈ edits, e.Moderate) →
      b.lines.length + edits.length < 2 ^ 53 →
      Line.AllUsable ((ofBill b).editAll catalog edits).lines) := by
  refine ⟨?_, editAll_usable_iff catalog hb edits, ?_⟩
  · apply editAll_not_le_zero
    intro l hl
    exact Double.not_le_zero_iff.mpr (Or.inl (Double.pos_of_isPositive (hb l hl)))
  · intro hmoderate hedits hlt
    have hchunks := Line.chunks_le_length hmoderate
    exact editAll_chunks catalog hb hedits (by change Line.chunks b.lines + _ < _; omega)

/-- Twelve and a half meters of cable. -/
def cableBill : Bill := { lines := [Line.derived "CABLE" 12.5 .empty] }

/-- Some more cable, a second material, and a correction. -/
def cableEdits : List Edit :=
  [.addManual "CABLE" 0.1, .addManual "TIE" 50.0, .setQuantity "CABLE" 12.0]

/-- More cable, a second material and a correction leave usable lines. -/
theorem edited_quantities_cable :
    Line.AllUsable cableBill.lines ∧ (∀ e ∈ cableEdits, e.Moderate) ∧
      Line.AllUsable ((ofBill cableBill).editAll .empty cableEdits).lines := by
  have hbill : Line.AllUsable cableBill.lines := by
    intro l hl
    rw [List.mem_singleton.mp hl]
    decide +kernel
  have hmoderate : ∀ l ∈ cableBill.lines, Double.value l.quantity ≤ 2 ^ (971 : Int) := by
    intro l hl
    rw [List.mem_singleton.mp hl]
    decide +kernel
  have hedits : ∀ e ∈ cableEdits, e.Moderate := by
    intro e he
    fin_cases he
    · change Double.value 0.1 ≤ 2 ^ (971 : Int)
      decide +kernel
    · change Double.value 50.0 ≤ 2 ^ (971 : Int)
      decide +kernel
    · exact Or.inr ⟨by decide +kernel, by decide +kernel⟩
  exact ⟨hbill, hedits, (edited_quantities cableBill hbill .empty cableEdits).2.2 hmoderate hedits
    (by decide)⟩

/-- **Not-a-number gets in.**  It is not zero or below, so it can be set. -/
theorem set_notANumber :
    ¬ ∀ b : Bill, Line.AllUsable b.lines → ∀ (catalog : Catalog) (edits : List Edit),
      Line.AllUsable ((ofBill b).editAll catalog edits).lines := by
  intro hall
  have hbill : Line.AllUsable cableBill.lines := by
    intro l hl
    rw [List.mem_singleton.mp hl]
    decide +kernel
  have hlines : ((ofBill cableBill).editAll .empty [.setQuantity "CABLE" (0.0 / 0.0)]).lines =
      [Line.derived "CABLE" (0.0 / 0.0) .empty] := by
    decide +kernel
  have husable := hall cableBill hbill .empty [.setQuantity "CABLE" (0.0 / 0.0)]
  rw [hlines] at husable
  exact absurd (husable _ (List.mem_singleton_self _)) (by decide +kernel)

end Review

end SolarBill
