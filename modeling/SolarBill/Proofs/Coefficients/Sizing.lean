import SolarBill.Coefficients.Builtin
import SolarBill.Coefficients.Check
import SolarBill.Proofs.Number.Order
import SolarBill.Sizing

/-!
# Devices from the ampacity table

A coefficient set is accepted when its numbers are finite, none of them is negative, and its table
has buckets with numbers above zero and ampacities that are told apart.  The table is then sorted by
ampacity, and a current gets the first bucket that carries it, or the last one.

A larger current therefore never gets a bucket of a smaller ampacity.  Nothing, however, is checked
about how cross-sections and breaker ratings go with the ampacity, so they may fall along the table.

* `Coefficients.checked_eq_ok_iff` — which sets are accepted;
* `SizingTable.pick?_forward` — a larger current gets the same bucket or one further behind;
* `SizingTable.larger_current` — when cable and breaker never become smaller;
* `SizingTable.thinner_cable_accepted` — an accepted table with which they do.
-/

namespace SolarBill

/-! ### Coefficients that are accepted -/

/-- Every number of a bucket is finite and above zero. -/
structure Bucket.Usable (b : Bucket) : Prop where
  crossSection : Double.isPositive b.crossSection = true
  maxAmpacity : Double.isPositive b.maxAmpacity = true
  breakerRating : Double.isPositive b.breakerRating = true

/-- No number of a bucket is at fault when all are positive. -/
theorem Bucket.find?_numbers_eq_none_iff (b : Bucket) :
    (b.numbers.find? fun n => !Double.isPositive n.2) = none ↔ b.Usable := by
  rw [List.find?_eq_none]
  constructor
  · intro h
    simp only [Bucket.numbers, List.forall_mem_cons, Bool.not_eq_true', Bool.not_eq_false] at h
    exact ⟨h.1, h.2.1, h.2.2.1⟩
  · rintro ⟨hsection, hampacity, hrating⟩
    simp [Bucket.numbers, hsection, hampacity, hrating]

namespace Coefficients

/-- A coefficient set without faults. -/
structure Usable (c : Coefficients) : Prop where
  scalars : ∀ s ∈ c.scalars, isNonNegative s.2 = true
  table : c.sizing ≠ []
  buckets : ∀ b ∈ c.sizing, b.Usable
  distinct : (c.sizing.map Bucket.maxAmpacity).Nodup

/-- An ampacity above zero is found in a list by comparing exactly if it is there. -/
theorem contains_iff_mem {x : Float} (hx : 0.0 < x) (xs : List Float) :
    xs.contains x = true ↔ x ∈ xs := by
  induction xs with
  | nil => simp
  | cons y rest ih =>
      rw [List.contains_cons, Bool.or_eq_true, ih, List.mem_cons]
      refine or_congr_left ⟨Double.eq_of_beq (Double.not_le_zero_of_pos hx), ?_⟩
      rintro rfl
      exact Double.beq_self hx

/-- The buckets are without fault when each is usable and no ampacity comes twice. -/
theorem bucketFault?_eq_none_iff (index : Nat) (seen : List Float) (bs : List Bucket) :
    bucketFault? index seen bs = none ↔
      (∀ b ∈ bs, b.Usable) ∧ (∀ b ∈ bs, b.maxAmpacity ∉ seen) ∧
        (bs.map Bucket.maxAmpacity).Nodup := by
  induction bs generalizing index seen with
  | nil => simp [bucketFault?]
  | cons b rest ih =>
      rw [bucketFault?]
      by_cases husable : b.Usable
      · have hcontains := contains_iff_mem (Double.pos_of_isPositive husable.maxAmpacity) seen
        rw [b.find?_numbers_eq_none_iff.mpr husable]
        by_cases hseen : b.maxAmpacity ∈ seen
        · simp [hcontains.mpr hseen, hseen]
        · simp only [if_neg (mt hcontains.mp hseen), ih, List.map_cons, List.nodup_cons,
            List.mem_cons, List.mem_map, not_or]
          grind
      · obtain ⟨n, hn⟩ := Option.ne_none_iff_exists'.mp (mt b.find?_numbers_eq_none_iff.mp husable)
        rw [hn]
        simp [husable]

/-- The scalars are without fault when none is negative. -/
theorem scalarFault?_eq_none_iff (c : Coefficients) :
    c.scalarFault? = none ↔ ∀ s ∈ c.scalars, isNonNegative s.2 = true := by
  simp [scalarFault?, List.find?_eq_none]

/-- The table is in order: it has buckets, and all of them are usable and told apart. -/
theorem tableFault?_eq_none_iff (bs : List Bucket) :
    (if bs.isEmpty then some .emptySizingTable else bucketFault? 0 [] bs) = none ↔
      bs ≠ [] ∧ (∀ b ∈ bs, b.Usable) ∧ (bs.map Bucket.maxAmpacity).Nodup := by
  cases bs with
  | nil => simp
  | cons b rest =>
      rw [if_neg (by simp), bucketFault?_eq_none_iff]
      simp

/-- Coefficients are without fault exactly when they are usable. -/
theorem fault?_eq_none_iff (c : Coefficients) : c.fault? = none ↔ c.Usable := by
  have hsplit : c.fault? = none ↔ c.scalarFault? = none ∧
      (if c.sizing.isEmpty then some .emptySizingTable else bucketFault? 0 [] c.sizing) = none := by
    rw [fault?]
    cases c.scalarFault? <;> simp
  rw [hsplit, scalarFault?_eq_none_iff, tableFault?_eq_none_iff]
  exact ⟨fun h => ⟨h.1, h.2.1, h.2.2.1, h.2.2.2⟩,
    fun h => ⟨h.scalars, h.table, h.buckets, h.distinct⟩⟩

/-- **What is accepted.**  Exactly the sets without faults are, with their buckets in order. -/
theorem checked_eq_ok_iff {c d : Coefficients} :
    c.checked = .ok d ↔ c.Usable ∧ d = { c with sizing := sortBuckets c.sizing } := by
  rw [← fault?_eq_none_iff, checked]
  cases c.fault? with
  | none => simp [eq_comm]
  | some fault => simp

/-! ### Buckets in order -/

/-- Sorting rearranges the buckets. -/
theorem sortBuckets_perm (bs : List Bucket) : (sortBuckets bs).Perm bs :=
  List.mergeSort_perm _ _

/-- **Sorting makes ampacities ascend**, if they are above zero and told apart. -/
theorem sortBuckets_ascending {bs : List Bucket}
    (hpos : ∀ b ∈ bs, Double.isPositive b.maxAmpacity = true)
    (hdistinct : (bs.map Bucket.maxAmpacity).Nodup) :
    (sortBuckets bs).Pairwise fun a b => a.maxAmpacity < b.maxAmpacity := by
  have hapart : (sortBuckets bs).Pairwise fun a b => a.maxAmpacity ≠ b.maxAmpacity :=
    List.pairwise_map.mp (((sortBuckets_perm bs).map _).nodup_iff.mpr hdistinct)
  apply ((Double.mergeSort_pairwise Bucket.maxAmpacity bs).and hapart).imp_of_mem
  rintro a b ha hb ⟨hkey, hne⟩
  have hapos := hpos a ((sortBuckets_perm bs).mem_iff.mp ha)
  have hbpos := hpos b ((sortBuckets_perm bs).mem_iff.mp hb)
  obtain ⟨hafinite, havalue⟩ := Double.isPositive_iff.mp hapos
  obtain ⟨hbfinite, -⟩ := Double.isPositive_iff.mp hbpos
  have hle := (Double.orderKey_le_iff hapos hbpos).mp hkey
  have hvalue := mt (Double.eq_of_value hafinite hbfinite havalue) hne
  exact (Double.lt_iff_value hafinite hbfinite).mpr (lt_of_le_of_ne hle hvalue)

/-- A set stays without faults in whatever order its buckets are put. -/
theorem Usable.reordered {c : Coefficients} (h : c.Usable) {bs : List Bucket}
    (hperm : bs.Perm c.sizing) : Usable { c with sizing := bs } where
  scalars := h.scalars
  table := by
    rintro rfl
    exact h.table hperm.nil_eq.symm
  buckets := fun b hb => h.buckets b (hperm.mem_iff.mp hb)
  distinct := (hperm.map _).nodup_iff.mpr h.distinct

/-- Checked coefficients are usable. -/
theorem usable_of_checked {c d : Coefficients} (h : c.checked = .ok d) : d.Usable := by
  obtain ⟨husable, rfl⟩ := checked_eq_ok_iff.mp h
  exact husable.reordered (sortBuckets_perm c.sizing)

/-- The built-in coefficients are accepted as they are. -/
theorem checked_builtin : builtin.checked = .ok builtin := by
  have hfault : builtin.fault? = none := by
    decide
  have hsorted : sortBuckets builtin.sizing = builtin.sizing := by
    apply List.mergeSort_of_pairwise
    decide
  refine checked_eq_ok_iff.mpr ⟨(fault?_eq_none_iff _).mp hfault, ?_⟩
  rw [hsorted]

end Coefficients

/-! ### Looking a current up -/

namespace SizingTable

/-- The first bucket is taken if it carries the current or is the only one. -/
theorem pick?_cons (b : Bucket) (rest : List Bucket) (current : Float) :
    pick? ⟨b :: rest⟩ current =
      if current ≤ b.maxAmpacity ∨ rest = [] then some b else pick? ⟨rest⟩ current := by
  by_cases hcarries : current ≤ b.maxAmpacity
  · rw [if_pos (Or.inl hcarries)]
    simp [pick?, hcarries]
  · cases rest with
    | nil => simp [pick?, hcarries]
    | cons o others => simp [pick?, hcarries]

/-- The bucket that is picked is one of the table. -/
theorem pick?_mem {t : SizingTable} {current : Float} {b : Bucket} (h : t.pick? current = some b) :
    b ∈ t.entries := by
  obtain ⟨entries⟩ := t
  induction entries with
  | nil => exact absurd h (by simp [pick?])
  | cons first rest ih =>
      rw [pick?_cons] at h
      split_ifs at h with hfirst
      · exact List.mem_cons.mpr (Or.inl (Option.some.inj h).symm)
      · exact List.mem_cons_of_mem first (ih h)

/-- A table that is not empty has a bucket for every current, also for one that is no number. -/
theorem exists_pick? {t : SizingTable} (h : t.entries ≠ []) (current : Float) :
    ∃ b, t.pick? current = some b := by
  obtain ⟨entries⟩ := t
  induction entries with
  | nil => exact absurd rfl h
  | cons first rest ih =>
      rw [pick?_cons]
      split_ifs with hfirst
      · exact ⟨first, rfl⟩
      · exact ih (not_or.mp hfirst).2

/-- **Looking up goes forward.**  What is found for a larger current stands in the table where the
smaller current's bucket does, or behind it. -/
theorem pick?_forward {t : SizingTable} {R : Bucket → Bucket → Prop}
    (hself : ∀ b ∈ t.entries, R b b) (hforward : t.entries.Pairwise R) {small large : Float}
    (hle : small ≤ large) {x y : Bucket} (hx : t.pick? small = some x)
    (hy : t.pick? large = some y) : R x y := by
  obtain ⟨entries⟩ := t
  induction entries with
  | nil => exact absurd hx (by simp [pick?])
  | cons first rest ih =>
      have hmem := pick?_mem hy
      rw [pick?_cons] at hx hy
      by_cases hfirst : small ≤ first.maxAmpacity ∨ rest = []
      · rw [if_pos hfirst, Option.some.injEq] at hx
        subst hx
        rcases List.mem_cons.mp hmem with rfl | hmem
        · exact hself y List.mem_cons_self
        · exact List.rel_of_pairwise_cons hforward hmem
      · -- What does not carry the smaller current does not carry the larger one.
        have hnext : ¬ (large ≤ first.maxAmpacity ∨ rest = []) := by
          rintro (hlarge | hnil)
          · exact hfirst (Or.inl (Double.trans_le hle hlarge))
          · exact hfirst (Or.inr hnil)
        rw [if_neg hfirst] at hx
        rw [if_neg hnext] at hy
        exact ih (fun b hb => hself b (List.mem_cons_of_mem first hb)) hforward.of_cons hx hy

/-- In a table whose ampacities grow, each bucket is found by its own ampacity. -/
theorem pick?_own {t : SizingTable} (hself : ∀ b ∈ t.entries, b.maxAmpacity ≤ b.maxAmpacity)
    (hgrows : t.entries.Pairwise fun a b => ¬ b.maxAmpacity ≤ a.maxAmpacity) {b : Bucket}
    (hb : b ∈ t.entries) : t.pick? b.maxAmpacity = some b := by
  obtain ⟨entries⟩ := t
  induction entries with
  | nil => cases hb
  | cons first rest ih =>
      rw [pick?_cons]
      rcases List.mem_cons.mp hb with rfl | hrest
      · rw [if_pos (Or.inl (hself b List.mem_cons_self))]
      · have hlater : ¬ (b.maxAmpacity ≤ first.maxAmpacity ∨ rest = []) :=
          not_or.mpr ⟨List.rel_of_pairwise_cons hgrows hrest, List.ne_nil_of_mem hrest⟩
        rw [if_neg hlater]
        exact ih (fun o ho => hself o (List.mem_cons_of_mem first ho)) hgrows.of_cons hrest

/-! ### The table of accepted coefficients -/

/-- The entries of the table are the buckets, with blank names left out. -/
theorem entries_perm (c : Coefficients) :
    (ofCoefficients c).entries.Perm (c.sizing.map namedOnly) :=
  List.mergeSort_perm _ _

/-- An entry of the table comes from a bucket. -/
theorem mem_ofCoefficients {c : Coefficients} {b : Bucket} :
    b ∈ (ofCoefficients c).entries ↔ ∃ o ∈ c.sizing, namedOnly o = b := by
  rw [(entries_perm c).mem_iff, List.mem_map]

variable {c d : Coefficients}

/-- The entries are the buckets of the set, without blank materials. -/
theorem mem_entries (h : c.checked = .ok d) {b : Bucket} :
    b ∈ (ofCoefficients d).entries ↔ ∃ o ∈ c.sizing, namedOnly o = b := by
  obtain ⟨-, rfl⟩ := Coefficients.checked_eq_ok_iff.mp h
  rw [mem_ofCoefficients]
  simp only [Coefficients.sortBuckets, List.mem_mergeSort]

/-- The entries of checked coefficients are usable. -/
theorem entries_usable (h : c.checked = .ok d) :
    ∀ b ∈ (ofCoefficients d).entries, b.Usable := by
  intro b hb
  obtain ⟨o, ho, rfl⟩ := (mem_entries h).mp hb
  obtain ⟨hsection, hampacity, hrating⟩ := (Coefficients.checked_eq_ok_iff.mp h).1.buckets o ho
  exact ⟨hsection, hampacity, hrating⟩

theorem entries_ne_nil (h : c.checked = .ok d) : (ofCoefficients d).entries ≠ [] := by
  obtain ⟨b, hb⟩ := List.exists_mem_of_ne_nil _ (Coefficients.checked_eq_ok_iff.mp h).1.table
  exact List.ne_nil_of_mem ((mem_entries h).mpr ⟨b, hb, rfl⟩)

/-- **Ampacities ascend along the table** of a set without faults, whatever order its buckets are
in. -/
theorem entries_ascending (h : c.Usable) :
    (ofCoefficients c).entries.Pairwise fun a b => a.maxAmpacity < b.maxAmpacity := by
  apply Coefficients.sortBuckets_ascending
  · intro b hb
    obtain ⟨o, ho, rfl⟩ := List.mem_map.mp hb
    exact (h.buckets o ho).maxAmpacity
  · rw [List.map_map]
    exact h.distinct

/-- Ampacities grow along the table. -/
theorem entries_grow (h : c.checked = .ok d) :
    (ofCoefficients d).entries.Pairwise fun a b =>
      a.maxAmpacity ≤ b.maxAmpacity ∧ ¬ b.maxAmpacity ≤ a.maxAmpacity := by
  have husable := entries_usable h
  apply (entries_ascending (Coefficients.usable_of_checked h)).imp_of_mem
  intro a b ha hb hlt
  have hafinite := (Double.isPositive_iff.mp (husable a ha).maxAmpacity).1
  have hbfinite := (Double.isPositive_iff.mp (husable b hb).maxAmpacity).1
  have hle := ((Double.lt_iff_value hafinite hbfinite).mp hlt).le
  exact ⟨(Double.le_iff_value hafinite hbfinite).mpr hle,
    (Double.not_le_iff hbfinite hafinite).mpr hlt⟩

/-- An ampacity in the table is a number, so it is at most itself. -/
theorem entries_self (h : c.checked = .ok d) :
    ∀ b ∈ (ofCoefficients d).entries, b.maxAmpacity ≤ b.maxAmpacity := by
  intro b hb
  exact Double.self_le_of_isPositive (entries_usable h b hb).maxAmpacity

/-- A current that is some bucket's ampacity gets that bucket. -/
theorem pick?_ampacity (h : c.checked = .ok d) {b : Bucket} (hb : b ∈ c.sizing) :
    (ofCoefficients d).pick? b.maxAmpacity = some (namedOnly b) :=
  pick?_own (entries_self h) ((entries_grow h).imp And.right) ((mem_entries h).mpr ⟨b, hb, rfl⟩)

/-- Cross-sections and breaker ratings grow with the ampacity. -/
def GrowWithAmpacity (bs : List Bucket) : Prop :=
  ∀ x ∈ bs, ∀ y ∈ bs, x.maxAmpacity ≤ y.maxAmpacity →
    x.crossSection ≤ y.crossSection ∧ x.breakerRating ≤ y.breakerRating

/-- **Larger currents.**  The table of accepted coefficients has a bucket for every current, and a
larger current never gets a bucket of a smaller ampacity.  It never gets a thinner cable nor a
smaller breaker exactly if cross-sections and ratings grow with the ampacity; that is not checked
when coefficients are accepted. -/
theorem larger_current (h : c.checked = .ok d) :
    (∀ current, ∃ b, (ofCoefficients d).pick? current = some b) ∧
    (∀ small large x y, small ≤ large → (ofCoefficients d).pick? small = some x →
      (ofCoefficients d).pick? large = some y → x.maxAmpacity ≤ y.maxAmpacity) ∧
    ((∀ small large x y, small ≤ large → (ofCoefficients d).pick? small = some x →
      (ofCoefficients d).pick? large = some y →
        x.crossSection ≤ y.crossSection ∧ x.breakerRating ≤ y.breakerRating) ↔
      GrowWithAmpacity c.sizing) := by
  have husable := entries_usable h
  refine ⟨exists_pick? (entries_ne_nil h), ?_, ?_, ?_⟩
  · intro small large x y hle hx hy
    exact pick?_forward (entries_self h) ((entries_grow h).imp And.left) hle hx hy
  · intro hpicks x hx y hy hle
    exact hpicks _ _ (namedOnly x) (namedOnly y) hle (pick?_ampacity h hx) (pick?_ampacity h hy)
  · intro hgrow small large x y hle hx hy
    refine pick?_forward (R := fun a b => a.crossSection ≤ b.crossSection ∧
      a.breakerRating ≤ b.breakerRating) ?_ ?_ hle hx hy
    · intro b hb
      exact ⟨Double.self_le_of_isPositive (husable b hb).crossSection,
        Double.self_le_of_isPositive (husable b hb).breakerRating⟩
    · apply (entries_grow h).imp_of_mem
      intro a b ha hb hab
      obtain ⟨x, hx, rfl⟩ := (mem_entries h).mp ha
      obtain ⟨y, hy, rfl⟩ := (mem_entries h).mp hb
      exact hgrow x hx y hy hab.1

/-- The built-in coefficients never give a larger current a thinner cable or a smaller breaker. -/
theorem larger_current_builtin :
    ∃ d, Coefficients.builtin.checked = .ok d ∧
      ∀ small large x y, small ≤ large → (ofCoefficients d).pick? small = some x →
        (ofCoefficients d).pick? large = some y →
          x.crossSection ≤ y.crossSection ∧ x.breakerRating ≤ y.breakerRating := by
  have hfault : Coefficients.builtin.fault? = none := by
    decide
  have hchecked := Coefficients.checked_eq_ok_iff.mpr
    ⟨Coefficients.builtin.fault?_eq_none_iff.mp hfault, rfl⟩
  refine ⟨_, hchecked, (larger_current hchecked).2.2.mpr ?_⟩
  unfold GrowWithAmpacity
  decide

/-- A bucket for sixteen amperes. -/
def thickBucket : Bucket where
  crossSection := 10.0
  maxAmpacity := 16.0
  breakerRating := 16.0

/-- A bucket for twenty amperes with a thinner cable and a smaller breaker. -/
def thinBucket : Bucket where
  crossSection := 1.5
  maxAmpacity := 20.0
  breakerRating := 10.0

/-- **A thinner cable for a larger current.**  Coefficients with these two buckets are accepted. -/
theorem thinner_cable_accepted :
    ¬ ∀ c d : Coefficients, c.checked = .ok d → ∀ small large x y, small ≤ large →
      (ofCoefficients d).pick? small = some x → (ofCoefficients d).pick? large = some y →
        x.crossSection ≤ y.crossSection ∧ x.maxAmpacity ≤ y.maxAmpacity ∧
          x.breakerRating ≤ y.breakerRating := by
  intro hall
  let c := { Coefficients.builtin with sizing := [thickBucket, thinBucket] }
  have hfault : c.fault? = none := by
    decide
  have hchecked := Coefficients.checked_eq_ok_iff.mpr ⟨c.fault?_eq_none_iff.mp hfault, rfl⟩
  have hthick := pick?_ampacity hchecked (b := thickBucket) List.mem_cons_self
  have hthin := pick?_ampacity hchecked (b := thinBucket)
    (List.mem_cons_of_mem _ (List.mem_singleton_self _))
  have hsection := (hall c _ hchecked _ _ _ _ (by decide) hthick hthin).1
  exact absurd hsection (by decide)

end SizingTable

end SolarBill
