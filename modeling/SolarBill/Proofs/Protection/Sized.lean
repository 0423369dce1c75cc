import SolarBill.Coefficients.Builtin
import SolarBill.Proofs.Coefficients.Sizing
import SolarBill.Protection

/-!
# Protection that carries every device

A subsystem draws the largest current among its complete entries, and gets breaker and cable of the
first bucket that carries it.  So no device of an installed subsystem overloads its bucket, and no
smaller bucket would do, unless the currents exceed all buckets; then the last one is taken.

Currents may be below zero in a catalogue, and the largest of several inverters is counted from zero
up.  No bucket sees a difference, since ampacities are above zero (`Protection.demand?_le_iff`).

* `SizingTable.exists_fits` — the bucket that is found is the right one;
* `Protection.installed` — the entries of a subsystem that count;
* `sized_for_every_device` — the bucket of an installed subsystem.
-/

namespace SolarBill

open Text

/-! ### Finding a bucket -/

namespace SizingTable

variable {t : SizingTable} {current : Float} {b : Bucket}

/-- What is found carries the current if any bucket does. -/
theorem pick?_carries (h : t.pick? current = some b)
    (hcarried : ∃ o ∈ t.entries, current ≤ o.maxAmpacity) : current ≤ b.maxAmpacity := by
  obtain ⟨entries⟩ := t
  induction entries with
  | nil => simp at hcarried
  | cons first rest ih =>
      rw [pick?_cons] at h
      rw [List.exists_mem_cons_iff] at hcarried
      by_cases hfirst : current ≤ first.maxAmpacity
      · rw [if_pos (Or.inl hfirst), Option.some.injEq] at h
        rwa [← h]
      · have hrest := hcarried.resolve_left hfirst
        have hne : rest ≠ [] := by
          rintro rfl
          simp at hrest
        rw [if_neg (not_or.mpr ⟨hfirst, hne⟩)] at h
        exact ih h hrest

variable (hascending : t.entries.Pairwise fun a b => a.maxAmpacity < b.maxAmpacity)

include hascending

/-- Buckets of a smaller ampacity than the one that is found do not carry the current. -/
theorem pick?_least (h : t.pick? current = some b) :
    ∀ o ∈ t.entries, o.maxAmpacity < b.maxAmpacity → ¬ current ≤ o.maxAmpacity := by
  obtain ⟨entries⟩ := t
  induction entries with
  | nil => simp
  | cons first rest ih =>
      intro o ho hless
      rw [pick?_cons] at h
      by_cases hfirst : current ≤ first.maxAmpacity ∨ rest = []
      · rw [if_pos hfirst, Option.some.injEq] at h
        subst h
        rcases List.mem_cons.mp ho with rfl | ho
        · exact absurd hless (Double.lt_asymm hless)
        · exact absurd hless (Double.lt_asymm (List.rel_of_pairwise_cons hascending ho))
      · rw [if_neg hfirst] at h
        rcases List.mem_cons.mp ho with rfl | ho
        · exact (not_or.mp hfirst).1
        · exact ih hascending.of_cons h o ho hless

/-- A current that no bucket carries gets the bucket of the largest ampacity. -/
theorem pick?_last (h : t.pick? current = some b)
    (hexceeds : ∀ o ∈ t.entries, ¬ current ≤ o.maxAmpacity) :
    ∀ o ∈ t.entries, ¬ b.maxAmpacity < o.maxAmpacity := by
  obtain ⟨entries⟩ := t
  induction entries with
  | nil => simp
  | cons first rest ih =>
      intro o ho hmore
      rw [pick?_cons] at h
      rw [List.forall_mem_cons] at hexceeds
      by_cases hrest : rest = []
      · rw [if_pos (Or.inr hrest), Option.some.injEq] at h
        subst h hrest
        rw [List.mem_singleton.mp ho] at hmore
        exact Double.lt_asymm hmore hmore
      · rw [if_neg (not_or.mpr ⟨hexceeds.1, hrest⟩)] at h
        rcases List.mem_cons.mp ho with rfl | ho
        · exact Double.lt_asymm (List.rel_of_pairwise_cons hascending (pick?_mem h)) hmore
        · exact ih hascending.of_cons h hexceeds.2 o ho hmore

omit hascending

/-- The right bucket for a current: it carries the current if any bucket does, no bucket of a
smaller ampacity does, and it is the last one if no bucket carries the current. -/
structure Fits (bs : List Bucket) (current : Float) (b : Bucket) : Prop where
  mem : b ∈ bs
  carries : (∃ o ∈ bs, current ≤ o.maxAmpacity) → current ≤ b.maxAmpacity
  least : ∀ o ∈ bs, o.maxAmpacity < b.maxAmpacity → ¬ current ≤ o.maxAmpacity
  last : (∀ o ∈ bs, ¬ current ≤ o.maxAmpacity) → ∀ o ∈ bs, ¬ b.maxAmpacity < o.maxAmpacity

/-- Currents that no bucket tells apart have the same right bucket. -/
theorem Fits.congr {bs : List Bucket} {other : Float} (h : Fits bs current b)
    (hsame : ∀ o ∈ bs, current ≤ o.maxAmpacity ↔ other ≤ o.maxAmpacity) : Fits bs other b where
  mem := h.mem
  carries := by
    rintro ⟨o, ho, hle⟩
    exact (hsame b h.mem).mp (h.carries ⟨o, ho, (hsame o ho).mpr hle⟩)
  least := fun o ho hless => mt (hsame o ho).mpr (h.least o ho hless)
  last := fun hexceeds => h.last fun o ho => mt (hsame o ho).mp (hexceeds o ho)

/-- **The bucket that is found is the right one.** -/
theorem exists_fits {c : Coefficients} (h : c.Usable) (current : Float) :
    ∃ b, (ofCoefficients c).pick? current = some (namedOnly b) ∧ Fits c.sizing current b := by
  have hentry : ∀ o ∈ c.sizing, namedOnly o ∈ (ofCoefficients c).entries := fun o ho =>
    mem_ofCoefficients.mpr ⟨o, ho, rfl⟩
  have hascending := entries_ascending h
  obtain ⟨o, ho⟩ := List.exists_mem_of_ne_nil _ h.table
  obtain ⟨found, hpick⟩ := exists_pick? (List.ne_nil_of_mem (hentry o ho)) current
  obtain ⟨b, hb, rfl⟩ := mem_ofCoefficients.mp (pick?_mem hpick)
  refine ⟨b, hpick, hb, ?_, ?_, ?_⟩
  · rintro ⟨o, ho, hle⟩
    have hcarries := pick?_carries hpick ⟨namedOnly o, hentry o ho, hle⟩
    exact hcarries
  · intro o ho hless
    exact pick?_least hascending hpick (namedOnly o) (hentry o ho) hless
  · intro hexceeds o ho
    refine pick?_last hascending hpick ?_ (namedOnly o) (hentry o ho)
    intro entry hmem
    obtain ⟨bucket, hbucket, rfl⟩ := mem_ofCoefficients.mp hmem
    exact hexceeds bucket hbucket

end SizingTable

/-! ### The entries that count -/

/-- A number that is looked up is finite. -/
theorem AttributeValue.isFinite_toNumber (v : AttributeValue) : v.toNumber.isFinite = true := by
  cases v with
  | number x =>
      rw [toNumber]
      split_ifs with hfinite
      · exact hfinite
      · decide
  | text s =>
      rw [toNumber, Locale.number?]
      cases hnumber : ((Locale.decimal? s).map Decimal.toFloat).filter Float.isFinite with
      | none => decide
      | some x => exact (Option.filter_eq_some_iff.mp hnumber).2
  | flag f =>
      change (0.0 : Float).isFinite = true
      decide

/-- Whatever an attribute says, it is read as a finite number. -/
theorem isFinite_numberOf (m : Option Material) (names : AttributeNames) :
    (numberOf m names).isFinite = true := by
  rw [numberOf]
  cases m.bind (·.attribute? names) with
  | none => decide
  | some v => exact v.isFinite_toNumber

namespace Protection

variable {s : Subsystem} {p q : Plan} {catalog : Catalog} {c : Coefficients}

/-- The complete entries of a subsystem. -/
def installed (s : Subsystem) (p : Plan) : List Selection :=
  match s with
  | .inverter => (p.inverters.filter Inverter.isComplete).map fun v => ⟨v.materialId, v.quantity⟩
  | .wallbox => (p.options.wallbox.filter Selection.isComplete).toList
  | .backup => (p.options.backup.filter Selection.isComplete).toList

/-- The largest current of each complete entry. -/
def currents (s : Subsystem) (p : Plan) (catalog : Catalog) : List Float :=
  (installed s p).map fun x => currentOf catalog x.materialId

/-- The currents of a subsystem are finite. -/
theorem isFinite_of_mem_currents {x : Float} (h : x ∈ currents s p catalog) :
    x.isFinite = true := by
  obtain ⟨entry, -, rfl⟩ := List.mem_map.mp h
  exact isFinite_numberOf _ _

/-- A selection counts as a list of at most one. -/
theorem selectedUnits_eq (o : Option Selection) :
    selectedUnits o =
      ((o.filter Selection.isComplete).toList.map fun x => x.quantity.toUInt64).foldl (· + ·) 0 := by
  cases o with
  | none => rfl
  | some x => by_cases hcomplete : x.isComplete <;> simp [selectedUnits, hcomplete, Option.filter_some]

/-- The units of a subsystem are those of its complete entries. -/
theorem deviceCount_eq (s : Subsystem) (p : Plan) :
    deviceCount s p = ((installed s p).map fun x => x.quantity.toUInt64).foldl (· + ·) 0 := by
  cases s with
  | inverter =>
      rw [installed, List.map_map]
      rfl
  | wallbox => exact selectedUnits_eq p.options.wallbox
  | backup => exact selectedUnits_eq p.options.backup

/-- The only entry of a subsystem that has units is complete. -/
theorem filter_of_selectedUnits {o : Option Selection} (h : selectedUnits o ≠ 0) :
    o.filter Selection.isComplete = o := by
  cases o with
  | none => rfl
  | some x =>
      by_cases hcomplete : x.isComplete
      · simp [hcomplete]
      · simp [selectedUnits, hcomplete] at h

/-- **Demand**: the currents of the complete entries decide it. -/
theorem demand?_eq (s : Subsystem) (p : Plan) (catalog : Catalog) :
    demand? s p catalog =
      if deviceCount s p = 0 then none
      else if s = .inverter then some ((currents s p catalog).foldl Double.max 0.0)
      else some ((currents s p catalog).headD 0.0) := by
  have hselected : ∀ o : Option Selection, selectedUnits o ≠ 0 →
      (o.map fun x => currentOf catalog x.materialId).getD 0.0 =
        (((o.filter Selection.isComplete).toList).map fun x =>
          currentOf catalog x.materialId).headD 0.0 := by
    intro o ho
    rw [filter_of_selectedUnits ho]
    cases o <;> rfl
  by_cases hcount : deviceCount s p = 0
  · rw [demand?, if_pos hcount, if_pos hcount]
  · rw [demand?, if_neg hcount, if_neg hcount]
    cases s with
    | inverter => simp [currents, installed, Function.comp_def]
    | wallbox => exact congrArg some (hselected p.options.wallbox hcount)
    | backup => exact congrArg some (hselected p.options.backup hcount)

/-- Entries that are not complete have no influence. -/
theorem recommended_of_installed (h : installed s q = installed s p) (catalog : Catalog)
    (c : Coefficients) : recommended s q catalog c = recommended s p catalog c := by
  have hdemand : demand? s q catalog = demand? s p catalog := by
    simp only [demand?_eq, deviceCount_eq, currents, h]
  rw [recommended, recommended, hdemand]

/-- **A bucket carries the demand if it carries every device.** -/
theorem demand?_le_iff {x bound : Float} (h : demand? s p catalog = some x)
    (hbound : Double.isPositive bound = true) :
    x ≤ bound ↔ ∀ y ∈ currents s p catalog, y ≤ bound := by
  have hpos : Double.NonNegative bound := Or.inr (Double.pos_of_isPositive hbound)
  have hselected : ∀ o : Option Selection,
      (o.toList.map fun x => currentOf catalog x.materialId).headD 0.0 ≤ bound ↔
        ∀ y ∈ o.toList.map fun x => currentOf catalog x.materialId, y ≤ bound := by
    intro o
    cases o with
    | none => simpa using hpos.zero_le
    | some entry => simp
  rw [demand?_eq, ite_eq_iff] at h
  obtain ⟨-, h⟩ := h.resolve_left (by simp)
  cases s with
  | inverter =>
      rw [if_pos rfl, Option.some.injEq] at h
      have hnumbers : ∀ y ∈ currents .inverter p catalog, ¬ y.isNaN := fun y hy =>
        Double.not_isNaN_of_isFinite (isFinite_of_mem_currents hy)
      rw [← h, Double.NonNegative.zero.foldl_max_le_iff hnumbers hpos.not_isNaN,
        and_iff_right hpos.zero_le]
  | wallbox =>
      rw [if_neg (by decide), Option.some.injEq] at h
      exact h ▸ hselected _
  | backup =>
      rw [if_neg (by decide), Option.some.injEq] at h
      exact h ▸ hselected _

theorem currents_ne_nil (hcount : deviceCount s p ≠ 0) : currents s p catalog ≠ [] := by
  intro hnil
  rw [deviceCount_eq, List.map_eq_nil_iff.mp hnil] at hcount
  exact hcount rfl

/-- An installed subsystem gets breaker and cable of the bucket that is right for the largest current
of its complete entries. -/
theorem exists_recommended (h : c.Usable) (hcount : deviceCount s p ≠ 0) {largest : Float}
    (hlargest : largest ∈ currents s p catalog)
    (hgreatest : ∀ x ∈ currents s p catalog, x ≤ largest) :
    ∃ b, (recommended s p catalog c).breaker = nonBlank? b.breaker ∧
      (recommended s p catalog c).cable = nonBlank? b.cable ∧
      SizingTable.Fits c.sizing largest b := by
  obtain ⟨demand, hdemand⟩ : ∃ demand, demand? s p catalog = some demand := by
    rw [demand?, if_neg hcount]
    exact ⟨_, rfl⟩
  obtain ⟨b, hpick, hfits⟩ := SizingTable.exists_fits h demand
  refine ⟨b, ?_, ?_, hfits.congr ?_⟩
  · simp only [recommended, hdemand, hpick]
    rfl
  · simp only [recommended, hdemand, hpick]
    rfl
  · intro o ho
    rw [demand?_le_iff hdemand (h.buckets o ho).maxAmpacity]
    exact ⟨fun hall => hall largest hlargest,
      fun hle x hx => Double.trans_le (hgreatest x hx) hle⟩

end Protection

open Protection in
/-- **Protection that carries every device.**  With accepted coefficients, an installed subsystem
gets breaker and cable of one bucket.  If any bucket carries the largest current of the complete
entries, then this one carries the current of each of them, and every bucket of a smaller ampacity
is too small for one of them.  If the largest current exceeds every bucket, then it is the bucket of
the largest ampacity.  Entries that are not complete have no influence. -/
theorem sized_for_every_device {c d : Coefficients} (h : c.checked = .ok d) (s : Subsystem)
    (p : Plan) (catalog : Catalog) :
    (deviceCount s p ≠ 0 →
      ∃ largest ∈ currents s p catalog, (∀ x ∈ currents s p catalog, x ≤ largest) ∧
      ∃ b ∈ c.sizing,
        (recommended s p catalog c).breaker = nonBlank? b.breaker ∧
        (recommended s p catalog c).cable = nonBlank? b.cable ∧
        ((∃ o ∈ c.sizing, largest ≤ o.maxAmpacity) →
          (∀ x ∈ currents s p catalog, x ≤ b.maxAmpacity) ∧
          ∀ o ∈ c.sizing, o.maxAmpacity < b.maxAmpacity →
            ∃ x ∈ currents s p catalog, o.maxAmpacity < x) ∧
        ((∀ o ∈ c.sizing, o.maxAmpacity < largest) →
          ∀ o ∈ c.sizing, o.maxAmpacity ≤ b.maxAmpacity)) ∧
    ∀ q, installed s q = installed s p → recommended s q catalog c = recommended s p catalog c := by
  obtain ⟨husable, -⟩ := Coefficients.checked_eq_ok_iff.mp h
  refine ⟨fun hcount => ?_, fun q hq => recommended_of_installed hq catalog c⟩
  obtain ⟨largest, hlargest, hgreatest⟩ := Double.exists_greatest (currents_ne_nil hcount)
    fun x (hx : x ∈ currents s p catalog) => isFinite_of_mem_currents hx
  obtain ⟨b, hbreaker, hcable, hfits⟩ := exists_recommended husable hcount hlargest hgreatest
  -- Ampacities and currents are numbers, so what is not at most something exceeds it.
  have hfinite : ∀ o ∈ c.sizing, o.maxAmpacity.isFinite = true := fun o ho =>
    (Double.isPositive_iff.mp (husable.buckets o ho).maxAmpacity).1
  have hexceeds : ∀ o ∈ c.sizing, ¬ largest ≤ o.maxAmpacity ↔ o.maxAmpacity < largest :=
    fun o ho => Double.not_le_iff (isFinite_of_mem_currents hlargest) (hfinite o ho)
  refine ⟨largest, hlargest, hgreatest, b, hfits.mem, hbreaker, hcable, ?_, ?_⟩
  · intro hcarried
    refine ⟨fun x hx => Double.trans_le (hgreatest x hx) (hfits.carries hcarried), ?_⟩
    intro o ho hless
    exact ⟨largest, hlargest, (hexceeds o ho).mp (hfits.least o ho hless)⟩
  · intro hall o ho
    have hlast := hfits.last (fun o ho => (hexceeds o ho).mpr (hall o ho)) o ho
    by_contra hmore
    exact hlast ((Double.not_le_iff (hfinite o ho) (hfinite b hfits.mem)).mp hmore)

/-- A small and a large inverter, and an entry without a material. -/
def smallAndLargePlan : Plan where
  inverters := [⟨"INV-S", 2, []⟩, ⟨"INV-L", 1, []⟩, ⟨" ", 5, []⟩]

/-- The currents of both, one of them as a data sheet writes it. -/
def smallAndLargeCatalog : Catalog :=
  .ofList
    [ { id := "INV-S", attributes := [("max_ac_current_a", .number 9.5)] },
      { id := "INV-L", attributes := [("Max. AC-Strom", .text "18,5 A")] }]

open Protection in
/-- One bucket carries both inverters, and the entry without a material does not matter. -/
theorem sized_for_every_device_smallAndLarge :
    Coefficients.builtin.checked = .ok .builtin ∧ deviceCount .inverter smallAndLargePlan = 3 ∧
      currents .inverter smallAndLargePlan smallAndLargeCatalog = [9.5, 18.5] ∧
      (∃ b ∈ Coefficients.builtin.sizing,
        (recommended .inverter smallAndLargePlan smallAndLargeCatalog .builtin).breaker =
          nonBlank? b.breaker ∧
        9.5 ≤ b.maxAmpacity ∧ 18.5 ≤ b.maxAmpacity) ∧
      recommended .inverter { smallAndLargePlan with inverters := smallAndLargePlan.inverters.take 2 }
          smallAndLargeCatalog .builtin =
        recommended .inverter smallAndLargePlan smallAndLargeCatalog .builtin := by
  have hcurrents : currents .inverter smallAndLargePlan smallAndLargeCatalog = [9.5, 18.5] := by
    decide
  obtain ⟨hinstalled, hsame⟩ := sized_for_every_device Coefficients.checked_builtin .inverter
    smallAndLargePlan smallAndLargeCatalog
  obtain ⟨largest, hlargest, -, b, hb, hbreaker, -, hcarries, -⟩ := hinstalled (by decide)
  rw [hcurrents] at hlargest hcarries
  have hsome : ∃ o ∈ Coefficients.builtin.sizing, largest ≤ o.maxAmpacity := by
    have hall : ∀ x ∈ [9.5, 18.5], ∃ o ∈ Coefficients.builtin.sizing, x ≤ o.maxAmpacity := by
      decide
    exact hall largest hlargest
  obtain ⟨hcarried, -⟩ := hcarries hsome
  exact ⟨Coefficients.checked_builtin, by decide, hcurrents,
    ⟨b, hb, hbreaker, hcarried 9.5 (by simp), hcarried 18.5 (by simp)⟩, hsame _ (by decide)⟩

end SolarBill
