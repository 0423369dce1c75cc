import SolarBill.Bill.Compile
import SolarBill.DataDirectory
import SolarBill.Proofs.Coefficients.Sizing

/-!
# Accepted coefficients

A coefficient set is checked number by number: those outside the ampacity table must be finite and
not below zero, those of its buckets finite and above zero, and the ampacities must be told apart.
Accepting a set changes nothing but the order of its buckets, and there is one order only in which
ampacities ascend.  So a second check finds nothing to do, and the order in which buckets were
entered is forgotten.  Bills do not see whether their coefficients were checked, because they sort
the buckets themselves.

* `Coefficients.usable_iff` — the conditions on the numbers;
* `Coefficients.checked_reordered` — buckets in another order become the same set;
* `compile_reordered` — and lead to the same bill;
* `DataDirectory.returns_loadCoefficients` — no set is loaded that was not checked;
* `acceptance` — all of this together.
-/

namespace SolarBill

/-! ### The conditions -/

/-- A bucket is usable when its three numbers are finite and positive. -/
theorem Bucket.usable_iff (b : Bucket) :
    b.Usable ↔ ∀ x ∈ [b.crossSection, b.maxAmpacity, b.breakerRating],
      x.isFinite = true ∧ 0.0 < x := by
  have hpositive : ∀ x, Double.isPositive x = true ↔ x.isFinite = true ∧ 0.0 < x := by
    simp [Double.isPositive]
  simp only [List.forall_mem_cons, ← hpositive]
  constructor
  · rintro ⟨hsection, hampacity, hrating⟩
    exact ⟨hsection, hampacity, hrating, fun _ h => absurd h List.not_mem_nil⟩
  · rintro ⟨hsection, hampacity, hrating, -⟩
    exact ⟨hsection, hampacity, hrating⟩

namespace Coefficients

variable {c d : Coefficients} {bs : List Bucket}

/-- The scalars are six numbers and the quantities of all consumables. -/
theorem forall_scalars_iff (c : Coefficients) :
    (∀ s ∈ c.scalars, isNonNegative s.2 = true) ↔
      (∀ x ∈ [c.mountingRatio, c.dc.connectorPairsPerString, c.dc.cableLengthPerString,
        c.ac.cableLengthPerDevice, c.grounding.multiplier, c.labels.quantity],
        x.isFinite = true ∧ 0.0 ≤ x) ∧
      ∀ k, (c.consumables k).quantity.isFinite = true ∧ 0.0 ≤ (c.consumables k).quantity := by
  have hnonNegative : ∀ x, isNonNegative x = true ↔ x.isFinite = true ∧ 0.0 ≤ x := by
    simp [isNonNegative]
  simp only [hnonNegative, scalars, List.forall_mem_append]
  apply and_congr
  · simp only [List.forall_mem_cons]
    simp
  · rw [List.forall_mem_map]
    exact forall_congr' fun k => forall_prop_of_true (Consumable.mem_all k)

/-- **The conditions, number by number.** -/
theorem usable_iff (c : Coefficients) :
    c.Usable ↔
      (∀ x ∈ [c.mountingRatio, c.dc.connectorPairsPerString, c.dc.cableLengthPerString,
        c.ac.cableLengthPerDevice, c.grounding.multiplier, c.labels.quantity],
        x.isFinite = true ∧ 0.0 ≤ x) ∧
      (∀ k, (c.consumables k).quantity.isFinite = true ∧ 0.0 ≤ (c.consumables k).quantity) ∧
      c.sizing ≠ [] ∧
      (∀ b ∈ c.sizing, ∀ x ∈ [b.crossSection, b.maxAmpacity, b.breakerRating],
        x.isFinite = true ∧ 0.0 < x) ∧
      (c.sizing.map Bucket.maxAmpacity).Nodup := by
  simp only [← Bucket.usable_iff]
  rw [← and_assoc, ← forall_scalars_iff]
  constructor
  · intro h
    exact ⟨h.scalars, h.table, h.buckets, h.distinct⟩
  · rintro ⟨hscalars, htable, hbuckets, hdistinct⟩
    exact ⟨hscalars, htable, hbuckets, hdistinct⟩

/-- Coefficients pass their check exactly when they are usable. -/
theorem exists_checked_iff (c : Coefficients) : (∃ d, c.checked = .ok d) ↔ c.Usable := by
  simp only [checked_eq_ok_iff, exists_and_left, exists_eq, and_true]

/-! ### The order of the buckets -/

/-- Ampacities that are told apart tell their buckets apart. -/
theorem Usable.eq_of_maxAmpacity (h : c.Usable) {a b : Bucket} (ha : a ∈ c.sizing)
    (hb : b ∈ c.sizing) (heq : a.maxAmpacity = b.maxAmpacity) : a = b :=
  List.inj_on_of_nodup_map h.distinct ha hb heq

/-- **Buckets in another order** become the same set. -/
theorem checked_reordered (h : c.checked = .ok d) (hperm : bs.Perm c.sizing) :
    checked { c with sizing := bs } = .ok d := by
  obtain ⟨husable, rfl⟩ := checked_eq_ok_iff.mp h
  have hsorted : sortBuckets bs = sortBuckets c.sizing := by
    refine Double.mergeSort_eq_of_perm hperm ?_
    intro a ha b hb heq
    exact husable.eq_of_maxAmpacity (hperm.mem_iff.mp ha) (hperm.mem_iff.mp hb) heq
  exact checked_eq_ok_iff.mpr ⟨husable.reordered hperm, by rw [hsorted]⟩

/-- **Checking again** changes nothing. -/
theorem checked_again (h : c.checked = .ok d) : d.checked = .ok d := by
  obtain ⟨-, hd⟩ := checked_eq_ok_iff.mp h
  have hreordered := checked_reordered h (sortBuckets_perm c.sizing)
  rwa [← hd] at hreordered

end Coefficients

/-! ### Bills -/

/-- The sizing table does not depend on the order of the buckets. -/
theorem SizingTable.ofCoefficients_reordered {c : Coefficients} (h : c.Usable) {bs : List Bucket}
    (hperm : bs.Perm c.sizing) : ofCoefficients { c with sizing := bs } = ofCoefficients c := by
  have hnamed : (bs.map namedOnly).Perm (c.sizing.map namedOnly) := hperm.map namedOnly
  refine congrArg SizingTable.mk (Double.mergeSort_eq_of_perm hnamed ?_)
  intro a ha b hb heq
  obtain ⟨x, hx, rfl⟩ := List.mem_map.mp ha
  obtain ⟨y, hy, rfl⟩ := List.mem_map.mp hb
  rw [h.eq_of_maxAmpacity (hperm.mem_iff.mp hx) (hperm.mem_iff.mp hy) heq]

/-- Of the buckets, the rules read the ampacity table alone. -/
theorem Rules.lines_of_table {c : Coefficients} {bs : List Bucket}
    (h : SizingTable.ofCoefficients { c with sizing := bs } = SizingTable.ofCoefficients c)
    (plan : Plan) (catalog : Catalog) :
    lines ⟨plan, catalog, { c with sizing := bs }⟩ = lines ⟨plan, catalog, c⟩ := by
  have hchosen : ∀ s, Protection.chosen s plan catalog { c with sizing := bs } =
      Protection.chosen s plan catalog c := by
    intro s
    simp only [Protection.chosen, Protection.recommended, h]
  have hprotection : protectionLines ⟨plan, catalog, { c with sizing := bs }⟩ =
      protectionLines ⟨plan, catalog, c⟩ := by
    apply List.flatMap_congr
    intro s _
    simp only [subsystemLines, configured, emit, hchosen]
  rw [lines, hprotection]
  rfl

/-- **A bill does not see the order of the buckets** in usable coefficients. -/
theorem compile_reordered {c : Coefficients} (h : c.Usable) {bs : List Bucket}
    (hperm : bs.Perm c.sizing) (plan : Plan) (catalog : Catalog) :
    compile plan catalog { c with sizing := bs } = compile plan catalog c := by
  have hlines := Rules.lines_of_table (SizingTable.ofCoefficients_reordered h hperm) plan catalog
  simp only [compile, Rules.draft, hlines]
  rfl

/-! ### Loading -/

namespace DataDirectory

variable {σ α β : Type} {P : β → Prop}

/-- Whatever an operation returns, in any state of the files, meets a condition. -/
def Returns (P : β → Prop) (op : Op (StateM σ) β) : Prop :=
  ∀ before value after, op.run before = (.ok value, after) → P value

namespace Returns

/-- A value that has the property is returned with it. -/
theorem pure {b : β} (h : P b) : Returns P (Pure.pure b : Op (StateM σ) β) := by
  intro before value after hrun
  cases hrun
  exact h

/-- A failure returns nothing. -/
theorem throw (e : DataError) : Returns P (MonadExcept.throw e : Op (StateM σ) β) := by
  intro before value after hrun
  cases hrun

/-- What comes last decides. -/
theorem bind {op : Op (StateM σ) α} {next : α → Op (StateM σ) β} (h : ∀ a, Returns P (next a)) :
    Returns P (op >>= next) := by
  intro before value after hrun
  change (match op.run before with | (r, s) => ExceptT.bindCont next r s) = _ at hrun
  cases hop : op.run before with
  | mk result s =>
      rw [hop] at hrun
      cases result with
      | ok a => exact h a s value after hrun
      | error e => cases hrun

end Returns

/-- Coefficients that are read from a file have passed their check. -/
theorem returns_readCoefficients (files : Files (StateM σ)) (d : DataDirectory)
    (env : Environment) :
    Returns (fun c => ∃ raw : Coefficients, raw.checked = .ok c) (readCoefficients files d env) := by
  refine Returns.bind fun layer => Returns.bind fun layer => Returns.bind fun raw => ?_
  cases hchecked : raw.checked with
  | ok c =>
      simp only
      exact Returns.pure ⟨raw, hchecked⟩
  | error fault => exact Returns.throw _

/-- **What is loaded has been checked**, whatever is in the file and in the environment. -/
theorem returns_loadCoefficients (files : Files (StateM σ)) (d : DataDirectory)
    (env : Environment) :
    Returns (fun c => ∃ raw : Coefficients, raw.checked = .ok c) (loadCoefficients files d env) := by
  refine Returns.bind fun there => ?_
  cases there with
  | true => exact returns_readCoefficients files d env
  | false => exact Returns.bind fun _ => Returns.pure ⟨.builtin, Coefficients.checked_builtin⟩

end DataDirectory

/-- **Acceptance.**  A coefficient set is accepted exactly if its numbers outside the ampacity table
are finite and not below zero, there are buckets, all their numbers are finite and above zero, and
no two ampacities are equal.  Then nothing changes but the order of the buckets: ampacities ascend
strictly, the order before is forgotten, a second check changes nothing, and no bill does.  Every
set that is loaded, from whatever files with whatever environment, was accepted in this way. -/
theorem acceptance :
    (∀ c : Coefficients,
      ((∃ d, c.checked = .ok d) ↔
        (∀ x ∈ [c.mountingRatio, c.dc.connectorPairsPerString, c.dc.cableLengthPerString,
          c.ac.cableLengthPerDevice, c.grounding.multiplier, c.labels.quantity],
          x.isFinite = true ∧ 0.0 ≤ x) ∧
        (∀ k, (c.consumables k).quantity.isFinite = true ∧ 0.0 ≤ (c.consumables k).quantity) ∧
        c.sizing ≠ [] ∧
        (∀ b ∈ c.sizing, ∀ x ∈ [b.crossSection, b.maxAmpacity, b.breakerRating],
          x.isFinite = true ∧ 0.0 < x) ∧
        (c.sizing.map Bucket.maxAmpacity).Nodup) ∧
      ∀ d, c.checked = .ok d →
        d = { c with sizing := d.sizing } ∧ d.sizing.Perm c.sizing ∧
        (d.sizing.Pairwise fun a b => a.maxAmpacity < b.maxAmpacity) ∧
        (∀ bs, bs.Perm c.sizing → Coefficients.checked { c with sizing := bs } = .ok d) ∧
        d.checked = .ok d ∧
        ∀ plan catalog, compile plan catalog c = compile plan catalog d) ∧
    ∀ (σ : Type) (files : Files (StateM σ)) (directory : DataDirectory) (env : Environment)
      (before after : σ) (c : Coefficients),
      (directory.loadCoefficients files env).run before = (.ok c, after) →
        ∃ raw : Coefficients, raw.checked = .ok c := by
  refine ⟨?_, ?_⟩
  · intro c
    refine ⟨c.exists_checked_iff.trans c.usable_iff, ?_⟩
    intro d hchecked
    obtain ⟨husable, rfl⟩ := Coefficients.checked_eq_ok_iff.mp hchecked
    have hperm := Coefficients.sortBuckets_perm c.sizing
    have hascending := Coefficients.sortBuckets_ascending
      (fun b hb => (husable.buckets b hb).maxAmpacity) husable.distinct
    exact ⟨rfl, hperm, hascending, fun bs hbs => Coefficients.checked_reordered hchecked hbs,
      Coefficients.checked_again hchecked,
      fun plan catalog => (compile_reordered husable hperm plan catalog).symm⟩
  · intro σ files directory env before after c hrun
    exact DataDirectory.returns_loadCoefficients files directory env before c after hrun

/-- A place that has no files and keeps none. -/
def Files.nowhere : Files (StateM Unit) where
  pathExists := fun _ => return false
  isFile := fun _ => return false
  read? := fun _ => return none
  write := fun _ _ => return false
  makeDirectory := fun _ => return false

/-- The built-in coefficients, their buckets entered the other way round. -/
def Coefficients.reversed : Coefficients :=
  { builtin with sizing := builtin.sizing.reverse }

/-- They are the built-in ones when they are accepted, and no bill sees a difference. -/
theorem acceptance_reversed :
    Coefficients.reversed.checked = .ok .builtin ∧ Coefficients.builtin.checked = .ok .builtin ∧
      (∀ plan catalog, compile plan catalog .reversed = compile plan catalog .builtin) ∧
      ∃ raw : Coefficients, raw.checked = .ok .builtin := by
  obtain ⟨haccepted, hloaded⟩ := acceptance
  have hchecked : Coefficients.reversed.checked = .ok .builtin :=
    Coefficients.checked_reordered Coefficients.checked_builtin (List.reverse_perm _)
  obtain ⟨-, -, -, -, hagain, hbill⟩ := (haccepted .reversed).2 .builtin hchecked
  exact ⟨hchecked, hagain, hbill, hloaded Unit Files.nowhere ⟨"data"⟩ [] () () .builtin rfl⟩

end SolarBill
