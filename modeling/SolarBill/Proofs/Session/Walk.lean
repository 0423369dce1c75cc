import SolarBill.Proofs.Session.Review

/-!
# Walking through the wizard

A plan is checked in two ways.  Whoever moves forwards has the current stage checked, and is refused
if it has issues; `Stage.issuesBefore` collects the issues of all stages before a stage at once.  A
walk consists of moves in both directions and of edits of the review, and it keeps the plan.  On a
walk the two agree, although moving back is never checked: the stages behind an earlier stage are
behind the later one as well, and whoever comes forwards again is checked again.

* `Stage.issuesBefore_next?` — one stage further there are the issues of one more stage;
* `OnTheWay` — what a walk keeps: `OnTheWay.step` for its steps, `OnTheWay.after` for whole walks;
* `refused_iff` — who is refused, and what is reported;
* `walks_follow_checks` — the stages that walks reach, and where they end.
-/

namespace SolarBill

/-! ### Stages one after the other -/

namespace Stage

/-- Going back and forth leads to the same stage. -/
theorem next?_of_previous? {s t : Stage} (h : s.previous? = some t) : t.next? = some s := by
  cases s <;> cases h <;> rfl

/-- Every stage but the first one comes after a stage. -/
theorem exists_next? {t : Stage} {n : Nat} (h : t.index = n + 1) :
    ∃ s : Stage, s.next? = some t ∧ s.index = n := by
  cases t <;> cases h <;> exact ⟨_, next?_of_previous? rfl, rfl⟩

/-- The first stage is the only one without a stage before it. -/
theorem eq_moduleAndRoof_of_index {s : Stage} (h : s.index = 0) : s = .moduleAndRoof := by
  cases s <;> first | rfl | exact absurd h (Nat.succ_ne_zero _)

/-- Only the review has no next stage, and it has no issues. -/
theorem issues_of_next?_eq_none {s : Stage} (h : s.next? = none) (p : Plan) :
    s.issues p = [] := by
  cases s <;> first | rfl | exact absurd h (by decide)

/-- One stage further there are the issues of one more stage. -/
theorem issuesBefore_next? {s t : Stage} (h : s.next? = some t) (p : Plan) :
    t.issuesBefore p = s.issuesBefore p ++ s.issues p := by
  have hbefore : t.before = s.before ++ [s] := by
    cases s <;> cases h <;> rfl
  rw [issuesBefore, hbefore, List.flatMap_append, List.flatMap_singleton]
  rfl

/-- No stage is before itself. -/
theorem not_mem_before (s : Stage) : s ∉ s.before := by
  simp [before]

/-- There are no issues before a stage if no stage before it has any. -/
theorem issuesBefore_eq_nil_iff {s : Stage} {p : Plan} :
    s.issuesBefore p = [] ↔ ∀ t ∈ s.before, t.issues p = [] :=
  List.flatMap_eq_nil_iff

/-- The first stage that has issues. -/
def firstBlocked? (p : Plan) : Option Stage :=
  all.find? fun s => !(s.issues p).isEmpty

/-- The first stage with issues is the one that has issues while those before it have none. -/
theorem firstBlocked?_eq_some_iff {p : Plan} {s : Stage} :
    firstBlocked? p = some s ↔ s.issues p ≠ [] ∧ s.issuesBefore p = [] := by
  have hsplit : all = s.before ++ s :: all.drop (s.index + 1) := by
    cases s <;> rfl
  rw [firstBlocked?, hsplit, List.find?_append, issuesBefore_eq_nil_iff]
  cases hfound : s.before.find? fun t => !(t.issues p).isEmpty with
  | none =>
      have hclear : ∀ t ∈ s.before, t.issues p = [] := by
        simpa using List.find?_eq_none.mp hfound
      rw [Option.none_or]
      constructor
      · intro hself
        have hblocked := List.find?_some hself
        exact ⟨by simpa using hblocked, hclear⟩
      · rintro ⟨hblocked, -⟩
        exact List.find?_cons_of_pos (by simpa using hblocked)
  | some t =>
      have hmem : t ∈ s.before := List.mem_of_find?_eq_some hfound
      have hblocked : t.issues p ≠ [] := by simpa using List.find?_some hfound
      rw [Option.some_or]
      refine iff_of_false ?_ fun h => hblocked (h.2 t hmem)
      intro heq
      exact not_mem_before s (Option.some.inj heq ▸ hmem)

end Stage

namespace Session

/-! ### Steps of a walk -/

/-- Does the operation belong to a walk?  Moves in both directions do, and edits of the review. -/
def Op.walks : Op → Bool
  | .advance | .back | .editReview _ => true
  | .updatePlan _ | .setOverride _ _ | .setCoefficients _ | .setCatalog _ | .reset => false

/-- Walking replaces nothing that the compiler reads. -/
theorem Op.not_replaces_of_walks {op : Op} (h : op.walks = true) : ¬ op.replacesInputs = true := by
  cases op <;> first | exact Bool.false_ne_true | exact absurd h Bool.false_ne_true

/-- The operations make up a walk. -/
def Walk (ops : List Op) : Prop :=
  ∀ op ∈ ops, op.walks = true

/-- A step of a walk leaves the bill alone, and all that it is compiled from. -/
theorem step_walk (s : Session) {op : Op} (hop : op.walks = true) :
    (s.step op).1.workspace.Agrees s.workspace := by
  have houtcome := step_outcome s op
  generalize s.step op = result at houtcome ⊢
  cases houtcome with
  | replaced hreplaces => exact absurd hreplaces (Op.not_replaces_of_walks hop)
  | startedOver => exact absurd hop Bool.false_ne_true
  | _ => exact ⟨rfl, rfl, rfl, rfl, rfl⟩

/-- On the way the plan is still the one that the walk began with, and no stage behind has
issues. -/
structure OnTheWay (p : Plan) (s : Session) : Prop where
  plan : s.workspace.plan = p
  clear : s.workspace.stage.issuesBefore p = []

/-- Whoever starts in the first stage is on the way. -/
theorem onTheWay_start {s : Session} (hstart : s.workspace.stage = .moduleAndRoof) :
    OnTheWay s.workspace.plan s := by
  refine ⟨rfl, ?_⟩
  rw [hstart]
  rfl

/-- One more step stays on the way. -/
theorem OnTheWay.step {p : Plan} {s : Session} (h : OnTheWay p s) {op : Op}
    (hop : op.walks = true) : OnTheWay p (s.step op).1 := by
  refine ⟨(step_walk s hop).plan.trans h.plan, ?_⟩
  have houtcome := step_outcome s op
  generalize s.step op = result at houtcome ⊢
  cases houtcome with
  | nothing hidle => exact h.clear
  | replaced hreplaces => exact absurd hreplaces (Op.not_replaces_of_walks hop)
  | startedOver => exact absurd hop Bool.false_ne_true
  | @advanced target hnext hissues =>
      rw [h.plan] at hissues
      calc target.issuesBefore p
          = s.workspace.stage.issuesBefore p ++ s.workspace.stage.issues p :=
            Stage.issuesBefore_next? hnext p
        _ = [] := by rw [h.clear, hissues, List.append_nil]
  | refused hnext hissues => exact h.clear
  | @wentBack target hprevious =>
      -- The stages behind the earlier stage are behind this one as well.
      have hclear := h.clear
      rw [Stage.issuesBefore_next? (Stage.next?_of_previous? hprevious),
        List.append_eq_nil_iff] at hclear
      exact hclear.1
  | stored hreviewing hafter hsame => exact h.clear
  | edited hreviewing hafter hother => exact h.clear

/-- A stage without issues is left forwards. -/
theorem advance_of_clear {s : Session} {target : Stage}
    (hnext : s.workspace.stage.next? = some target)
    (hissues : s.workspace.stage.issues s.workspace.plan = []) :
    (s.step .advance).1.workspace.stage = target := by
  simp only [step, advance, hnext, hissues]
  rfl

/-- Who has issues is refused, and all issues of the stage are reported. -/
theorem refused_iff {s : Session} {t : Stage} {issues : List Issue} :
    .advanceBlocked t issues ∈ (s.step .advance).2 ↔
      s.workspace.stage = t ∧ issues = t.issues s.workspace.plan ∧
        t.issues s.workspace.plan ≠ [] := by
  have houtcome := step_outcome s .advance
  generalize s.step .advance = result at houtcome ⊢
  cases houtcome with
  | nothing hidle =>
      refine iff_of_false List.not_mem_nil ?_
      rintro ⟨rfl, -, hblocked⟩
      exact hblocked (Stage.issues_of_next?_eq_none hidle _)
  | replaced hreplaces => exact absurd hreplaces Bool.false_ne_true
  | advanced hnext hissues =>
      refine iff_of_false (by simp) ?_
      rintro ⟨rfl, -, hblocked⟩
      exact hblocked hissues
  | refused hnext hissues =>
      rw [List.mem_singleton, Event.advanceBlocked.injEq]
      constructor
      · rintro ⟨rfl, rfl⟩
        exact ⟨rfl, rfl, hissues⟩
      · rintro ⟨rfl, rfl, -⟩
        exact ⟨rfl, rfl⟩

/-! ### Walks -/

theorem OnTheWay.after {p : Plan} {s : Session} (h : OnTheWay p s) {ops : List Op}
    (hwalk : Walk ops) : OnTheWay p (s.after ops) := by
  induction ops generalizing s with
  | nil => exact h
  | cons op rest ih =>
      obtain ⟨hop, hrest⟩ := List.forall_mem_cons.mp hwalk
      exact ih (h.step hop) hrest

/-- Going forwards all the time is a walk. -/
theorem walk_forwards (n : Nat) : Walk (List.replicate n .advance) := by
  intro op hop
  rw [List.eq_of_mem_replicate hop]
  rfl

/-- Whoever only moves forwards gets to every stage that no stage with issues comes before. -/
theorem forwards_reaches {s : Session} (hstart : s.workspace.stage = .moduleAndRoof) {t : Stage}
    (hclear : t.issuesBefore s.workspace.plan = []) :
    (s.after (List.replicate t.index .advance)).workspace.stage = t := by
  induction hindex : t.index generalizing t with
  | zero =>
      rw [Stage.eq_moduleAndRoof_of_index hindex]
      exact hstart
  | succ n ih =>
      obtain ⟨u, hnext, hu⟩ := Stage.exists_next? hindex
      rw [Stage.issuesBefore_next? hnext, List.append_eq_nil_iff] at hclear
      obtain ⟨hbefore, hissues⟩ := hclear
      have hstage := ih hbefore hu
      have hplan := ((onTheWay_start hstart).after (walk_forwards n)).plan
      rw [List.replicate_succ', after_append]
      exact advance_of_clear (hstage ▸ hnext) (by rw [hstage, hplan, hissues])

/-- On a walk, whoever is refused stands in the first stage with issues. -/
theorem OnTheWay.refused_iff {p : Plan} {s : Session} (h : OnTheWay p s) {t : Stage}
    {issues : List Issue} :
    .advanceBlocked t issues ∈ (s.step .advance).2 ↔
      s.workspace.stage = t ∧ Stage.firstBlocked? p = some t ∧ issues = t.issues p := by
  rw [Session.refused_iff, h.plan, Stage.firstBlocked?_eq_some_iff]
  constructor
  · rintro ⟨rfl, hreported, hblocked⟩
    exact ⟨rfl, ⟨hblocked, h.clear⟩, hreported⟩
  · rintro ⟨hstage, ⟨hblocked, -⟩, hreported⟩
    exact ⟨hstage, hreported, hblocked⟩

/-- **Walks follow the checks.**  A session is in the first stage with some plan.  Wherever a walk
leads, no stage behind has issues, and moving forwards is refused there exactly in the first stage
with issues, which is reported with its issues.  Walks reach exactly the stages that no stage with
issues comes before; so there is a walk that is refused exactly when some stage has issues, and all
such walks are refused in the first of these stages with the same report. -/
theorem walks_follow_checks {s : Session} (hstart : s.workspace.stage = .moduleAndRoof) :
    (∀ ops, Walk ops →
      (s.after ops).workspace.plan = s.workspace.plan ∧
      (s.after ops).workspace.stage.issuesBefore s.workspace.plan = [] ∧
      ∀ t issues, .advanceBlocked t issues ∈ ((s.after ops).step .advance).2 ↔
        (s.after ops).workspace.stage = t ∧ Stage.firstBlocked? s.workspace.plan = some t ∧
          issues = t.issues s.workspace.plan) ∧
    (∀ t : Stage, (∃ ops, Walk ops ∧ (s.after ops).workspace.stage = t) ↔
      t.issuesBefore s.workspace.plan = []) ∧
    ∀ t issues, (∃ ops, Walk ops ∧ .advanceBlocked t issues ∈ ((s.after ops).step .advance).2) ↔
      Stage.firstBlocked? s.workspace.plan = some t ∧ issues = t.issues s.workspace.plan := by
  have hway : ∀ {ops}, Walk ops → OnTheWay s.workspace.plan (s.after ops) :=
    (onTheWay_start hstart).after
  have hreached : ∀ t : Stage, (∃ ops, Walk ops ∧ (s.after ops).workspace.stage = t) ↔
      t.issuesBefore s.workspace.plan = [] := by
    intro t
    constructor
    · rintro ⟨ops, hwalk, rfl⟩
      exact (hway hwalk).clear
    · intro hclear
      exact ⟨_, walk_forwards t.index, forwards_reaches hstart hclear⟩
  refine ⟨fun ops hwalk => ⟨(hway hwalk).plan, (hway hwalk).clear,
    fun t issues => (hway hwalk).refused_iff⟩, hreached, fun t issues => ?_⟩
  constructor
  · rintro ⟨ops, hwalk, hrefused⟩
    exact ((hway hwalk).refused_iff.mp hrefused).2
  · rintro ⟨hfirst, hreported⟩
    obtain ⟨ops, hwalk, hstage⟩ :=
      (hreached t).mpr (Stage.firstBlocked?_eq_some_iff.mp hfirst).2
    exact ⟨ops, hwalk, (hway hwalk).refused_iff.mpr ⟨hstage, hfirst, hreported⟩⟩

/-- Two modules on one string, with nothing to mount them on. -/
def unmountedPlan : Plan :=
  { wiredPlan with mounting := {} }

/-- A session with this plan. -/
def unmounted : Session :=
  ((start .empty plainCoefficients).step (.updatePlan fun _ => unmountedPlan)).1

/-- The mounting stage is reached, and whoever moves forwards from there is told what to mount; no
detour leads to the inverters. -/
theorem walks_follow_checks_unmounted :
    unmounted.workspace.stage = .moduleAndRoof ∧
      (∃ ops, Walk ops ∧ .advanceBlocked .mounting
        [⟨"mounting.system", "required"⟩, ⟨"mounting.end_clamp", "required"⟩,
          ⟨"mounting.mid_clamp", "required"⟩] ∈ ((unmounted.after ops).step .advance).2) ∧
      ¬ ∃ ops, Walk ops ∧ (unmounted.after ops).workspace.stage = .inverters := by
  have hstart : unmounted.workspace.stage = .moduleAndRoof := by
    decide +kernel
  have hfirst : Stage.firstBlocked? unmounted.workspace.plan = some .mounting := by
    decide +kernel
  have hissues : Stage.mounting.issues unmounted.workspace.plan =
      [⟨"mounting.system", "required"⟩, ⟨"mounting.end_clamp", "required"⟩,
        ⟨"mounting.mid_clamp", "required"⟩] := by
    decide +kernel
  have hblocked : ¬ Stage.inverters.issuesBefore unmounted.workspace.plan = [] := by
    decide +kernel
  obtain ⟨-, hreached, hrefused⟩ := walks_follow_checks hstart
  exact ⟨hstart, (hrefused _ _).mpr ⟨hfirst, hissues.symm⟩, fun h => hblocked ((hreached _).mp h)⟩

end Session

end SolarBill
