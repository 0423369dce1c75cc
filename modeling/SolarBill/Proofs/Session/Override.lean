import SolarBill.Proofs.Protection.Overridden
import SolarBill.Proofs.Session.Restart

/-!
# Two ways to override

An override can be set by an operation of its own, or by a change of the plan.  The one operation
looks at the override before it writes, the other one compares the plans afterwards and then asks
every subsystem whether its override is another one.  They notice the same overrides, and do the
same; the change of the plan is announced as such in addition.

* `Overrides.set_get` and `Plan.overridden_eq_iff` — writing changes something exactly when another
  override is written;
* `override_through_plan` — the two ways in one session;
* `after_throughPlan` — the two ways in whole runs.
-/

namespace SolarBill

/-! ### Writing an override -/

/-- Writing what is there changes nothing. -/
theorem Overrides.set_get (o : Overrides) (t : Subsystem) : o.set t (o.get t) = o := by
  cases t <;> rfl

/-- The subsystems whose override is another one after writing a new override. -/
theorem Overrides.changed_set {o : Overrides} {t : Subsystem} {own : Protection}
    (h : o.get t ≠ own) :
    (Subsystem.all.filter fun u => o.get u ≠ (o.set t own).get u) = [t] := by
  have hchanged : ∀ u, o.get u ≠ (o.set t own).get u ↔ u = t := by
    intro u
    rw [get_set]
    by_cases hu : u = t
    · subst hu
      simpa using h
    · simp [hu]
  simp only [hchanged]
  cases t <;> rfl

/-- Comparing plans notices the overrides that are new. -/
theorem Plan.overridden_eq_iff {p : Plan} {t : Subsystem} {own : Protection} :
    p.overridden (p.overrides.set t own) = p ↔ p.overrides.get t = own := by
  constructor
  · intro hsame
    have hoverrides : p.overrides.set t own = p.overrides := congrArg Plan.overrides hsame
    rw [← hoverrides, Overrides.get_set, if_pos rfl]
  · rintro rfl
    rw [Overrides.set_get]
    rfl

namespace Session

/-! ### One override -/

/-- The change of the plan that sets an override. -/
def planOverride (t : Subsystem) (own : Protection) : Op :=
  .updatePlan fun p => p.overridden (p.overrides.set t own)

/-- An override that is there is not set again. -/
theorem override_idle {s : Session} {t : Subsystem} {own : Protection}
    (h : s.workspace.plan.overrides.get t = own) :
    s.step (.setOverride t own) = (s, []) ∧ s.step (planOverride t own) = (s, []) :=
  ⟨step_of_idle h, step_of_idle (Plan.overridden_eq_iff.mpr h)⟩

/-- Another override is announced and compiled. -/
theorem override_new {s : Session} {t : Subsystem} {own : Protection}
    (h : s.workspace.plan.overrides.get t ≠ own) :
    ∃ next : Session, s.step (.setOverride t own) = announce [.overridesChanged t] next ∧
      s.step (planOverride t own) = announce [.planChanged, .overridesChanged t] next := by
  let plan := s.workspace.plan.overridden (s.workspace.plan.overrides.set t own)
  refine ⟨{ s with workspace := { s.workspace with plan := plan } }, ?_, ?_⟩
  · simp only [step, setOverride, if_neg h]
    rfl
  · have hchanged : (Subsystem.all.filter fun u =>
        s.workspace.plan.overrides.get u ≠ plan.overrides.get u) = [t] :=
      Overrides.changed_set h
    simp only [planOverride, step, updatePlan, if_neg (mt Plan.overridden_eq_iff.mp h)]
    rw [hchanged]
    rfl

/-- One more announcement makes no difference but to the events. -/
theorem announce_cons (e : Event) (changes : List Event) (s : Session) :
    (announce (e :: changes) s).1.workspace = (announce changes s).1.workspace ∧
      (announce (e :: changes) s).1.counters = { (announce changes s).1.counters with
        broadcasts := (announce (e :: changes) s).1.counters.broadcasts } ∧
      (announce (e :: changes) s).2 = e :: (announce changes s).2 := by
  refine ⟨?_, ?_, ?_⟩
  · rw [announce_workspace, announce_workspace]
  · simp only [announce, publish, Counters.broadcast]
  · rw [announce_events, announce_events, List.cons_append]

/-- Setting an override and changing the plan in it lead to the same workspace. -/
theorem override_workspace (s : Session) (t : Subsystem) (own : Protection) :
    (s.step (planOverride t own)).1.workspace = (s.step (.setOverride t own)).1.workspace := by
  by_cases hsame : s.workspace.plan.overrides.get t = own
  · obtain ⟨hdirect, hplan⟩ := override_idle hsame
    rw [hdirect, hplan]
  · obtain ⟨next, hdirect, hplan⟩ := override_new hsame
    rw [hdirect, hplan, (announce_cons _ _ next).1]

/-- **Overrides can be set through the plan.**  In every session, setting the override of a
subsystem and changing the plan in this override lead to the same workspace, that is to the same
stage, plan, catalogue, coefficients, bill, review and revision, and to the same counters but for
the events that were broadcast.  Either both return no events, which is the case when the override
is the one that is there; or the change of the plan returns an event of its own, followed by the
events that setting the override returns. -/
theorem override_through_plan (s : Session) (t : Subsystem) (own : Protection) :
    (s.step (planOverride t own)).1.workspace = (s.step (.setOverride t own)).1.workspace ∧
    (s.step (planOverride t own)).1.counters = { (s.step (.setOverride t own)).1.counters with
      broadcasts := (s.step (planOverride t own)).1.counters.broadcasts } ∧
    ((s.step (planOverride t own)).2 = [] ∧ (s.step (.setOverride t own)).2 = [] ∨
      (s.step (planOverride t own)).2 = .planChanged :: (s.step (.setOverride t own)).2) ∧
    ((s.step (planOverride t own)).2 = [] ↔ s.workspace.plan.overrides.get t = own) := by
  refine ⟨override_workspace s t own, ?_⟩
  by_cases hsame : s.workspace.plan.overrides.get t = own
  · obtain ⟨hdirect, hplan⟩ := override_idle hsame
    rw [hdirect, hplan]
    exact ⟨rfl, Or.inl ⟨rfl, rfl⟩, iff_of_true rfl hsame⟩
  · obtain ⟨next, hdirect, hplan⟩ := override_new hsame
    obtain ⟨-, hcounters, hevents⟩ := announce_cons .planChanged [.overridesChanged t] next
    rw [hdirect, hplan]
    refine ⟨hcounters, Or.inr hevents, iff_of_false ?_ hsame⟩
    rw [hevents]
    exact List.cons_ne_nil _ _

/-! ### Whole runs -/

/-- The operation, with an override set through the plan. -/
def Op.throughPlan : Op → Op
  | .setOverride t own => planOverride t own
  | op => op

/-- One operation with its override set through the plan leads to the same workspace. -/
theorem step_throughPlan (s : Session) (op : Op) :
    (s.step op.throughPlan).1.workspace = (s.step op).1.workspace := by
  cases op with
  | setOverride t own => exact override_workspace s t own
  | _ => simp only [Op.throughPlan]

/-- **No run needs more than changes of the plan.**  Whoever sets all overrides through the plan has
the same workspace after every run. -/
theorem after_throughPlan {s t : Session} (h : t.workspace = s.workspace) (hs : Reachable s)
    (ops : List Op) :
    (t.after (ops.map Op.throughPlan)).workspace = (s.after ops).workspace := by
  induction ops generalizing s t with
  | nil => exact h
  | cons op rest ih =>
      have hstep : (t.step op).1.workspace = (s.step op).1.workspace :=
        (step_later (n := 0) h hs.revision_pos op).1
      exact ih ((step_throughPlan t op).trans hstep) (hs.step op)

end Session

end SolarBill
