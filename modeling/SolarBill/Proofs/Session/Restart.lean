import SolarBill.Proofs.Session.Announced
import SolarBill.Proofs.Session.Walk

/-!
# Starting over

Starting over keeps the catalogue, the coefficients and the number of compiler runs, and compiles
the preset plan anew.  A new session gets there on another branch of the compiler run: there the
first bill is always stored, here the bill is compared with an empty one.  The outcome is the same.
What is more, nothing that happened before comes back later: as long as the same operations follow,
a session that has started over and a new one stay the same, and return the same events, except that
they count their compiler runs from different numbers.

* `reset_workspace` — a session that starts over, as a new session at a later run;
* `step_later` and `after_later` — the number of compiler runs makes no difference to operations;
* `reset_forgets` — what is left of the past.
-/

namespace SolarBill

/-- The workspace after another `n` compiler runs that have left nothing behind. -/
def Workspace.later (n : Nat) (w : Workspace) : Workspace :=
  { w with revision := w.revision + n }

/-- The event of an operation that comes another `n` compiler runs later. -/
def Event.later (n : Nat) : Event → Event
  | .billCompiled revision lineCount warningCount =>
    .billCompiled (revision + n) lineCount warningCount
  | e => e

/-- A compiler run does the same at any revision. -/
theorem Workspace.afterCompile_later (n : Nat) (w : Workspace) :
    (w.later n).afterCompile = w.afterCompile.later n := by
  simp only [afterCompile, later, Nat.add_right_comm _ n 1]
  rfl

namespace Session

/-- A session that starts over is a new one at a later compiler run. -/
theorem reset_workspace (s : Session) :
    (s.step .reset).1.workspace =
      (start s.workspace.catalog s.workspace.coefficients).workspace.later
        s.workspace.revision := by
  simp only [step, reset, announce_workspace, start_workspace]
  rw [← Workspace.afterCompile_later]
  simp only [Workspace.later, Workspace.fresh, Nat.zero_add]

/-! ### Operations at a later run -/

section Later

variable {n : Nat} {s t : Session}

/-- After the first compiler run it makes no difference how many there were. -/
theorem announce_later {changes : List Event} (h : t.workspace = s.workspace.later n)
    (hpos : 0 < s.workspace.revision) (hchanges : changes.map (Event.later n) = changes) :
    (announce changes t).1.workspace = (announce changes s).1.workspace.later n ∧
      (announce changes t).2 = (announce changes s).2.map (Event.later n) := by
  have hcompiled : t.workspace.compiled = s.workspace.compiled := by
    rw [h]
    rfl
  have hbill : t.workspace.bill = s.workspace.bill := by
    rw [h]
    rfl
  have hrevision : t.workspace.revision = s.workspace.revision + n := by
    rw [h]
    rfl
  constructor
  · rw [announce_workspace, announce_workspace, h, Workspace.afterCompile_later]
  · rw [announce_events, announce_events, hcompiled, hbill, hrevision, List.map_append, hchanges]
    by_cases hsame : s.workspace.compiled = s.workspace.bill
    · rw [if_pos ⟨hsame, Nat.add_pos_left hpos n⟩, if_pos ⟨hsame, hpos⟩, List.map_nil]
    · rw [if_neg fun hskip => hsame hskip.1, if_neg fun hskip => hsame hskip.1,
        Nat.add_right_comm]
      rfl

/-- An operation does the same at a later compiler run, and tells the same. -/
theorem step_later (h : t.workspace = s.workspace.later n) (hpos : 0 < s.workspace.revision)
    (op : Op) :
    (t.step op).1.workspace = (s.step op).1.workspace.later n ∧
      (t.step op).2 = (s.step op).2.map (Event.later n) := by
  have hstage : t.workspace.stage = s.workspace.stage := by
    rw [h]
    rfl
  have hplan : t.workspace.plan = s.workspace.plan := by
    rw [h]
    rfl
  -- What an operation reads of the workspace is the same on both sides; the revision is only
  -- counted up.
  cases op with
  | updatePlan change =>
      simp only [step, updatePlan, hplan]
      split_ifs with hsame
      · exact ⟨h, rfl⟩
      · refine announce_later ?_ hpos ?_
        · rw [h]
          rfl
        · rw [List.map_cons, List.map_map]
          rfl
  | setOverride u own =>
      simp only [step, setOverride, hplan]
      split_ifs with hsame
      · exact ⟨h, rfl⟩
      · refine announce_later ?_ hpos rfl
        rw [h]
        rfl
  | setCoefficients c =>
      simp only [step, setCoefficients]
      refine announce_later ?_ hpos rfl
      rw [h]
      rfl
  | setCatalog c =>
      simp only [step, setCatalog]
      refine announce_later ?_ hpos rfl
      rw [h]
      rfl
  | advance =>
      simp only [step, advance, hstage, hplan]
      split
      · exact ⟨h, rfl⟩
      · split
        · refine ⟨?_, rfl⟩
          rw [h]
          rfl
        · exact ⟨h, rfl⟩
  | back =>
      simp only [step, back, hstage]
      split
      · exact ⟨h, rfl⟩
      · refine ⟨?_, rfl⟩
        rw [h]
        rfl
  | editReview edits =>
      have hreviewing : t.workspace.isReviewing = s.workspace.isReviewing := by
        rw [h]
        rfl
      have hcatalog : t.workspace.catalog = s.workspace.catalog := by
        rw [h]
        rfl
      have hcurrent : t.workspace.currentReview = s.workspace.currentReview := by
        rw [h]
        rfl
      simp only [step, editReview, hreviewing, hcatalog, hcurrent]
      split_ifs
      · refine ⟨?_, rfl⟩
        rw [h]
        rfl
      · refine ⟨?_, rfl⟩
        rw [h]
        rfl
      · exact ⟨h, rfl⟩
  | reset =>
      simp only [step, reset]
      refine announce_later ?_ hpos rfl
      rw [h]
      rfl

/-- Operations do the same at a later compiler run. -/
theorem after_later (h : t.workspace = s.workspace.later n) (hs : Reachable s) (ops : List Op) :
    (t.after ops).workspace = (s.after ops).workspace.later n := by
  induction ops generalizing s t with
  | nil => exact h
  | cons op rest ih => exact ih (step_later h hs.revision_pos op).1 (hs.step op)

end Later

/-- **Starting over forgets the past.**  Whatever led to a session: when it starts over, it has the
stage, plan, catalogue, coefficients, bill and review of a new session with its catalogue and its
coefficients, and one compiler run more than before.  So any two sessions with the same catalogue
and the same coefficients that start over differ in the number of compiler runs only.  The past does
not come back either: whatever operations follow, they lead where they lead a new session, and
return the same events, with all compiler runs numbered from the number before. -/
theorem reset_forgets (s : Session) :
    (s.step .reset).1.workspace =
      { (start s.workspace.catalog s.workspace.coefficients).workspace with
        revision := s.workspace.revision + 1 } ∧
    (∀ t : Session, t.workspace.catalog = s.workspace.catalog →
      t.workspace.coefficients = s.workspace.coefficients →
      (t.step .reset).1.workspace =
        { (s.step .reset).1.workspace with revision := t.workspace.revision + 1 }) ∧
    ∀ (ops : List Op) (op : Op),
      ((s.step .reset).1.after ops).workspace =
        ((start s.workspace.catalog s.workspace.coefficients).after ops).workspace.later
          s.workspace.revision ∧
      (((s.step .reset).1.after ops).step op).2 =
        (((start s.workspace.catalog s.workspace.coefficients).after ops).step op).2.map
          (Event.later s.workspace.revision) := by
  have hnew : ∀ u : Session, (u.step .reset).1.workspace =
      { (start u.workspace.catalog u.workspace.coefficients).workspace with
        revision := u.workspace.revision + 1 } := by
    intro u
    rw [reset_workspace, start_workspace, Nat.add_comm]
    rfl
  have hstart : Reachable (start s.workspace.catalog s.workspace.coefficients) := .start _ _ {}
  refine ⟨hnew s, ?_, fun ops op => ?_⟩
  · intro t hcatalog hcoefficients
    rw [hnew t, hnew s, hcatalog, hcoefficients]
  · have hlater := after_later (reset_workspace s) hstart ops
    exact ⟨hlater, (step_later hlater (hstart.after ops).revision_pos op).2⟩

/-- Two modules have been planned, and their number is edited in the review: starting over leads
from there where it leads before the review. -/
theorem reset_forgets_review :
    (reviewing.step oneModule).1.workspace.catalog = beforeReview.workspace.catalog ∧
      (reviewing.step oneModule).1.workspace.coefficients = beforeReview.workspace.coefficients ∧
      ((reviewing.step oneModule).1.step .reset).1.workspace =
        { (beforeReview.step .reset).1.workspace with
          revision := (reviewing.step oneModule).1.workspace.revision + 1 } := by
  have hreviewing : reviewing.workspace.Agrees beforeReview.workspace := by
    rw [reviewing]
    exact step_walk beforeReview rfl
  have hedited : (reviewing.step oneModule).1.workspace.Agrees reviewing.workspace :=
    step_walk reviewing rfl
  have hcatalog := hedited.catalog.trans hreviewing.catalog
  have hcoefficients := hedited.coefficients.trans hreviewing.coefficients
  exact ⟨hcatalog, hcoefficients, (reset_forgets _).2.1 _ hcatalog hcoefficients⟩

end Session

end SolarBill
