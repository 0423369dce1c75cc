import SolarBill.Session
import SolarBill.Proofs.Bill.Quantities

/-!
# What a session operation can do

Eight operations change a session, but there are only two things they do to its bill: compile anew
and announce the result, or leave the bill and everything it is compiled from alone.

* `Workspace.recompile_eq` — a compiler run in one equation: the bill becomes the compiled one,
  also when it is not stored because it compares equal to the bill before;
* `step_outcome` — what an operation can do, case by case, and `step_cases`, the two things it can
  do to the bill;
* `Reachable` — the sessions that operations, subscribers and bookings lead to, and
  `Reachable.workspace_induction`, by which an invariant of the workspace is proved once and for
  all operations.
-/

namespace SolarBill

/-! ### Compiler runs -/

namespace Workspace

/-- Neither the bill nor what it is compiled from differs, nor the number of compiler runs. -/
structure Agrees (w v : Workspace) : Prop where
  plan : w.plan = v.plan
  catalog : w.catalog = v.catalog
  coefficients : w.coefficients = v.coefficients
  bill : w.bill = v.bill
  revision : w.revision = v.revision

theorem Agrees.refl (w : Workspace) : Agrees w w :=
  ⟨rfl, rfl, rfl, rfl, rfl⟩

/-- What agrees compiles to the same bill. -/
theorem Agrees.compiled {w v : Workspace} (h : Agrees w v) : w.compiled = v.compiled := by
  rw [Workspace.compiled, Workspace.compiled, h.plan, h.catalog, h.coefficients]

/-- The workspace after a compiler run. -/
def afterCompile (w : Workspace) : Workspace :=
  { w with
    bill := w.compiled
    review := if w.isReviewing then some (Review.ofBill w.compiled) else none
    revision := w.revision + 1 }

/-- **A compiler run.**  Comparing the compiled bill with the one before decides about the event,
never about the bill: compiled bills that compare equal are equal. -/
theorem recompile_eq (w : Workspace) :
    w.recompile = (w.afterCompile,
      if w.compiled = w.bill ∧ 0 < w.revision then []
      else
        [.billCompiled (w.revision + 1) w.compiled.lines.length w.compiled.warnings.length]) := by
  have hpos : Line.AllPositive w.compiled.lines := compile_pos _ _ _
  have hbeq : (w.compiled == w.bill) = true ↔ w.compiled = w.bill :=
    ⟨Bill.eq_of_beq hpos, fun h => h ▸ Bill.beq_self hpos⟩
  have hrevision : 1 < w.revision + 1 ↔ 0 < w.revision := by omega
  by_cases h : w.compiled = w.bill ∧ 0 < w.revision
  · have hskip : (w.compiled == w.bill && decide (1 < w.revision + 1)) = true := by
      rw [Bool.and_eq_true, decide_eq_true_eq, hbeq, hrevision]
      exact h
    -- Nothing is stored, and nothing needs to be: the bill is the compiled one already.
    have hbill : { w with bill := w.compiled } = w := by
      rw [h.1]
    rw [if_pos h]
    simp only [recompile, hskip, if_true]
    rw [afterCompile, ← hbill]
    rfl
  · have hstore : ¬ (w.compiled == w.bill && decide (1 < w.revision + 1)) = true := by
      rw [Bool.and_eq_true, decide_eq_true_eq, hbeq, hrevision]
      exact h
    simp only [recompile, hstore, h, afterCompile, if_false]
    rfl

end Workspace

/-- Does the event say which of the compiler's inputs was replaced? -/
def Event.isOfInputs : Event → Bool
  | .planChanged | .overridesChanged _ | .coefficientsChanged | .catalogChanged => true
  | _ => false

namespace Session

/-- Compiling, announcing and sending: what becomes of the workspace, and which events are sent. -/
theorem announce_workspace (changes : List Event) (s : Session) :
    (announce changes s).1.workspace = s.workspace.afterCompile := by
  simp only [announce, recompile, publish, Workspace.recompile_eq]

/-- The events of an announcement: the changes, and the bill unless it is the one before. -/
theorem announce_events (changes : List Event) (s : Session) :
    (announce changes s).2 = changes ++
      if s.workspace.compiled = s.workspace.bill ∧ 0 < s.workspace.revision then []
      else [.billCompiled (s.workspace.revision + 1) s.workspace.compiled.lines.length
        s.workspace.compiled.warnings.length] := by
  simp only [announce, recompile, Workspace.recompile_eq]

/-! ### Operations -/

/-- The operation finds nothing to do: what it would replace is there already, there is no stage to
move to, or no review is open for edits. -/
def Idle (s : Session) : Op → Prop
  | .updatePlan change => change s.workspace.plan = s.workspace.plan
  | .setOverride t own => s.workspace.plan.overrides.get t = own
  | .advance => s.workspace.stage.next? = none
  | .back => s.workspace.stage.previous? = none
  | .editReview _ => ¬ s.workspace.isReviewing = true
  | .setCoefficients _ | .setCatalog _ | .reset => False

/-- Does the operation replace what the compiler reads? -/
def Op.replacesInputs : Op → Bool
  | .updatePlan _ | .setOverride _ _ | .setCoefficients _ | .setCatalog _ => true
  | .advance | .back | .editReview _ | .reset => false

/-- Starting over always has something to do. -/
theorem Idle.ne_reset {s : Session} {op : Op} (h : s.Idle op) : op ≠ .reset := by
  rintro rfl
  exact h

/-- It replaces none of the inputs that a caller hands over. -/
theorem Op.ne_reset_of_replaces {op : Op} (h : op.replacesInputs = true) : op ≠ .reset := by
  rintro rfl
  exact absurd h Bool.false_ne_true

/-- An operation that finds nothing to do does nothing. -/
theorem step_of_idle {s : Session} {op : Op} (h : s.Idle op) : s.step op = (s, []) := by
  cases op with
  | updatePlan change => exact if_pos h
  | setOverride t own => exact if_pos h
  | advance =>
      have hlast : s.workspace.stage.next? = none := h
      simp only [step, advance, hlast]
  | back =>
      have hfirst : s.workspace.stage.previous? = none := h
      simp only [step, back, hfirst]
  | editReview edits => exact if_neg h
  | setCoefficients c => exact h.elim
  | setCatalog c => exact h.elim
  | reset => exact h.elim

/-- **What an operation can do**, with the session and the events that it returns: nothing; replace
what the compiler reads, say so and compile; start over; move forwards, or be refused; move back; or
edit the review, which is told if the review then compares unequal. -/
inductive Outcome (s : Session) : Op → Session × List Event → Prop
  | nothing {op : Op} (hidle : s.Idle op) : Outcome s op (s, [])
  | replaced {op : Op} {e : Event} {others : List Event} {w : Workspace}
      (hop : op.replacesInputs = true)
      (hinputs : ∀ o ∈ e :: others, o.isOfInputs = true)
      (hlength : others.length ≤ Subsystem.all.length) (hstage : w.stage = s.workspace.stage)
      (hbill : w.bill = s.workspace.bill) (hrevision : w.revision = s.workspace.revision) :
      Outcome s op (announce (e :: others) { s with workspace := w })
  | startedOver :
      Outcome s .reset (announce [.sessionReset]
        { s with workspace :=
            { Workspace.fresh s.workspace.catalog s.workspace.coefficients with
              revision := s.workspace.revision } })
  | advanced {target : Stage} (hnext : s.workspace.stage.next? = some target)
      (hissues : s.workspace.stage.issues s.workspace.plan = []) :
      Outcome s .advance
        ({ s with workspace := enter target s.workspace }.publish
          [.stageChanged s.workspace.stage target], [.stageChanged s.workspace.stage target])
  | refused {target : Stage} (hnext : s.workspace.stage.next? = some target)
      (hissues : s.workspace.stage.issues s.workspace.plan ≠ []) :
      Outcome s .advance
        ({ s with counters := s.counters.blocked }.publish
          [.advanceBlocked s.workspace.stage (s.workspace.stage.issues s.workspace.plan)],
          [.advanceBlocked s.workspace.stage (s.workspace.stage.issues s.workspace.plan)])
  | wentBack {target : Stage} (hprevious : s.workspace.stage.previous? = some target) :
      Outcome s .back
        ({ s with workspace := { s.workspace with stage := target } }.publish
          [.stageChanged s.workspace.stage target], [.stageChanged s.workspace.stage target])
  | stored {edits : List Review.Edit} {after : Review} (hreviewing : s.workspace.isReviewing = true)
      (hafter : s.workspace.currentReview.editAll s.workspace.catalog edits = after)
      (hsame : (after == s.workspace.currentReview) = true) :
      Outcome s (.editReview edits)
        ({ s with workspace := { s.workspace with review := some after } }, [])
  | edited {edits : List Review.Edit} {after : Review} (hreviewing : s.workspace.isReviewing = true)
      (hafter : s.workspace.currentReview.editAll s.workspace.catalog edits = after)
      (hother : ¬ (after == s.workspace.currentReview) = true) :
      Outcome s (.editReview edits)
        ({ s with workspace := { s.workspace with review := some after } }.publish
          [.reviewEdited after.lines.length], [.reviewEdited after.lines.length])

/-- These are all the outcomes. -/
theorem step_outcome (s : Session) (op : Op) : Outcome s op (s.step op) := by
  -- The branches of each operation, in the order in which it tries them.
  cases op with
  | updatePlan change =>
      simp only [step, updatePlan]
      split_ifs with hsame
      · exact .nothing hsame
      · refine .replaced rfl ?_ ?_ rfl rfl rfl
        · intro o ho
          rcases List.mem_cons.mp ho with rfl | ho
          · rfl
          · obtain ⟨t, -, rfl⟩ := List.mem_map.mp ho
            rfl
        · rw [List.length_map]
          exact List.length_filter_le _ _
  | setOverride t own =>
      simp only [step, setOverride]
      split_ifs with hsame
      · exact .nothing hsame
      · exact .replaced rfl (by simp [Event.isOfInputs]) (Nat.zero_le _) rfl rfl rfl
  | setCoefficients c =>
      rw [step, setCoefficients]
      exact .replaced rfl (by simp [Event.isOfInputs]) (Nat.zero_le _) rfl rfl rfl
  | setCatalog c =>
      rw [step, setCatalog]
      exact .replaced rfl (by simp [Event.isOfInputs]) (Nat.zero_le _) rfl rfl rfl
  | advance =>
      simp only [step, advance]
      split
      · next hlast => exact .nothing hlast
      · next target hnext =>
        split
        · next hissues => exact .advanced hnext hissues
        · next hissues => exact .refused hnext hissues
  | back =>
      simp only [step, back]
      split
      · next hfirst => exact .nothing hfirst
      · next target hprevious => exact .wentBack hprevious
  | editReview edits =>
      simp only [step, editReview]
      split_ifs with hreviewing hsame
      · exact .stored hreviewing rfl hsame
      · exact .edited hreviewing rfl hsame
      · exact .nothing hreviewing
  | reset =>
      rw [step, reset]
      exact .startedOver

/-- Some event tells of a compiler run. -/
def TellsOfBill (events : List Event) : Prop :=
  ∃ revision lineCount warningCount, .billCompiled revision lineCount warningCount ∈ events

/-- The bill that the compiled one is compared with: the bill before the operation, except that
starting over drops it first. -/
def Op.formerBill (bill : Bill) : Op → Bill
  | .reset => {}
  | _ => bill

/-- Every operation but starting over compares with the bill before it. -/
theorem Op.formerBill_of_ne {op : Op} (h : op ≠ .reset) (bill : Bill) :
    op.formerBill bill = bill := by
  cases op <;> first | rfl | exact absurd rfl h

/-- An operation replaces what the compiler reads and announces the compiled bill, or it leaves the
bill alone and tells of no compiler run; starting over always compiles. -/
theorem step_cases (s : Session) (op : Op) :
    (∃ changes w, s.step op = announce changes { s with workspace := w } ∧
      ¬ TellsOfBill changes ∧ w.revision = s.workspace.revision ∧
      w.bill = op.formerBill s.workspace.bill) ∨
    ((s.step op).1.workspace.Agrees s.workspace ∧ ¬ TellsOfBill (s.step op).2 ∧
      op.formerBill s.workspace.bill = s.workspace.bill) := by
  have houtcome := step_outcome s op
  generalize s.step op = result at houtcome ⊢
  cases houtcome with
  | nothing hidle =>
      exact Or.inr ⟨.refl _, by simp [TellsOfBill], Op.formerBill_of_ne hidle.ne_reset _⟩
  | replaced hop hinputs hlength hstage hbill hrevision =>
      have hformer := Op.formerBill_of_ne (Op.ne_reset_of_replaces hop) s.workspace.bill
      refine Or.inl ⟨_, _, rfl, ?_, hrevision, hbill.trans hformer.symm⟩
      rintro ⟨revision, lineCount, warningCount, hmem⟩
      exact absurd (hinputs _ hmem) Bool.false_ne_true
  | startedOver => exact Or.inl ⟨_, _, rfl, by simp [TellsOfBill], rfl, rfl⟩
  | advanced hnext hissues =>
      exact Or.inr ⟨⟨rfl, rfl, rfl, rfl, rfl⟩, by simp [TellsOfBill], rfl⟩
  | refused hnext hissues =>
      exact Or.inr ⟨⟨rfl, rfl, rfl, rfl, rfl⟩, by simp [TellsOfBill], rfl⟩
  | wentBack hprevious =>
      exact Or.inr ⟨⟨rfl, rfl, rfl, rfl, rfl⟩, by simp [TellsOfBill], rfl⟩
  | stored hreviewing hafter hsame =>
      exact Or.inr ⟨⟨rfl, rfl, rfl, rfl, rfl⟩, by simp [TellsOfBill], rfl⟩
  | edited hreviewing hafter hother =>
      exact Or.inr ⟨⟨rfl, rfl, rfl, rfl, rfl⟩, by simp [TellsOfBill], rfl⟩

/-! ### Reachable sessions -/

/-- The sessions that come about: one is started, with new counters or with counters that others
use too, on a machine that takes its time for the compiler runs; and then operations, subscribers
and bookings follow in any order.  Everyone who holds the session works on the same one, so it does
not matter who issues an operation. -/
inductive Reachable : Session → Prop
  | start (catalog : Catalog) (coefficients : Coefficients) (counters : Counters)
      (durations : Nat → Nat := fun _ => 0) :
      Reachable (Session.start catalog coefficients counters durations)
  | step {s : Session} (op : Op) (h : Reachable s) : Reachable (s.step op).1
  | subscribe {s : Session} (h : Reachable s) : Reachable s.subscribe
  | drain {s : Session} (h : Reachable s) : Reachable s.drain.2
  | commit {s : Session} {σ : Type} (store : StockStore σ) (request : BookingRequest) (room : σ)
      (h : Reachable s) : Reachable (s.commit store request room).2.2

/-- The session after a list of operations. -/
def after (s : Session) (ops : List Op) : Session :=
  ops.foldl (fun s op => (s.step op).1) s

theorem after_append (s : Session) (past ops : List Op) :
    s.after (past ++ ops) = (s.after past).after ops :=
  List.foldl_append

/-- Operations lead from reachable sessions to reachable ones. -/
theorem Reachable.after {s : Session} (h : Reachable s) (ops : List Op) :
    Reachable (s.after ops) := by
  induction ops generalizing s with
  | nil => exact h
  | cons op rest ih => exact ih (h.step op)

/-- A new session has been compiled once. -/
theorem start_workspace (catalog : Catalog) (coefficients : Coefficients) (counters : Counters)
    (durations : Nat → Nat) :
    (start catalog coefficients counters durations).workspace =
      (Workspace.fresh catalog coefficients).afterCompile := by
  simp only [start, recompile, Workspace.recompile_eq]

/-- A property of the workspace holds of every reachable session if every compiler run establishes
it and it depends on nothing but the bill, its inputs and the number of runs. -/
theorem Reachable.workspace_induction {P : Workspace → Prop}
    (hcompile : ∀ w : Workspace, P w.afterCompile)
    (hagrees : ∀ w v : Workspace, w.Agrees v → P v → P w) {s : Session} (h : Reachable s) :
    P s.workspace := by
  induction h with
  | start catalog coefficients counters durations =>
      rw [start_workspace]
      exact hcompile _
  | @step s op h ih =>
      rcases step_cases s op with ⟨changes, w, hstep, -, -, -⟩ | ⟨hsame, -, -⟩
      · rw [hstep, announce_workspace]
        exact hcompile w
      · exact hagrees _ _ hsame ih
  | subscribe h ih => exact ih
  | drain h ih => exact ih
  | commit store request room h ih => exact ih

end Session

end SolarBill
