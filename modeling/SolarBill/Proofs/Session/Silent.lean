import SolarBill.Proofs.Session.Announced

/-!
# Operations that say nothing

Several operations change the session first and compare afterwards, so that no events could also
mean that a change went unnoticed.  It does not: an operation without events leaves the whole
session as it was, with its counters and all that subscribers have yet to read.  A refused move is
not silent, and leaves its trace in two counters only.

* `silent_step` — an operation without events;
* `refused_advance` — a refused move, in one equation;
* `silence_means_unchanged` — both together.
-/

namespace SolarBill

namespace Session

/-- What is announced before a compiler run is told in any case. -/
theorem announce_ne_nil {e : Event} {changes : List Event} {s : Session} :
    (announce (e :: changes) s).2 ≠ [] := by
  rw [announce_events]
  exact List.cons_ne_nil _ _

/-- An operation without events leaves the session as it was. -/
theorem silent_step {s : Session} (h : Reachable s) {op : Op} (hsilent : (s.step op).2 = []) :
    (s.step op).1 = s := by
  have houtcome := step_outcome s op
  generalize s.step op = result at houtcome hsilent ⊢
  cases houtcome with
  | nothing hidle => rfl
  | replaced hop hinputs => exact absurd hsilent announce_ne_nil
  | startedOver => exact absurd hsilent announce_ne_nil
  | advanced hnext hissues => exact absurd hsilent (List.cons_ne_nil _ _)
  | refused hnext hissues => exact absurd hsilent (List.cons_ne_nil _ _)
  | wentBack hprevious => exact absurd hsilent (List.cons_ne_nil _ _)
  | stored hreviewing hafter hsame =>
      -- What is stored compares equal to the review that was there, so it is that review.
      subst hafter
      rw [← h.review_eq_of_beq hreviewing hsame]
  | edited hreviewing hafter hother => exact absurd hsilent (List.cons_ne_nil _ _)

/-- A refused move is counted and told to the subscribers; nothing else happens. -/
theorem refused_advance {s : Session} {stage : Stage} {issues : List Issue}
    (h : .advanceBlocked stage issues ∈ (s.step .advance).2) :
    (s.step .advance).1 =
      { s with counters := s.counters.blocked }.publish (s.step .advance).2 := by
  have houtcome := step_outcome s .advance
  generalize s.step .advance = result at houtcome h ⊢
  cases houtcome with
  | nothing hidle => exact absurd h List.not_mem_nil
  | replaced hop hinputs => exact absurd hop Bool.false_ne_true
  | advanced hnext hissues => simp at h
  | refused hnext hissues => rfl

/-- **Silence means that nothing has changed.**  An operation of a reachable session that returns no
events leaves the whole session as it was.  A move that is refused leaves the workspace as it was,
and of the counters only that of the refusals, which grows by one, and that of the broadcast events
can differ. -/
theorem silence_means_unchanged {s : Session} (h : Reachable s) :
    (∀ op : Op, (s.step op).2 = [] → (s.step op).1 = s) ∧
    ∀ (stage : Stage) (issues : List Issue), .advanceBlocked stage issues ∈ (s.step .advance).2 →
      (s.step .advance).1.workspace = s.workspace ∧
      (s.step .advance).1.counters = { s.counters with
        blockedAdvances := s.counters.blockedAdvances + 1
        broadcasts := (s.step .advance).1.counters.broadcasts } := by
  refine ⟨fun op hsilent => silent_step h hsilent, fun stage issues hrefused => ?_⟩
  rw [refused_advance hrefused]
  exact ⟨rfl, rfl⟩

/-- Both modules, set by hand once more. -/
def bothModules : Op := .editReview [.setQuantity "MOD" 2.0]

/-- The quantity that is set is the one that was there, and an empty plan is refused. -/
theorem silence_means_unchanged_modules :
    (Reachable reviewing ∧ (reviewing.step bothModules).2 = [] ∧
      (reviewing.step bothModules).1 = reviewing) ∧
    ∃ issues, .advanceBlocked .moduleAndRoof issues ∈
        ((start .empty plainCoefficients).step .advance).2 ∧
      ((start .empty plainCoefficients).step .advance).1.workspace =
        (start .empty plainCoefficients).workspace := by
  have hsilent : (reviewing.step bothModules).2 = [] := by
    decide +kernel
  have hrefused : .advanceBlocked .moduleAndRoof
      (Stage.moduleAndRoof.issues (start .empty plainCoefficients).workspace.plan) ∈
        ((start .empty plainCoefficients).step .advance).2 := by
    decide
  have hstart : Reachable (start .empty plainCoefficients) := .start .empty plainCoefficients {}
  refine ⟨⟨reachable_reviewing, hsilent, ?_⟩, _, hrefused, ?_⟩
  · exact (silence_means_unchanged reachable_reviewing).1 bothModules hsilent
  · exact ((silence_means_unchanged hstart).2 _ _ hrefused).1

end Session

end SolarBill
