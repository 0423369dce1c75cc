import SolarBill.Proofs.Bill.Edits
import SolarBill.Proofs.Session.Bill

/-!
# The review of a session

A review comes about in two ways: the review stage is entered, or the compiler runs while the
session is there.  Either way it is a fresh copy of the bill, and from then on only edits change
it; leaving the stage keeps it, and a compiler run anywhere else drops it.

* `step_review_cases` — what an operation can do to stage and review;
* `Edited` — the reachable sessions, each with the edits that were let through since the later of
  the last compiler run and the last entry into the review stage;
* `review_is_edited_bill` — the review is the bill with exactly these edits, and its warnings are
  those of the bill.
-/

namespace SolarBill

namespace Stage

/-- The review is the last stage. -/
theorem next?_review : Stage.review.next? = none :=
  rfl

/-- No stage comes after the review, so none goes back to it. -/
theorem previous?_ne_review {s t : Stage} (h : s.previous? = some t) : t ≠ .review := by
  rintro rfl
  cases s <;> exact absurd h (by decide)

end Stage

namespace Session

/-! ### What an operation does to the review -/

/-- The edits of an operation that are let through. -/
def Op.admitted (s : Session) : Op → List Review.Edit
  | .editReview edits => if s.workspace.isReviewing then edits else []
  | _ => []

/-- From one workspace to the next the review stage is entered, the review is edited there, or
neither happens. -/
inductive ReviewStep (w v : Workspace) (edits : List Review.Edit) : Prop
  | enters (hsource : w.stage ≠ .review) (htarget : v.stage = .review)
      (hreview : v.review = some (.ofBill w.bill))
  | edits (hsource : w.stage = .review) (htarget : v.stage = .review)
      (hreview : v.review = some (w.currentReview.editAll w.catalog edits))
  | rests (hstage : v.stage = .review → w.stage = .review) (hreview : v.review = w.review)
      (hedits : edits = [])

/-- An operation that finds nothing to do lets no edit through. -/
theorem Idle.admitted {s : Session} {op : Op} (h : s.Idle op) : op.admitted s = [] := by
  cases op with
  | editReview edits => exact if_neg h
  | _ => rfl

/-- Edits that are let through are those of the operation. -/
theorem reviewStep_edits {s : Session} {v : Workspace} {edits : List Review.Edit} {after : Review}
    (hreviewing : s.workspace.isReviewing = true)
    (hafter : s.workspace.currentReview.editAll s.workspace.catalog edits = after)
    (hstage : v.stage = s.workspace.stage) (hreview : v.review = some after) :
    ReviewStep s.workspace v ((Op.editReview edits).admitted s) := by
  have hsource : s.workspace.stage = .review := beq_iff_eq.mp hreviewing
  rw [Op.admitted, if_pos hreviewing]
  exact .edits hsource (hstage.trans hsource) (hafter ▸ hreview)

/-- **What an operation can do to the review.**  It runs the compiler, or it leaves bill and
catalogue alone and enters the review stage, edits the review, or keeps it. -/
theorem step_review_cases (s : Session) (op : Op) :
    (∃ w : Workspace, (s.step op).1.workspace = w.afterCompile ∧
      w.revision = s.workspace.revision) ∨
    ((s.step op).1.workspace.Agrees s.workspace ∧
      ReviewStep s.workspace (s.step op).1.workspace (op.admitted s)) := by
  have houtcome := step_outcome s op
  generalize s.step op = result at houtcome ⊢
  cases houtcome with
  | nothing hidle => exact Or.inr ⟨.refl _, .rests id rfl hidle.admitted⟩
  | replaced hop hinputs hlength hstage hbill hrevision =>
      exact Or.inl ⟨_, announce_workspace _ _, hrevision⟩
  | startedOver => exact Or.inl ⟨_, announce_workspace _ _, rfl⟩
  | @advanced target hnext hissues =>
      refine Or.inr ⟨⟨rfl, rfl, rfl, rfl, rfl⟩, ?_⟩
      by_cases htarget : target = .review
      · have hsource : s.workspace.stage ≠ .review := by
          intro hstage
          rw [hstage, Stage.next?_review] at hnext
          exact absurd hnext (by simp)
        exact .enters hsource htarget (if_pos htarget)
      · exact .rests (fun heq => absurd heq htarget) (if_neg htarget) rfl
  | refused hnext hissues =>
      exact Or.inr ⟨⟨rfl, rfl, rfl, rfl, rfl⟩, .rests id rfl rfl⟩
  | wentBack hprevious =>
      have htarget := Stage.previous?_ne_review hprevious
      exact Or.inr ⟨⟨rfl, rfl, rfl, rfl, rfl⟩, .rests (fun heq => absurd heq htarget) rfl rfl⟩
  | stored hreviewing hafter hsame =>
      -- The edited review is stored also when it compares equal to the one before.
      exact Or.inr ⟨⟨rfl, rfl, rfl, rfl, rfl⟩, reviewStep_edits hreviewing hafter rfl rfl⟩
  | edited hreviewing hafter hother =>
      exact Or.inr ⟨⟨rfl, rfl, rfl, rfl, rfl⟩, reviewStep_edits hreviewing hafter rfl rfl⟩

/-- Editing the review leaves the stage, the bill and what it is compiled from alone. -/
theorem step_editReview (s : Session) (edits : List Review.Edit) :
    (s.step (.editReview edits)).1.workspace.Agrees s.workspace ∧
      (s.step (.editReview edits)).1.workspace.stage = s.workspace.stage := by
  have houtcome := step_outcome s (.editReview edits)
  generalize s.step (.editReview edits) = result at houtcome ⊢
  cases houtcome with
  | replaced hop hinputs => exact absurd hop Bool.false_ne_true
  | nothing hidle => exact ⟨.refl _, rfl⟩
  | stored hreviewing hafter hsame => exact ⟨⟨rfl, rfl, rfl, rfl, rfl⟩, rfl⟩
  | edited hreviewing hafter hother => exact ⟨⟨rfl, rfl, rfl, rfl, rfl⟩, rfl⟩

/-! ### The edits of a run -/

/-- Between two sessions the compiler ran or the review stage was entered. -/
def StartsReview (s t : Session) : Prop :=
  t.workspace.revision ≠ s.workspace.revision ∨
    s.workspace.stage ≠ .review ∧ t.workspace.stage = .review

/-- The reachable sessions with the edits that were let through since the later of the last
compiler run and the last entry into the review stage. -/
inductive Edited : Session → List Review.Edit → Prop
  | start (catalog : Catalog) (coefficients : Coefficients) (counters : Counters)
      (durations : Nat → Nat := fun _ => 0) :
      Edited (Session.start catalog coefficients counters durations) []
  | anew {s : Session} {past : List Review.Edit} (op : Op) (h : Edited s past)
      (hstarts : StartsReview s (s.step op).1) : Edited (s.step op).1 []
  | further {s : Session} {past : List Review.Edit} (op : Op) (h : Edited s past)
      (hstarts : ¬ StartsReview s (s.step op).1) :
      Edited (s.step op).1 (past ++ op.admitted s)
  | subscribe {s : Session} {past : List Review.Edit} (h : Edited s past) :
      Edited s.subscribe past
  | drain {s : Session} {past : List Review.Edit} (h : Edited s past) : Edited s.drain.2 past
  | commit {s : Session} {past : List Review.Edit} {σ : Type} (store : StockStore σ)
      (request : BookingRequest) (room : σ) (h : Edited s past) :
      Edited (s.commit store request room).2.2 past

/-- Every reachable session has a history of edits. -/
theorem Reachable.edited {s : Session} (h : Reachable s) : ∃ past, Edited s past := by
  induction h with
  | start catalog coefficients counters durations =>
      exact ⟨[], .start catalog coefficients counters durations⟩
  | @step s op h ih =>
      obtain ⟨past, hpast⟩ := ih
      by_cases hstarts : StartsReview s (s.step op).1
      · exact ⟨[], .anew op hpast hstarts⟩
      · exact ⟨_, .further op hpast hstarts⟩
  | subscribe h ih =>
      obtain ⟨past, hpast⟩ := ih
      exact ⟨past, .subscribe hpast⟩
  | drain h ih =>
      obtain ⟨past, hpast⟩ := ih
      exact ⟨past, .drain hpast⟩
  | commit store request room h ih =>
      obtain ⟨past, hpast⟩ := ih
      exact ⟨past, .commit store request room hpast⟩

/-- Edits in the review stage are let through and stay there. -/
theorem Edited.editReview {s : Session} {past : List Review.Edit} (h : Edited s past)
    (hstage : s.workspace.stage = .review) (edits : List Review.Edit) :
    Edited (s.step (.editReview edits)).1 (past ++ edits) ∧
      (s.step (.editReview edits)).1.workspace.stage = .review := by
  have hadmitted : (Op.editReview edits).admitted s = edits :=
    if_pos (beq_iff_eq.mpr hstage)
  obtain ⟨hagrees, hsame⟩ := step_editReview s edits
  have hfurther : ¬ StartsReview s (s.step (.editReview edits)).1 := by
    rintro (hrun | ⟨hother, -⟩)
    · exact hrun hagrees.revision
    · exact hother hstage
  constructor
  · have hedited := Edited.further (.editReview edits) h hfurther
    rw [hadmitted] at hedited
    exact hedited
  · exact hsame.trans hstage

/-- In the review stage there is a review, and any review is the bill after some edits. -/
structure Reviews (w : Workspace) (past : List Review.Edit) : Prop where
  present : w.stage = .review → w.review.isSome
  edited : ∀ review, w.review = some review →
    review = (Review.ofBill w.bill).editAll w.catalog past

/-- A compiler run leaves the review of the compiled bill, without edits. -/
theorem reviews_afterCompile (w : Workspace) : Reviews w.afterCompile [] := by
  constructor
  · intro hstage
    have hreviewing : w.isReviewing = true := beq_iff_eq.mpr hstage
    rw [Workspace.afterCompile, if_pos hreviewing]
    rfl
  · intro review hreview
    simp only [Workspace.afterCompile] at hreview
    split_ifs at hreview
    exact (Option.some.inj hreview).symm

/-- An operation that leaves bill and catalogue alone keeps the review what it is. -/
theorem Reviews.step {s t : Session} {past edits : List Review.Edit}
    (h : Reviews s.workspace past) (hagrees : t.workspace.Agrees s.workspace)
    (hstep : ReviewStep s.workspace t.workspace edits) :
    (StartsReview s t → Reviews t.workspace []) ∧
      (¬ StartsReview s t → Reviews t.workspace (past ++ edits)) := by
  have hrevision : ¬ t.workspace.revision ≠ s.workspace.revision :=
    not_not_intro hagrees.revision
  -- Entering the review copies the bill; editing appends to what was edited before; any other step
  -- keeps both the review and the edits.
  cases hstep with
  | enters hsource htarget hreview =>
      refine ⟨fun _ => ⟨fun _ => by rw [hreview]; rfl, ?_⟩,
        fun hstarts => absurd (Or.inr ⟨hsource, htarget⟩) hstarts⟩
      intro review heq
      rw [hreview] at heq
      rw [hagrees.bill]
      exact (Option.some.inj heq).symm
  | edits hsource htarget hreview =>
      refine ⟨?_, fun _ => ⟨fun _ => by rw [hreview]; rfl, ?_⟩⟩
      · rintro (hrun | ⟨hother, -⟩)
        · exact absurd hrun hrevision
        · exact absurd hsource hother
      intro review heq
      obtain ⟨before, hbefore⟩ := Option.isSome_iff_exists.mp (h.present hsource)
      have hcurrent : s.workspace.currentReview =
          (Review.ofBill s.workspace.bill).editAll s.workspace.catalog past := by
        rw [Workspace.currentReview, hbefore]
        exact h.edited before hbefore
      rw [hreview, hcurrent] at heq
      rw [hagrees.bill, hagrees.catalog, Review.editAll_append]
      exact (Option.some.inj heq).symm
  | rests hstage hreview hedits =>
      refine ⟨?_, fun _ => ⟨?_, ?_⟩⟩
      · rintro (hrun | ⟨hother, htarget⟩)
        · exact absurd hrun hrevision
        · exact absurd (hstage htarget) hother
      · intro htarget
        rw [hreview]
        exact h.present (hstage htarget)
      · intro review heq
        rw [hreview] at heq
        rw [hagrees.bill, hagrees.catalog, hedits, List.append_nil]
        exact h.edited review heq

/-- The review of a session is its bill with the edits since then. -/
theorem Edited.reviews {s : Session} {past : List Review.Edit} (h : Edited s past) :
    Reviews s.workspace past := by
  induction h with
  | start catalog coefficients counters durations =>
      rw [start_workspace]
      exact reviews_afterCompile _
  | @anew s past op h hstarts ih =>
      rcases step_review_cases s op with ⟨w, hworkspace, -⟩ | ⟨hagrees, hstep⟩
      · rw [hworkspace]
        exact reviews_afterCompile w
      · exact (ih.step hagrees hstep).1 hstarts
  | @further s past op h hstarts ih =>
      rcases step_review_cases s op with ⟨w, hworkspace, hrevision⟩ | ⟨hagrees, hstep⟩
      · -- The compiler ran, so this run starts a review.
        refine absurd (Or.inl ?_) hstarts
        rw [hworkspace, ← hrevision]
        exact Nat.succ_ne_self _
      · exact (ih.step hagrees hstep).2 hstarts
  | subscribe h ih => exact ih
  | drain h ih => exact ih
  | commit store request room h ih => exact ih

/-- **The review is the edited bill.**  Every reachable session has edits that were let through
since the later of the last compiler run and the last entry into the review stage.  In the review
stage there is a review; and wherever there is one, it is the bill with exactly these edits, in
order, and its warnings are those of the bill. -/
theorem review_is_edited_bill :
    (∀ s : Session, Reachable s → ∃ past, Edited s past) ∧
    ∀ (s : Session) (past : List Review.Edit), Edited s past →
      (s.workspace.stage = .review → s.workspace.review.isSome) ∧
      ∀ review, s.workspace.review = some review →
        review = (Review.ofBill s.workspace.bill).editAll s.workspace.catalog past ∧
        review.warnings = s.workspace.bill.warnings := by
  refine ⟨fun s h => h.edited, fun s past h => ⟨h.reviews.present, ?_⟩⟩
  intro review hreview
  have hedited := h.reviews.edited review hreview
  refine ⟨hedited, ?_⟩
  rw [hedited, Review.warnings_editAll]
  rfl

/-- Coefficients without an ampacity table and without consumables. -/
def plainCoefficients : Coefficients :=
  { Coefficients.builtin with sizing := [], consumables := fun _ => ⟨none, 0.0⟩ }

/-- Two modules on one string. -/
def wiredPlan : Plan :=
  { Plan.preset plainCoefficients with
    module := some "MOD"
    layout := { portrait := [2] }
    inverters := [⟨"INV", 1, [⟨"S1", 2⟩]⟩] }

/-- A session whose plan has no issues, one stage before the review. -/
def beforeReview : Session :=
  (start .empty plainCoefficients).after
    [.updatePlan fun _ => wiredPlan, .advance, .advance, .advance, .advance]

/-- The session in the review stage. -/
def reviewing : Session :=
  (beforeReview.step .advance).1

/-- The stage before the review is reached by operations. -/
theorem reachable_beforeReview : Reachable beforeReview :=
  (Reachable.start .empty plainCoefficients {}).after _

/-- It is the one of the electrical components. -/
theorem beforeReview_stage : beforeReview.workspace.stage = .electricalComponents := by
  decide +kernel

/-- One more move leads to the review. -/
theorem reviewing_stage : reviewing.workspace.stage = .review := by
  decide +kernel

/-- One module instead of two, edited by hand. -/
theorem review_is_edited_bill_module :
    ∃ s : Session, Edited s [.setQuantity "MOD" 1.0] ∧ s.workspace.stage = .review ∧
      ∃ review, s.workspace.review = some review ∧
        review = (Review.ofBill s.workspace.bill).editAll s.workspace.catalog
          [.setQuantity "MOD" 1.0] := by
  obtain ⟨past, hpast⟩ := review_is_edited_bill.1 beforeReview reachable_beforeReview
  have hstarts : StartsReview beforeReview reviewing := by
    refine Or.inr ⟨?_, reviewing_stage⟩
    rw [beforeReview_stage]
    decide
  have hentered : Edited reviewing [] := .anew .advance hpast hstarts
  obtain ⟨hedited, hstage⟩ := hentered.editReview reviewing_stage [.setQuantity "MOD" 1.0]
  obtain ⟨hpresent, hreview⟩ := review_is_edited_bill.2 _ _ hedited
  obtain ⟨review, heq⟩ := Option.isSome_iff_exists.mp (hpresent hstage)
  exact ⟨_, hedited, hstage, review, heq, (hreview review heq).1⟩

end Session

end SolarBill
