import SolarBill.Proofs.Session.Review

/-!
# Announcing a review that has changed

Subscribers learn from four kinds of events that a review may not be what it was: the review was
edited, the compiled bill is another one, the stage has changed, or the session has started over.
All other events are about what the bill is compiled from.

Editing announces every change, since quantities under review compare equal only when they are the
same; entering the review stage and starting over are always announced.  The compiler is the
exception: a run begins the review anew, or ends it outside the review stage, whatever it finds, but
the run is announced only when its bill differs from the one before.

* `Treats` — what an operation of a reachable session means to the review;
* `Forgets` — the compiler returns the bill that was there, and the review was not a fresh copy of
  it: this is lost;
* `review_change_told_iff` — every other operation tells of a review that it changes;
* `review_after_untold` — as long as nothing is forgotten, who hears of no change has missed none.
-/

namespace SolarBill

/-! ### Comparing reviews -/

namespace Review

/-- Reviews compare by their lines and their warnings. -/
theorem beq_iff (a b : Review) :
    (a == b) = true ↔ (a.lines == b.lines) = true ∧ a.warnings = b.warnings := by
  change instBEqReview.beq a b = true ↔ _
  cases a
  cases b
  simp only [instBEqReview.beq, Bool.and_eq_true, beq_iff_eq]

/-- A review without quantities of zero or below compares equal to no other review. -/
theorem eq_of_beq {a b : Review} (hne : ∀ l ∈ a.lines, ¬ l.quantity ≤ 0.0)
    (h : (a == b) = true) : a = b := by
  obtain ⟨hlines, hwarnings⟩ := (beq_iff a b).mp h
  have hlines := Line.list_eq_of_beq hne hlines
  cases a
  cases b
  simp_all only

end Review

/-! ### Events that tell of the review -/

/-- Does the event say that the review, or what it is a review of, is no longer what it was? -/
def Event.tellsOfReview : Event → Bool
  | .reviewEdited _ | .billCompiled _ _ _ | .stageChanged _ _ | .sessionReset => true
  | _ => false

/-- The review that the workspace would have if nobody had edited anything: a copy of the bill in
the review stage, and none elsewhere. -/
def Workspace.untouchedReview (w : Workspace) : Option Review :=
  if w.isReviewing then some (.ofBill w.bill) else none

namespace Session

/-- Some event tells of the review. -/
def TellsOfReview (events : List Event) : Prop :=
  ∃ e ∈ events, e.tellsOfReview = true

/-- A review is told of in two lists of events if it is in one of them. -/
theorem tellsOfReview_append {xs ys : List Event} :
    TellsOfReview (xs ++ ys) ↔ TellsOfReview xs ∨ TellsOfReview ys := by
  simp only [TellsOfReview, List.mem_append, or_and_right, exists_or]

/-- News of plan, catalogue or coefficients are no news of the review. -/
theorem not_tellsOfReview_of_inputs {e : Event} (h : e.isOfInputs = true) :
    ¬ e.tellsOfReview = true := by
  cases e <;> simp_all [Event.isOfInputs, Event.tellsOfReview]

/-- What an operation means to the review: its events tell of it, the review stays, or the compiler
runs after announcements that say nothing of the review. -/
inductive Treats (s : Session) (op : Op) : Prop
  | tells (htells : TellsOfReview (s.step op).2)
      (hrevision : op ≠ .reset → (s.step op).1.workspace.revision = s.workspace.revision)
  | rests (hreview : (s.step op).1.workspace.review = s.workspace.review)
      (hrevision : (s.step op).1.workspace.revision = s.workspace.revision)
  | compiles (changes : List Event) (w : Workspace)
      (hstep : s.step op = announce changes { s with workspace := w })
      (hchanges : ¬ TellsOfReview changes) (hstage : w.stage = s.workspace.stage)
      (hbill : w.bill = s.workspace.bill) (hrevision : w.revision = s.workspace.revision)
      (hop : op ≠ .reset)

/-- No quantity under review is zero or below. -/
theorem Reachable.review_not_le_zero {s : Session} (h : Reachable s) {review : Review}
    (hreview : s.workspace.review = some review) : ∀ l ∈ review.lines, ¬ l.quantity ≤ 0.0 := by
  obtain ⟨past, hpast⟩ := h.edited
  have hpos : Line.AllPositive s.workspace.bill.lines := by
    rw [h.bill_eq]
    exact compile_pos _ _ _
  have hbill : ∀ l ∈ (Review.ofBill s.workspace.bill).lines, ¬ l.quantity ≤ 0.0 := hpos.not_le_zero
  rw [hpast.reviews.edited review hreview]
  exact Review.editAll_not_le_zero _ hbill past

/-- An edited review that compares equal to the one before is the one before. -/
theorem Reachable.review_eq_of_beq {s : Session} (h : Reachable s) {edits : List Review.Edit}
    (hreviewing : s.workspace.isReviewing = true)
    (hsame : (s.workspace.currentReview.editAll s.workspace.catalog edits ==
      s.workspace.currentReview) = true) :
    s.workspace.review = some (s.workspace.currentReview.editAll s.workspace.catalog edits) := by
  obtain ⟨past, hpast⟩ := h.edited
  obtain ⟨review, hreview⟩ :=
    Option.isSome_iff_exists.mp (hpast.reviews.present (beq_iff_eq.mp hreviewing))
  have hcurrent : s.workspace.currentReview = review := by
    rw [Workspace.currentReview, hreview]
    rfl
  have hnonzero := Review.editAll_not_le_zero s.workspace.catalog
    (h.review_not_le_zero hreview) edits
  rw [hcurrent] at hsame ⊢
  rw [Review.eq_of_beq hnonzero hsame, hreview]

/-- Every operation treats the review in one of these ways. -/
theorem treats_step {s : Session} (h : Reachable s) (op : Op) : Treats s op := by
  have houtcome := step_outcome s op
  generalize hstep : s.step op = result at houtcome
  cases houtcome with
  | nothing hidle => exact .rests (by rw [hstep]) (by rw [hstep])
  | replaced hop hinputs hlength hstage hbill hrevision =>
      refine .compiles _ _ hstep ?_ hstage hbill hrevision (Op.ne_reset_of_replaces hop)
      rintro ⟨e, he, htells⟩
      exact absurd htells (not_tellsOfReview_of_inputs (hinputs e he))
  | startedOver =>
      refine .tells ?_ fun hne => absurd rfl hne
      rw [hstep, announce_events, tellsOfReview_append]
      exact Or.inl ⟨_, List.mem_singleton_self _, rfl⟩
  | advanced hnext hissues =>
      refine .tells ?_ fun _ => by rw [hstep]; rfl
      rw [hstep]
      exact ⟨_, List.mem_singleton_self _, rfl⟩
  | refused hnext hissues => exact .rests (by rw [hstep]; rfl) (by rw [hstep]; rfl)
  | wentBack hprevious => exact .rests (by rw [hstep]; rfl) (by rw [hstep]; rfl)
  | stored hreviewing hafter hsame =>
      subst hafter
      refine .rests ?_ (by rw [hstep])
      rw [hstep]
      exact (h.review_eq_of_beq hreviewing hsame).symm
  | edited hreviewing hafter hother =>
      refine .tells ?_ fun _ => by rw [hstep]; rfl
      rw [hstep]
      exact ⟨_, List.mem_singleton_self _, rfl⟩

/-! ### Reviews that are lost -/

/-- The operation runs the compiler, which returns the bill that was there before, and the review is
not the one that nobody has edited. -/
structure Forgets (s : Session) (op : Op) : Prop where
  keepsSession : op ≠ .reset
  compiles : (s.step op).1.workspace.revision ≠ s.workspace.revision
  sameBill : (s.step op).1.workspace.bill = s.workspace.bill
  touched : s.workspace.review ≠ s.workspace.untouchedReview

/-- Edits do not make a session forget its review. -/
theorem not_forgets_editReview (s : Session) (edits : List Review.Edit) :
    ¬ Forgets s (.editReview edits) :=
  fun h => h.compiles (step_editReview s edits).1.revision

/-- A compiler run that returns the bill before leaves the untouched review and is not announced. -/
theorem announce_same (changes : List Event) {s : Session} {w : Workspace}
    (hstage : w.stage = s.workspace.stage) (hsame : w.compiled = s.workspace.bill)
    (hbill : w.bill = s.workspace.bill) (hrevision : 0 < w.revision) :
    (announce changes { s with workspace := w }).1.workspace.review = s.workspace.untouchedReview ∧
      (announce changes { s with workspace := w }).2 = changes := by
  constructor
  · have hreviewing : w.isReviewing = s.workspace.isReviewing := by
      rw [Workspace.isReviewing, hstage, Workspace.isReviewing]
    rw [announce_workspace, Workspace.untouchedReview, ← hreviewing, ← hsame]
    rfl
  · rw [announce_events, if_pos ⟨hsame.trans hbill.symm, hrevision⟩, List.append_nil]

/-- Another bill is announced. -/
theorem announce_other {changes : List Event} {s : Session}
    (hother : s.workspace.compiled ≠ s.workspace.bill) :
    TellsOfReview (announce changes s).2 := by
  rw [announce_events, if_neg fun h => hother h.1, tellsOfReview_append]
  exact Or.inr ⟨_, List.mem_singleton_self _, rfl⟩

/-- An operation of a reachable session forgets the review and says nothing, or it tells of the
review it changes. -/
theorem forgets_or_tells {s : Session} (h : Reachable s) (op : Op) :
    (Forgets s op ∧ ¬ TellsOfReview (s.step op).2 ∧
      (s.step op).1.workspace.review = s.workspace.untouchedReview) ∨
    (¬ Forgets s op ∧
      ((s.step op).1.workspace.review ≠ s.workspace.review → TellsOfReview (s.step op).2)) := by
  cases treats_step h op with
  | tells htells hrevision =>
      exact Or.inr ⟨fun hf => hf.compiles (hrevision hf.keepsSession), fun _ => htells⟩
  | rests hreview hrevision =>
      exact Or.inr ⟨fun hf => hf.compiles hrevision, fun hne => absurd hreview hne⟩
  | compiles changes w hstep hchanges hstage hbill hrevision hop =>
      have hafter : (s.step op).1.workspace = w.afterCompile := by
        rw [hstep, announce_workspace]
      -- A bill that compiles to what it was is not announced, and its edited review is lost in
      -- silence.
      by_cases hsame : w.compiled = s.workspace.bill
      · have hpos : 0 < w.revision := hrevision ▸ h.revision_pos
        obtain ⟨hreview, hevents⟩ := announce_same changes hstage hsame hbill hpos
        rw [← hstep] at hreview hevents
        by_cases htouched : s.workspace.review = s.workspace.untouchedReview
        · exact Or.inr ⟨fun hf => hf.touched htouched,
            fun hne => absurd (hreview.trans htouched.symm) hne⟩
        · refine Or.inl ⟨⟨hop, ?_, ?_, htouched⟩, hevents ▸ hchanges, hreview⟩
          · rw [hafter, ← hrevision]
            exact Nat.succ_ne_self _
          · rw [hafter]
            exact hsame
      · right
        constructor
        · intro hf
          have hcompiled := hf.sameBill
          rw [hafter] at hcompiled
          exact hsame hcompiled
        · intro _
          rw [hstep]
          apply announce_other
          rw [hbill]
          exact hsame

/-- What subscribers can rely on: while no operation forgets the review and no event tells of it,
the review stays what it is. -/
theorem review_after_untold {s : Session} (h : Reachable s) (ops : List Op)
    (hkept : ∀ past op, past ++ [op] <+: ops → ¬ Forgets (s.after past) op)
    (huntold : ∀ past op, past ++ [op] <+: ops → ¬ TellsOfReview ((s.after past).step op).2) :
    (s.after ops).workspace.review = s.workspace.review := by
  induction ops generalizing s with
  | nil => rfl
  | cons op rest ih =>
      have hfirst : [] ++ [op] <+: op :: rest := ⟨rest, rfl⟩
      have hlater : ∀ past o, past ++ [o] <+: rest → (op :: past) ++ [o] <+: op :: rest :=
        fun _ _ hpast => List.cons_prefix_cons.mpr ⟨rfl, hpast⟩
      have hstep : (s.step op).1.workspace.review = s.workspace.review := by
        rcases forgets_or_tells h op with ⟨hforgets, -⟩ | ⟨-, htold⟩
        · exact absurd hforgets (hkept [] op hfirst)
        · by_contra hne
          exact huntold [] op hfirst (htold hne)
      have hrest := ih (h.step op) (fun past o hpast => hkept (op :: past) o (hlater past o hpast))
        (fun past o hpast => huntold (op :: past) o (hlater past o hpast))
      exact hrest.trans hstep

/-- **Which reviews are lost unannounced.**  In every reachable session an operation that changes
the review, or with which it appears or disappears, tells of it, unless the operation forgets the
review; and then what is left is the review that nobody has edited. -/
theorem review_change_told_iff {s : Session} (h : Reachable s) (op : Op) :
    (((s.step op).1.workspace.review ≠ s.workspace.review → TellsOfReview (s.step op).2) ↔
      ¬ Forgets s op) ∧
    (Forgets s op → (s.step op).1.workspace.review = s.workspace.untouchedReview) := by
  rcases forgets_or_tells h op with ⟨hforgets, hsilent, hreview⟩ | ⟨hkept, htold⟩
  · have hchanged : (s.step op).1.workspace.review ≠ s.workspace.review := by
      rw [hreview]
      exact hforgets.touched.symm
    exact ⟨iff_of_false (fun htold => hsilent (htold hchanged)) (not_not_intro hforgets),
      fun _ => hreview⟩
  · exact ⟨iff_of_true htold hkept, fun hforgets => absurd hforgets hkept⟩

/-- One module instead of two, set by hand. -/
def oneModule : Op := .editReview [.setQuantity "MOD" 1.0]

/-- The review of the module is reached by operations. -/
theorem reachable_reviewing : Reachable reviewing :=
  reachable_beforeReview.step .advance

/-- The edit is announced. -/
theorem review_change_told_iff_module :
    Reachable reviewing ∧ TellsOfReview (reviewing.step oneModule).2 := by
  refine ⟨reachable_reviewing, ?_⟩
  have htold := (review_change_told_iff reachable_reviewing oneModule).1
  apply htold.mpr (not_forgets_editReview _ _)
  decide +kernel

/-- **Edits that vanish unannounced.**  One module instead of two is set by hand.  Then the
catalogue is replaced by one that says the same of the materials: the bill stays the same, the
review starts over, and all that subscribers learn is that there is another catalogue. -/
theorem review_lost_unannounced :
    ¬ ∀ s : Session, Reachable s → ∀ op : Op,
      (s.step op).1.workspace.review ≠ s.workspace.review → TellsOfReview (s.step op).2 := by
  intro hall
  have hreach : Reachable (reviewing.step oneModule).1 := .step oneModule reachable_reviewing
  have hchanged : ((reviewing.step oneModule).1.step (.setCatalog .empty)).1.workspace.review ≠
      (reviewing.step oneModule).1.workspace.review := by
    decide +kernel
  have hevents : ((reviewing.step oneModule).1.step (.setCatalog .empty)).2 =
      [.catalogChanged] := by
    decide +kernel
  have htells := hall _ hreach _ hchanged
  rw [hevents] at htells
  simp [TellsOfReview, Event.tellsOfReview] at htells

end Session

end SolarBill
