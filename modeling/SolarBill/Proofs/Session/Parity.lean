import SolarBill.Proofs.Booking.Saga
import SolarBill.Proofs.Session.Review

/-!
# What a session lets through to the store

The one warning of a bill says that the strings do not wire the modules that are laid out.  The
bill of a session is always compiled from its current plan, the review has the warnings of the
bill, edits cannot remove them, and a review with warnings is refused before the store is called.
So a plan whose strings disagree with its layout is never booked (`booked_plan_is_wired`).
-/

namespace SolarBill

namespace Session

/-- The bill of a reachable session has no warnings exactly when the strings wire the layout. -/
theorem Reachable.warnings_eq_nil_iff {s : Session} (h : Reachable s) :
    s.workspace.bill.warnings = [] ↔
      s.workspace.plan.stringModules = s.workspace.plan.totalModules := by
  rw [h.bill_eq]
  exact Rules.parityWarnings_eq_nil_iff _

/-- A review of a plan whose strings disagree with the layout cannot be committed. -/
theorem Reachable.canCommit_unwired {s : Session} (h : Reachable s)
    (hunwired : s.workspace.plan.stringModules ≠ s.workspace.plan.totalModules) :
    (s.workspace.review.getD {}).canCommit = false := by
  have hwarnings : s.workspace.bill.warnings ≠ [] := mt h.warnings_eq_nil_iff.mp hunwired
  obtain ⟨past, hpast⟩ := h.edited
  cases hreview : s.workspace.review with
  | none => rfl
  | some review =>
      have hsame : review.warnings = s.workspace.bill.warnings := by
        rw [hpast.reviews.edited review hreview, Review.warnings_editAll]
        rfl
      rw [Option.getD_some, Review.canCommit, hsame, List.isEmpty_eq_false_iff.mpr hwarnings,
        Bool.false_and]

/-- **Only wired plans are booked.**  Whatever led to a session, and whatever the store answers: if
the review of the session is booked, then the strings of the current plan wire exactly the modules
that are laid out.  If they do not, the booking is refused and the store is left alone. -/
theorem booked_plan_is_wired {s : Session} (h : Reachable s) {σ : Type} (store : StockStore σ)
    (catalog : Catalog) (request : BookingRequest) (room : σ) :
    ((∃ receipt next, Booking.commit store (s.workspace.review.getD {}) catalog request room =
        (.ok receipt, next)) →
      s.workspace.plan.stringModules = s.workspace.plan.totalModules) ∧
    (s.workspace.plan.stringModules ≠ s.workspace.plan.totalModules →
      ∃ refusal, Booking.commit store (s.workspace.review.getD {}) catalog request room =
        (.error refusal, room)) := by
  have hrefused : s.workspace.plan.stringModules ≠ s.workspace.plan.totalModules →
      ∃ refusal, Booking.commit store (s.workspace.review.getD {}) catalog request room =
        (.error refusal, room) := by
    intro hunwired
    exact ⟨_, Booking.commit_refused store catalog request room (h.canCommit_unwired hunwired)⟩
  refine ⟨?_, hrefused⟩
  rintro ⟨receipt, next, hbooked⟩
  by_contra hunwired
  obtain ⟨refusal, hcommit⟩ := hrefused hunwired
  rw [hbooked] at hcommit
  exact absurd (Prod.mk.inj hcommit).1 (by simp)

/-- A store that grants every call. -/
def grantingStore : StockStore Unit where
  applyDelta _ _ _ := (.ok (), ())
  recordBooking _ _ := (.ok (), ())

/-- Two modules on one string are booked. -/
theorem booked_plan_is_wired_modules :
    Reachable reviewing ∧
      (∃ receipt next, Booking.commit grantingStore (reviewing.workspace.review.getD {}) .empty
        ⟨"customer", "project"⟩ () = (.ok receipt, next)) ∧
      reviewing.workspace.plan.stringModules = reviewing.workspace.plan.totalModules := by
  have hreach : Reachable reviewing := reachable_beforeReview.step .advance
  have hok : (Booking.commit grantingStore (reviewing.workspace.review.getD {}) .empty
      ⟨"customer", "project"⟩ ()).1.isOk = true := by
    decide +kernel
  have hbooked : ∃ receipt next, Booking.commit grantingStore
      (reviewing.workspace.review.getD {}) .empty ⟨"customer", "project"⟩ () =
        (.ok receipt, next) := by
    rcases hcommit : Booking.commit grantingStore (reviewing.workspace.review.getD {}) .empty
      ⟨"customer", "project"⟩ () with ⟨refusal | receipt, next⟩
    · rw [hcommit] at hok
      exact absurd hok (by simp [Except.isOk, Except.toBool])
    · exact ⟨receipt, next, rfl⟩
  exact ⟨hreach, hbooked, (booked_plan_is_wired hreach grantingStore .empty _ ()).1 hbooked⟩

end Session

end SolarBill
