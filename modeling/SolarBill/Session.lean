import SolarBill.Bill.Compile
import SolarBill.Booking
import SolarBill.Review
import SolarBill.Wizard.Check

/-!
# Sessions

A session holds a plan, the catalogue and the coefficients it is compiled with, the bill, the stage
of the wizard and, in the review stage, the review.  Every operation is a function from a session to
a session and the events it emits; the events also go to everyone who subscribed.

* The bill is compiled anew whenever plan, catalogue or coefficients are replaced, and once when
  the session starts.
* Moving forwards needs a plan without issues of the stage; moving back is always allowed.
* Review edits are refused outside the review stage.
* Starting over keeps the catalogue, the coefficients and the revision number.
-/

namespace SolarBill

/-- What a session tells its subscribers. -/
inductive Event where
  | planChanged
  | overridesChanged (subsystem : Subsystem)
  | coefficientsChanged
  | catalogChanged
  | billCompiled (revision lineCount warningCount : Nat)
  | stageChanged (source target : Stage)
  | advanceBlocked (stage : Stage) (issues : List Issue)
  | reviewEdited (lineCount : Nat)
  | sessionReset
  deriving DecidableEq, Repr

/-- What a session works on. -/
structure Workspace where
  stage : Stage
  plan : Plan
  catalog : Catalog
  coefficients : Coefficients
  /-- Result of the latest compiler run. -/
  bill : Bill
  review : Option Review
  /-- Number of compiler runs.  It is exact: that a 64-bit number would wrap is left out. -/
  revision : Nat

namespace Workspace

/-- A workspace before its first compiler run. -/
def fresh (catalog : Catalog) (coefficients : Coefficients) : Workspace where
  stage := .moduleAndRoof
  plan := .preset coefficients
  catalog := catalog
  coefficients := coefficients
  bill := {}
  review := none
  revision := 0

/-- Is the review going on? -/
def isReviewing (w : Workspace) : Bool :=
  w.stage == .review

/-- The review, or the one that would start now. -/
def currentReview (w : Workspace) : Review :=
  w.review.getD (.ofBill w.bill)

/-- What the workspace compiles to. -/
def compiled (w : Workspace) : Bill :=
  compile w.plan w.catalog w.coefficients

/-- Run the compiler.  The review starts over in the review stage and ends elsewhere; the event
tells of a bill that differs from the one before, and of the first bill. -/
def recompile (w : Workspace) : Workspace × List Event :=
  let bill := w.compiled
  let revision := w.revision + 1
  let review := if w.isReviewing then some (Review.ofBill bill) else none
  let next := { w with revision := revision, review := review }
  if bill == w.bill && 1 < revision then
    (next, [])
  else
    ({ next with bill := bill },
      [.billCompiled revision bill.lines.length bill.warnings.length])

end Workspace

/-- A session: the workspace, its counters, and the events that each subscriber has yet to read. -/
structure Session where
  workspace : Workspace
  counters : Counters := {}
  inboxes : List (List Event) := []
  /-- How many nanoseconds each compiler run takes, by its number.  That is up to the machine: the
  session only counts them. -/
  durations : Nat → Nat := fun _ => 0

namespace Session

/-- Compile, and count the run and the time that it takes. -/
def recompile (s : Session) : Session × List Event :=
  let (workspace, events) := s.workspace.recompile
  ({ s with
      workspace := workspace
      counters := s.counters.compiled (s.durations workspace.revision)
        s.workspace.compiled.warnings.length }, events)

/-- Send events to every subscriber; an event counts as broadcast when there is one. -/
def publish (events : List Event) (s : Session) : Session :=
  { s with
    inboxes := s.inboxes.map (· ++ events)
    counters := s.counters.broadcast (if s.inboxes.isEmpty then 0 else events.length) }

/-- Announce a change, compile, and send all events. -/
def announce (changes : List Event) (s : Session) : Session × List Event :=
  let (next, compiled) := s.recompile
  let events := changes ++ compiled
  (next.publish events, events)

/-- Start a session: the plan has the preset selections and is compiled once.  The counters may
have counted for others before. -/
def start (catalog : Catalog) (coefficients : Coefficients) (counters : Counters := {})
    (durations : Nat → Nat := fun _ => 0) : Session :=
  (recompile
    { workspace := .fresh catalog coefficients, counters := counters, durations := durations }).1

/-- Change the plan; nothing happens when it stays the same. -/
def updatePlan (change : Plan → Plan) (s : Session) : Session × List Event :=
  let old := s.workspace.plan
  let new := change old
  if new = old then (s, [])
  else
    let overridden := Subsystem.all.filter fun t => old.overrides.get t ≠ new.overrides.get t
    announce (.planChanged :: overridden.map .overridesChanged)
      { s with workspace := { s.workspace with plan := new } }

/-- Replace the override of a subsystem; nothing happens when it stays the same. -/
def setOverride (t : Subsystem) (p : Protection) (s : Session) : Session × List Event :=
  let plan := s.workspace.plan
  if plan.overrides.get t = p then (s, [])
  else
    announce [.overridesChanged t]
      { s with workspace :=
          { s.workspace with plan := { plan with overrides := plan.overrides.set t p } } }

/-- Replace the coefficients. -/
def setCoefficients (c : Coefficients) (s : Session) : Session × List Event :=
  announce [.coefficientsChanged] { s with workspace := { s.workspace with coefficients := c } }

/-- Replace the catalogue. -/
def setCatalog (c : Catalog) (s : Session) : Session × List Event :=
  announce [.catalogChanged] { s with workspace := { s.workspace with catalog := c } }

/-- Enter a stage; entering the review starts a review of the bill. -/
def enter (t : Stage) (w : Workspace) : Workspace :=
  { w with
    stage := t
    review := if t = .review then some (Review.ofBill w.bill) else w.review }

/-- Move to the next stage if the plan has no issue of this one. -/
def advance (s : Session) : Session × List Event :=
  let stage := s.workspace.stage
  match stage.next? with
  | none => (s, [])
  | some target =>
    match stage.issues s.workspace.plan with
    | [] =>
      let events := [.stageChanged stage target]
      ({ s with workspace := enter target s.workspace }.publish events, events)
    | issues =>
      let events := [.advanceBlocked stage issues]
      ({ s with counters := s.counters.blocked }.publish events, events)

/-- Move to the previous stage. -/
def back (s : Session) : Session × List Event :=
  let stage := s.workspace.stage
  match stage.previous? with
  | none => (s, [])
  | some target =>
    let events := [.stageChanged stage target]
    ({ s with workspace := { s.workspace with stage := target } }.publish events, events)

/-- Edit the review; refused outside the review stage. -/
def editReview (edits : List Review.Edit) (s : Session) : Session × List Event :=
  let w := s.workspace
  if w.isReviewing then
    let before := w.currentReview
    let after := before.editAll w.catalog edits
    let next := { s with workspace := { w with review := some after } }
    if after == before then (next, [])
    else
      let events := [.reviewEdited after.lines.length]
      (next.publish events, events)
  else (s, [])

/-- What the edits of a review report; nothing when they are refused. -/
def editReports (edits : List Review.Edit) (s : Session) : List (Option Bool) :=
  let w := s.workspace
  if w.isReviewing then w.currentReview.reports w.catalog edits else []

/-- Start over with the same catalogue and coefficients. -/
def reset (s : Session) : Session × List Event :=
  let w := s.workspace
  announce [.sessionReset]
    { s with workspace := { Workspace.fresh w.catalog w.coefficients with revision := w.revision } }

/-- Add a subscriber, who gets the events from now on. -/
def subscribe (s : Session) : Session :=
  { s with inboxes := s.inboxes ++ [[]] }

/-- The events that each subscriber has yet to read, and the session once they are read. -/
def drain (s : Session) : List (List Event) × Session :=
  (s.inboxes, { s with inboxes := s.inboxes.map fun _ => [] })

/-- Book the review, an empty one if there is none, and count the outcome. -/
def commit {σ : Type} (store : StockStore σ) (request : BookingRequest) (room : σ) (s : Session) :
    Except BookingError BookingReceipt × σ × Session :=
  let review := s.workspace.review.getD {}
  let (outcome, room) := Booking.commit store review s.workspace.catalog request room
  (outcome, room, { s with counters := Booking.counted outcome s.counters })

/-- An operation on a session. -/
inductive Op where
  | updatePlan (change : Plan → Plan)
  | setOverride (subsystem : Subsystem) (own : Protection)
  | setCoefficients (coefficients : Coefficients)
  | setCatalog (catalog : Catalog)
  | advance
  | back
  | editReview (edits : List Review.Edit)
  | reset

/-- The session after an operation, and the events that the operation emits. -/
def step (s : Session) : Op → Session × List Event
  | .updatePlan change => s.updatePlan change
  | .setOverride subsystem own => s.setOverride subsystem own
  | .setCoefficients coefficients => s.setCoefficients coefficients
  | .setCatalog catalog => s.setCatalog catalog
  | .advance => s.advance
  | .back => s.back
  | .editReview edits => s.editReview edits
  | .reset => s.reset

end Session

end SolarBill
