import Mathlib.Data.List.Forall2
import SolarBill.Booking
import SolarBill.Booking.StockRoom

/-!
# Bookings as compensated sagas

A booking is described by what passes between it and the stock store, whatever the store answers.

* `StockStore.witnessed` writes down every call with its answer; `StockStore.Extends` says that
  such additions to a store do not change what a booking does.
* `BookingRecord.Records` says what is booked: every line of the review, in order, with its material
  and quantity.
* `Saga` lists the ways a booking can go: every line is taken and the booking recorded, or one call
  fails and every line taken so far is put back, the last one first, whatever the answers.
* `commit_is_saga` — every booking that is not refused at once goes one of these ways.
-/

namespace SolarBill

/-- What a stock store is asked to do. -/
inductive StockRequest where
  | delta (id : String) (change : Float)
  | booking (record : BookingRecord)
  deriving DecidableEq, Repr

/-- A line as it is booked: the material, the words and the quantity of a review line, and the price
that the catalogue has for the material. -/
structure BookedLine.Books (catalog : Catalog) (l : Line) (booked : BookedLine) : Prop where
  materialId : booked.materialId = l.materialId
  description : booked.description = l.description
  quantity : booked.quantity = l.quantity
  unitPrice : booked.unitPrice = (catalog.get? l.materialId).bind Material.price

/-- A record of a review: for whom it is booked, and every line, in order. -/
structure BookingRecord.Records (request : BookingRequest) (review : Review) (catalog : Catalog)
    (record : BookingRecord) : Prop where
  customer : record.customer = request.customer
  project : record.project = request.project
  lines : List.Forall₂ (BookedLine.Books catalog) review.lines record.lines

namespace BookingRecord

variable {request : BookingRequest} {review : Review} {catalog : Catalog} {record : BookingRecord}

/-- A snapshot is a record of the review. -/
theorem records_snapshot : Records request review catalog (snapshot request review catalog) where
  customer := rfl
  project := rfl
  lines := List.forall₂_map_right_iff.mpr (List.forall₂_same.mpr fun _ _ => ⟨rfl, rfl, rfl, rfl⟩)

/-- There is no other record of the review. -/
theorem Records.eq_snapshot (h : Records request review catalog record) :
    record = snapshot request review catalog := by
  obtain ⟨customer, project, booked⟩ := record
  obtain ⟨rfl, rfl, hlines⟩ := h
  rw [snapshot, mk.injEq]
  refine ⟨rfl, rfl, ?_⟩
  change List.Forall₂ _ _ booked at hlines
  generalize review.lines = lines at hlines ⊢
  induction hlines with
  | nil => rfl
  | @cons l booked lines rest hline hrest ih =>
      obtain ⟨id, description, quantity, price⟩ := booked
      obtain ⟨rfl, rfl, rfl, rfl⟩ := hline
      rw [List.map_cons, ← ih]

end BookingRecord

/-- A call of a stock store and the answer. -/
abbrev Exchange := StockRequest × Except StockError Unit

namespace StockStore

variable {σ τ : Type}

/-- The store that also writes down what it is asked and what it answers, the first call first. -/
def witnessed (store : StockStore σ) : StockStore (σ × List Exchange) where
  applyDelta id change s :=
    let (answer, next) := store.applyDelta id change s.1
    (answer, next, s.2 ++ [(.delta id change, answer)])
  recordBooking record s :=
    let (answer, next) := store.recordBooking record s.1
    (answer, next, s.2 ++ [(.booking record, answer)])

/-- A store gives the same answers as another one, and its states say more. -/
structure Extends (big : StockStore τ) (small : StockStore σ) (forget : τ → σ) : Prop where
  applyDelta : ∀ id change t, small.applyDelta id change (forget t) =
    ((big.applyDelta id change t).1, forget (big.applyDelta id change t).2)
  recordBooking : ∀ record t, small.recordBooking record (forget t) =
    ((big.recordBooking record t).1, forget (big.recordBooking record t).2)

/-- Writing the calls down changes no answer. -/
theorem witnessed_extends (store : StockStore σ) : store.witnessed.Extends store Prod.fst where
  applyDelta _ _ _ := rfl
  recordBooking _ _ := rfl

/-- A change of a level is written down with its answer. -/
theorem witnessed_applyDelta {store : StockStore σ} {id : String} {change : Float} {s next : σ}
    {answer : Except StockError Unit} (h : store.applyDelta id change s = (answer, next))
    (calls : List Exchange) :
    store.witnessed.applyDelta id change (s, calls) =
      (answer, next, calls ++ [(.delta id change, answer)]) := by
  simp only [witnessed, h]

theorem witnessed_recordBooking {store : StockStore σ} {record : BookingRecord} {s next : σ}
    {answer : Except StockError Unit} (h : store.recordBooking record s = (answer, next))
    (calls : List Exchange) :
    store.witnessed.recordBooking record (s, calls) =
      (answer, next, calls ++ [(.booking record, answer)]) := by
  simp only [witnessed, h]

end StockStore

namespace Booking

variable {σ τ : Type} {store : StockStore σ}

/-! ### A booking call by call -/

/-- A line that is taken is remembered, and the next one follows. -/
theorem takeOut_cons_ok {line : BookedLine} {s next : σ}
    (h : store.applyDelta line.materialId (-line.quantity) s = (.ok (), next))
    (rest taken : List BookedLine) :
    takeOut store (line :: rest) taken s = takeOut store rest (line :: taken) next := by
  rw [takeOut, h]

/-- Taking stops where the store refuses. -/
theorem takeOut_cons_error {line : BookedLine} {s next : σ} {cause : StockError}
    (h : store.applyDelta line.materialId (-line.quantity) s = (.error cause, next))
    (rest taken : List BookedLine) :
    takeOut store (line :: rest) taken s = (some cause, taken, next) := by
  rw [takeOut, h]

/-- Putting back goes on whatever the answer, and remembers what is still missing. -/
theorem putBack_cons {line : BookedLine} {s next : σ} {answer : Except StockError Unit}
    (h : store.applyDelta line.materialId line.quantity s = (answer, next))
    (rest : List BookedLine) :
    putBack store (line :: rest) s =
      (if answer.isOk then (putBack store rest next).1
        else line.materialId :: (putBack store rest next).1, (putBack store rest next).2) := by
  rw [putBack, h]

/-- What a booking reports that was taken back, given the materials that could not be. -/
def failure (cause : StockError) : List String → BookingError
  | [] => .rolledBack cause
  | materials => .rollbackIncomplete cause materials

/-- Compensation is putting back, and reporting the cause with what is missing. -/
theorem compensate_eq (store : StockStore σ) (cause : StockError) (taken : List BookedLine)
    (s : σ) :
    compensate store cause taken s =
      (failure cause (putBack store taken s).1, (putBack store taken s).2) := by
  rw [compensate]
  rcases putBack store taken s with ⟨_ | _, next⟩ <;> rfl

section Commit

variable {review : Review} {catalog : Catalog} {request : BookingRequest} {s next last : σ}
  {taken : List BookedLine} {cause : StockError}

/-- A review that cannot be committed is refused without a call. -/
theorem commit_refused (store : StockStore σ) (catalog : Catalog) (request : BookingRequest)
    (s : σ) (hcommit : review.canCommit = false) :
    commit store review catalog request s =
      (.error (if review.warnings.isEmpty then .empty else .blocked review.warnings), s) := by
  rw [commit]
  by_cases hwarnings : review.warnings.isEmpty = true
  · have hlines : review.lines.isEmpty = true := by
      simpa [Review.canCommit, hwarnings] using hcommit
    simp [hwarnings, hlines]
  · simp [hwarnings]

/-- A review that can be committed has lines and no warnings. -/
theorem ready_of_canCommit (hcommit : review.canCommit = true) :
    review.warnings.isEmpty = true ∧ review.lines.isEmpty = false := by
  simpa [Review.canCommit] using hcommit

/-- A line cannot be taken. -/
theorem commit_untaken (hcommit : review.canCommit = true)
    (htake : takeOut store (BookingRecord.snapshot request review catalog).lines [] s =
      (some cause, taken, next)) :
    commit store review catalog request s =
      (.error (failure cause (putBack store taken next).1), (putBack store taken next).2) := by
  obtain ⟨hwarnings, hlines⟩ := ready_of_canCommit hcommit
  simp [commit, hwarnings, hlines, htake, compensate_eq]

/-- Every line is taken, but the booking cannot be recorded. -/
theorem commit_unrecorded (hcommit : review.canCommit = true)
    (htake : takeOut store (BookingRecord.snapshot request review catalog).lines [] s =
      (none, taken, next))
    (hrecord : store.recordBooking (.snapshot request review catalog) next =
      (.error cause, last)) :
    commit store review catalog request s =
      (.error (failure cause (putBack store taken last).1), (putBack store taken last).2) := by
  obtain ⟨hwarnings, hlines⟩ := ready_of_canCommit hcommit
  simp [commit, hwarnings, hlines, htake, hrecord, compensate_eq]

/-- Every line is taken, and the booking is recorded. -/
theorem commit_booked (hcommit : review.canCommit = true)
    (htake : takeOut store (BookingRecord.snapshot request review catalog).lines [] s =
      (none, taken, next))
    (hrecord : store.recordBooking (.snapshot request review catalog) next = (.ok (), last)) :
    commit store review catalog request s =
      (.ok ⟨.snapshot request review catalog,
        (BookingRecord.snapshot request review catalog).lines.length⟩, last) := by
  obtain ⟨hwarnings, hlines⟩ := ready_of_canCommit hcommit
  simp [commit, hwarnings, hlines, htake, hrecord]

end Commit

/-! ### A booking does not depend on what a store remembers -/

section Extends

variable {big : StockStore τ} {small : StockStore σ} {forget : τ → σ}

/-- With something added to the store, the same lines are taken. -/
theorem takeOut_extends (h : big.Extends small forget) (lines taken : List BookedLine) (t : τ) :
    takeOut small lines taken (forget t) =
      ((takeOut big lines taken t).1, (takeOut big lines taken t).2.1,
        forget (takeOut big lines taken t).2.2) := by
  induction lines generalizing taken t with
  | nil => rfl
  | cons line rest ih =>
      rw [takeOut, takeOut, h.applyDelta]
      rcases big.applyDelta line.materialId (-line.quantity) t with ⟨_ | _, next⟩
      · rfl
      · exact ih (line :: taken) next

theorem putBack_extends (h : big.Extends small forget) (lines : List BookedLine) (t : τ) :
    putBack small lines (forget t) =
      ((putBack big lines t).1, forget (putBack big lines t).2) := by
  induction lines generalizing t with
  | nil => rfl
  | cons line rest ih => simp only [putBack, h.applyDelta, ih]

/-- A booking out of a store that remembers more is the same booking. -/
theorem commit_extends (h : big.Extends small forget) (review : Review) (catalog : Catalog)
    (request : BookingRequest) (t : τ) :
    commit small review catalog request (forget t) =
      ((commit big review catalog request t).1,
        forget (commit big review catalog request t).2) := by
  cases hcommit : review.canCommit with
  | false => rw [commit_refused _ _ _ _ hcommit, commit_refused _ _ _ _ hcommit]
  | true =>
      have hsmall := takeOut_extends h (BookingRecord.snapshot request review catalog).lines [] t
      rcases hbig : takeOut big (BookingRecord.snapshot request review catalog).lines [] t with
        ⟨_ | cause, taken, next⟩
      · rw [hbig] at hsmall
        have hrecord := h.recordBooking (.snapshot request review catalog) next
        rcases hlast : big.recordBooking (.snapshot request review catalog) next with
          ⟨cause | _, last⟩
        · rw [hlast] at hrecord
          rw [commit_unrecorded hcommit hbig hlast, commit_unrecorded hcommit hsmall hrecord,
            putBack_extends h]
        · rw [hlast] at hrecord
          rw [commit_booked hcommit hbig hlast, commit_booked hcommit hsmall hrecord]
      · rw [hbig] at hsmall
        rw [commit_untaken hcommit hbig, commit_untaken hcommit hsmall, putBack_extends h]

end Extends

/-! ### The ways a booking can go -/

/-- Taking lines out of stock, with success. -/
def takes (lines : List BookedLine) : List Exchange :=
  lines.map fun l => (.delta l.materialId (-l.quantity), .ok ())

/-- Putting lines back into stock, with the answers. -/
def puts (back : List (BookedLine × Except StockError Unit)) : List Exchange :=
  back.map fun entry => (.delta entry.1.materialId entry.1.quantity, entry.2)

/-- The materials of the lines that could not be put back, in the order of the calls. -/
def unreverted (back : List (BookedLine × Except StockError Unit)) : List String :=
  (back.filter fun entry => !entry.2.isOk).map fun entry => entry.1.materialId

/-- **The ways a booking can go.**  The calls, in order and complete, and the outcome. -/
inductive Saga (record : BookingRecord) :
    List Exchange → Except BookingError BookingReceipt → Prop
  /-- Every line is taken, and the booking is recorded. -/
  | booked :
      Saga record (takes record.lines ++ [(.booking record, .ok ())])
        (.ok ⟨record, record.lines.length⟩)
  /-- A line cannot be taken; those before it are put back, the last one first. -/
  | refusedLine {taken rest : List BookedLine} {line : BookedLine} {cause : StockError}
      {back : List (BookedLine × Except StockError Unit)}
      (hlines : record.lines = taken ++ line :: rest)
      (hback : back.map Prod.fst = taken.reverse) :
      Saga record
        (takes taken ++ [(.delta line.materialId (-line.quantity), .error cause)] ++ puts back)
        (.error (failure cause (unreverted back)))
  /-- The booking cannot be recorded; all lines are put back, the last one first. -/
  | refusedRecord {cause : StockError} {back : List (BookedLine × Except StockError Unit)}
      (hback : back.map Prod.fst = record.lines.reverse) :
      Saga record (takes record.lines ++ [(.booking record, .error cause)] ++ puts back)
        (.error (failure cause (unreverted back)))

/-- Lines are taken in order until one cannot be taken. -/
theorem takeOut_witnessed (store : StockStore σ) (lines taken : List BookedLine) (s : σ)
    (calls : List Exchange) :
    (∃ s', takeOut store.witnessed lines taken (s, calls) =
      (none, lines.reverse ++ taken, s', calls ++ takes lines)) ∨
    (∃ done line rest cause s', lines = done ++ line :: rest ∧
      takeOut store.witnessed lines taken (s, calls) =
        (some cause, done.reverse ++ taken, s',
          calls ++ takes done ++ [(.delta line.materialId (-line.quantity), .error cause)])) := by
  induction lines generalizing taken s calls with
  | nil => exact Or.inl ⟨s, by simp [takeOut, takes]⟩
  | cons line rest ih =>
      rcases hcall : store.applyDelta line.materialId (-line.quantity) s with ⟨cause | _, next⟩
      · right
        refine ⟨[], line, rest, cause, next, rfl, ?_⟩
        rw [takeOut_cons_error (StockStore.witnessed_applyDelta hcall calls)]
        simp [takes]
      · rw [takeOut_cons_ok (StockStore.witnessed_applyDelta hcall calls)]
        rcases ih (line :: taken) next
            (calls ++ [(.delta line.materialId (-line.quantity), .ok ())]) with
          ⟨s', hrun⟩ | ⟨done, refused, behind, cause, s', hrest, hrun⟩
        · left
          refine ⟨s', hrun.trans ?_⟩
          simp [takes]
        · right
          refine ⟨line :: done, refused, behind, cause, s', by rw [hrest]; rfl, hrun.trans ?_⟩
          simp [takes]

/-- Every line is put back once, in the order given and whatever the answers. -/
theorem putBack_witnessed (store : StockStore σ) (lines : List BookedLine) (s : σ)
    (calls : List Exchange) :
    ∃ back s', back.map Prod.fst = lines ∧
      putBack store.witnessed lines (s, calls) = (unreverted back, s', calls ++ puts back) := by
  induction lines generalizing s calls with
  | nil => exact ⟨[], s, rfl, by simp [putBack, puts, unreverted]⟩
  | cons line rest ih =>
      rcases hcall : store.applyDelta line.materialId line.quantity s with ⟨answer, next⟩
      obtain ⟨back, s', hback, hrun⟩ :=
        ih next (calls ++ [(.delta line.materialId line.quantity, answer)])
      refine ⟨(line, answer) :: back, s', by rw [List.map_cons, hback], ?_⟩
      rw [putBack_cons (StockStore.witnessed_applyDelta hcall calls), hrun]
      cases answer <;> simp [unreverted, puts, Except.isOk, Except.toBool]

/-- A booking that is not refused at once is a saga. -/
theorem commit_witnessed (store : StockStore σ) {review : Review} (catalog : Catalog)
    (request : BookingRequest) (s : σ) (hcommit : review.canCommit = true) :
    ∃ outcome s' calls,
      commit store.witnessed review catalog request (s, []) = (outcome, s', calls) ∧
      Saga (.snapshot request review catalog) calls outcome := by
  rcases takeOut_witnessed store (BookingRecord.snapshot request review catalog).lines [] s [] with
    ⟨next, htake⟩ | ⟨done, line, rest, cause, next, hlines, htake⟩
  · rcases hcall : store.recordBooking (.snapshot request review catalog) next with
      ⟨cause | _, last⟩
    · have hrecord := StockStore.witnessed_recordBooking hcall
        (takes (BookingRecord.snapshot request review catalog).lines)
      obtain ⟨back, s', hback, hundo⟩ := putBack_witnessed store
        (BookingRecord.snapshot request review catalog).lines.reverse last
        (takes (BookingRecord.snapshot request review catalog).lines ++
          [(.booking (.snapshot request review catalog), .error cause)])
      rw [List.append_nil, List.nil_append] at htake
      refine ⟨.error (failure cause (unreverted back)), s', _, ?_, .refusedRecord hback⟩
      rw [commit_unrecorded hcommit htake hrecord, hundo]
    · have hrecord := StockStore.witnessed_recordBooking hcall
        (takes (BookingRecord.snapshot request review catalog).lines)
      exact ⟨_, last, _, commit_booked hcommit htake hrecord, .booked⟩
  · obtain ⟨back, s', hback, hundo⟩ := putBack_witnessed store done.reverse next
      (takes done ++ [(.delta line.materialId (-line.quantity), .error cause)])
    rw [List.append_nil, List.nil_append] at htake
    refine ⟨.error (failure cause (unreverted back)), s', _, ?_, .refusedLine hlines hback⟩
    rw [commit_untaken hcommit htake, hundo]

/-- **A booking is a compensated saga**, whatever the store answers.  A review that cannot be
committed is refused without a call and without being counted; any other booking goes one of the
ways of a saga, with these calls and no others, for the record of all lines of the review. -/
theorem commit_is_saga (store : StockStore σ) (review : Review) (catalog : Catalog)
    (request : BookingRequest) (s : σ) (c : Counters) :
    ∃ outcome s' calls,
      commit store.witnessed review catalog request (s, []) = (outcome, s', calls) ∧
      commit store review catalog request s = (outcome, s') ∧
      if review.canCommit then
        ∃ record, BookingRecord.Records request review catalog record ∧
          Saga record calls outcome
      else
        calls = [] ∧ s' = s ∧ counted outcome c = c ∧
          outcome =
            .error (if review.warnings.isEmpty then .empty else .blocked review.warnings) := by
  cases hcommit : review.canCommit with
  | true =>
      obtain ⟨outcome, s', calls, hrun, hsaga⟩ := commit_witnessed store catalog request s hcommit
      have hplain := commit_extends store.witnessed_extends review catalog request (s, [])
      rw [hrun] at hplain
      exact ⟨outcome, s', calls, hrun, hplain, _, BookingRecord.records_snapshot, hsaga⟩
  | false =>
      have hrun := commit_refused store.witnessed catalog request (s, []) hcommit
      refine ⟨_, s, [], hrun, commit_refused store catalog request s hcommit, ?_⟩
      refine ⟨rfl, rfl, ?_, rfl⟩
      cases review.warnings.isEmpty <;> rfl

/-- Two panels, three rails and a clamp. -/
def roofReview : Review where
  lines :=
    [{ materialId := "PANEL", quantity := 2.0 }, { materialId := "RAIL", quantity := 3.0 },
      { materialId := "CLAMP", quantity := 1.0 }]

/-- The panel has a price. -/
def roofCatalog : Catalog :=
  .ofList [{ id := "PANEL", price := some 99.5 }]

/-- The review as it is recorded. -/
def roofRecord : BookingRecord where
  customer := "Ada"
  project := "Roof"
  lines := [⟨"PANEL", "", 2.0, some 99.5⟩, ⟨"RAIL", "", 3.0, none⟩, ⟨"CLAMP", "", 1.0, none⟩]

/-- For whom the roof is booked. -/
def roofRequest : BookingRequest where
  customer := "Ada"
  project := "Roof"

/-- A room with enough of everything. -/
def roofRoom : StockRoom :=
  .ofStock [("PANEL", 9.0), ("RAIL", 9.0), ("CLAMP", 9.0)]

/-- A room without clamps. -/
def clamplessRoom : StockRoom :=
  .ofStock [("PANEL", 9.0), ("RAIL", 9.0)]

/-- A store whose fourth call fails. -/
def offlineStore : StockStore (StockRoom × Nat) :=
  StockRoom.store.interrupted fun n => if n = 3 then some "offline" else none

/-- What is asked of a room with enough of everything. -/
def roofCalls : List Exchange :=
  [(.delta "PANEL" (-2.0), .ok ()), (.delta "RAIL" (-3.0), .ok ()),
    (.delta "CLAMP" (-1.0), .ok ()), (.booking roofRecord, .ok ())]

/-- Without clamps, two lines are taken and put back. -/
def clamplessCalls : List Exchange :=
  [(.delta "PANEL" (-2.0), .ok ()), (.delta "RAIL" (-3.0), .ok ()),
    (.delta "CLAMP" (-1.0), .error (.unknownMaterial "CLAMP")),
    (.delta "RAIL" 3.0, .error (.unavailable "offline")), (.delta "PANEL" 2.0, .ok ())]

/-- One booking takes all three lines.  Another one finds no clamp, and then the rails cannot be put
back, because the fourth call does not reach the store, but the panels are. -/
theorem commit_is_saga_roof :
    ((∃ room, commit StockRoom.store.witnessed roofReview roofCatalog roofRequest (roofRoom, []) =
        (.ok ⟨roofRecord, 3⟩, room, roofCalls)) ∧
      Saga roofRecord roofCalls (.ok ⟨roofRecord, 3⟩)) ∧
    (∃ s, commit offlineStore.witnessed roofReview roofCatalog roofRequest
        ((clamplessRoom, 0), []) =
        (.error (.rollbackIncomplete (.unknownMaterial "CLAMP") ["RAIL"]), s, clamplessCalls)) ∧
      Saga roofRecord clamplessCalls
        (.error (.rollbackIncomplete (.unknownMaterial "CLAMP") ["RAIL"])) := by
  have hrecord : BookingRecord.snapshot roofRequest roofReview roofCatalog = roofRecord := rfl
  constructor
  · obtain ⟨outcome, room, calls, hrun, -, record, hof, hsaga⟩ :=
      commit_is_saga StockRoom.store roofReview roofCatalog roofRequest roofRoom {}
    rw [hof.eq_snapshot, hrecord] at hsaga
    have houtcome : .ok ⟨roofRecord, 3⟩ = outcome := congrArg Prod.fst hrun
    have hcalls : roofCalls = calls := congrArg (fun run => run.2.2) hrun
    rw [houtcome, hcalls]
    exact ⟨⟨room, hrun⟩, hsaga⟩
  · obtain ⟨outcome, s, calls, hrun, -, record, hof, hsaga⟩ :=
      commit_is_saga offlineStore roofReview roofCatalog roofRequest (clamplessRoom, 0) {}
    rw [hof.eq_snapshot, hrecord] at hsaga
    have houtcome : .error (.rollbackIncomplete (.unknownMaterial "CLAMP") ["RAIL"]) = outcome :=
      congrArg Prod.fst hrun
    have hcalls : clamplessCalls = calls := congrArg (fun run => run.2.2) hrun
    rw [houtcome, hcalls]
    exact ⟨⟨s, hrun⟩, hsaga⟩

end Booking

end SolarBill
