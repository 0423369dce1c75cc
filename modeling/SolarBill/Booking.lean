import SolarBill.Booking.Store
import SolarBill.Counters

/-!
# Booking a review

A booking takes every line out of stock, in order, and then records itself.  The store has no
transactions, so a failure is compensated: what was taken is put back in reverse order, going on
past failures, and the lines that could not be put back are named.  A review with warnings, or
without lines, is refused before the store is called at all.
-/

namespace SolarBill

/-- Why a booking did not go through. -/
inductive BookingError where
  | blocked (warnings : List String)
  | empty
  | rolledBack (cause : StockError)
  | rollbackIncomplete (cause : StockError) (unreverted : List String)
  deriving DecidableEq, Repr

/-- The reason in words. -/
def BookingError.message : BookingError → String
  | .blocked warnings =>
    "Booking blocked by " ++ toString warnings.length ++ " unresolved warning(s)"
  | .empty => "Nothing to book"
  | .rolledBack cause => "Booking failed and was rolled back: " ++ cause.message
  | .rollbackIncomplete cause unreverted =>
    "Booking failed (" ++ cause.message ++ "); stock could not be restored for " ++
      ", ".intercalate unreverted

/-- A booking that went through. -/
structure BookingReceipt where
  record : BookingRecord
  linesBooked : Nat
  deriving DecidableEq, Repr

namespace Booking

variable {σ : Type}

/-- Take lines out of stock until one fails.  `taken` holds the lines taken so far, the last one
first; the answer has the first failure, all lines taken and the state of the store. -/
def takeOut (store : StockStore σ) :
    List BookedLine → List BookedLine → σ → Option StockError × List BookedLine × σ
  | [], taken, s => (none, taken, s)
  | line :: rest, taken, s =>
    match store.applyDelta line.materialId (-line.quantity) s with
    | (.error e, s) => (some e, taken, s)
    | (.ok (), s) => takeOut store rest (line :: taken) s

/-- Put lines back into stock, going on past failures; the answer has the materials that could not
be put back. -/
def putBack (store : StockStore σ) : List BookedLine → σ → List String × σ
  | [], s => ([], s)
  | line :: rest, s =>
    let (answer, s) := store.applyDelta line.materialId line.quantity s
    let (unreverted, s) := putBack store rest s
    (if answer.isOk then unreverted else line.materialId :: unreverted, s)

/-- Put everything back after a failure. -/
def compensate (store : StockStore σ) (cause : StockError) (taken : List BookedLine) (s : σ) :
    BookingError × σ :=
  match putBack store taken s with
  | ([], s) => (.rolledBack cause, s)
  | (unreverted, s) => (.rollbackIncomplete cause unreverted, s)

/-- Book a review out of stock. -/
def commit (store : StockStore σ) (review : Review) (catalog : Catalog) (request : BookingRequest)
    (s : σ) : Except BookingError BookingReceipt × σ :=
  if !review.warnings.isEmpty then (.error (.blocked review.warnings), s)
  else if review.lines.isEmpty then (.error .empty, s)
  else
    let record := BookingRecord.snapshot request review catalog
    match takeOut store record.lines [] s with
    | (some cause, taken, s) =>
      let (error, s) := compensate store cause taken s
      (.error error, s)
    | (none, taken, s) =>
      match store.recordBooking record s with
      | (.error cause, s) =>
        let (error, s) := compensate store cause taken s
        (.error error, s)
      | (.ok (), s) => (.ok ⟨record, record.lines.length⟩, s)

/-- Count the outcome of a booking: one that went through or one that was taken back; a refused
booking is not counted. -/
def counted (outcome : Except BookingError BookingReceipt) (c : Counters) : Counters :=
  match outcome with
  | .ok _ => c.committed
  | .error (.rolledBack _) | .error (.rollbackIncomplete _ _) => c.rolledBack
  | .error (.blocked _) | .error .empty => c

end Booking

end SolarBill
