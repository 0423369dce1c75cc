import SolarBill.Review
import SolarBill.Number.Shortest

/-!
# Stock stores

Booking talks to a stock store through two calls: change the level of one material, and record a
booking.  Either call may fail, and there are no transactions.  A store is given by what the calls
do to its state, so any pattern of answers is a store.

Two stores are built from another one: `logged` writes down every call, and `interrupted` lets
chosen calls fail before they reach the store.
-/

namespace SolarBill

/-- Failure of a stock store. -/
inductive StockError where
  | unknownMaterial (id : String)
  | insufficient (id : String) (available requested : Float)
  | unavailable (reason : String)
  deriving DecidableEq, Repr

/-- The failure in words. -/
def StockError.message : StockError → String
  | .unknownMaterial id => "Unknown material in stock: " ++ id
  | .insufficient id available requested =>
    "Insufficient stock for " ++ id ++ ": " ++ Double.plain available ++ " available, " ++
      Double.plain requested ++ " requested"
  | .unavailable reason => "Stock store unavailable: " ++ reason

/-- A booked line, with the catalogue price at the time. -/
structure BookedLine where
  materialId : String
  description : String
  quantity : Float
  unitPrice : Option Float
  deriving DecidableEq, Repr

/-- Who books for what. -/
structure BookingRequest where
  customer : String
  project : String
  deriving DecidableEq, Repr

/-- A booking as it is recorded. -/
structure BookingRecord where
  customer : String
  project : String
  lines : List BookedLine
  deriving DecidableEq, Repr

/-- Snapshot of a review with the catalogue prices. -/
def BookingRecord.snapshot (request : BookingRequest) (review : Review) (catalog : Catalog) :
    BookingRecord where
  customer := request.customer
  project := request.project
  lines := review.lines.map fun l =>
    { materialId := l.materialId
      description := l.description
      quantity := l.quantity
      unitPrice := (catalog.get? l.materialId).bind Material.price }

/-- A stock store with states `σ`. -/
structure StockStore (σ : Type) where
  /-- Change the level of a material; a negative change books out. -/
  applyDelta : String → Float → σ → Except StockError Unit × σ
  /-- Record a booking. -/
  recordBooking : BookingRecord → σ → Except StockError Unit × σ

/-- A call of a stock store and whether it succeeded. -/
inductive StockCall where
  | delta (id : String) (change : Float) (ok : Bool)
  | booking (ok : Bool)
  deriving DecidableEq, Repr

namespace StockStore

variable {σ : Type}

/-- Did a call succeed? -/
def succeeded (answer : Except StockError Unit) : Bool :=
  answer.isOk

/-- The store that also writes down its calls, the first call first. -/
def logged (store : StockStore σ) : StockStore (σ × List StockCall) where
  applyDelta id change s :=
    let (answer, next) := store.applyDelta id change s.1
    (answer, next, s.2 ++ [.delta id change (succeeded answer)])
  recordBooking record s :=
    let (answer, next) := store.recordBooking record s.1
    (answer, next, s.2 ++ [.booking (succeeded answer)])

/-- The store whose `n`-th call, counted from zero, fails for the reason `faults n`. -/
def interrupted (faults : Nat → Option String) (store : StockStore σ) : StockStore (σ × Nat) where
  applyDelta id change s :=
    match faults s.2 with
    | some reason => (.error (.unavailable reason), s.1, s.2 + 1)
    | none =>
      let (answer, next) := store.applyDelta id change s.1
      (answer, next, s.2 + 1)
  recordBooking record s :=
    match faults s.2 with
    | some reason => (.error (.unavailable reason), s.1, s.2 + 1)
    | none =>
      let (answer, next) := store.recordBooking record s.1
      (answer, next, s.2 + 1)

end StockStore

end SolarBill
