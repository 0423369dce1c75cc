import SolarBill.Booking.Store

/-!
# The stock room

A store that keeps its levels in memory and refuses to let a level fall below zero.
-/

namespace SolarBill

/-- Levels by material, each material once, and the bookings recorded so far. -/
structure StockRoom where
  levels : List (String × Float) := []
  bookings : List BookingRecord := []
  deriving DecidableEq, Repr, Inhabited

namespace StockRoom

/-- Set the level of a material, in its place or at the end. -/
def setLevel (id : String) (level : Float) : List (String × Float) → List (String × Float)
  | [] => [(id, level)]
  | entry :: rest => if entry.1 == id then (id, level) :: rest else entry :: setLevel id level rest

/-- A room with the given stock; of two levels for one material the later one counts. -/
def ofStock (stock : List (String × Float)) : StockRoom where
  levels := stock.foldl (fun levels entry => setLevel entry.1 entry.2 levels) []

/-- Level of a material; none when it is not stocked. -/
def level? (room : StockRoom) (id : String) : Option Float :=
  room.levels.lookup id

/-- Change a level, unless the material is not stocked or the level would fall below zero. -/
def applyDelta (id : String) (change : Float) (room : StockRoom) :
    Except StockError Unit × StockRoom :=
  match room.level? id with
  | none => (.error (.unknownMaterial id), room)
  | some level =>
    if level + change < 0.0 then (.error (.insufficient id level (-change)), room)
    else (.ok (), { room with levels := setLevel id (level + change) room.levels })

/-- Record a booking; this never fails. -/
def recordBooking (record : BookingRecord) (room : StockRoom) :
    Except StockError Unit × StockRoom :=
  (.ok (), { room with bookings := room.bookings ++ [record] })

/-- The stock room as a stock store. -/
def store : StockStore StockRoom where
  applyDelta := applyDelta
  recordBooking := recordBooking

end StockRoom

end SolarBill
