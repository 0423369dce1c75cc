import SolarBill.Booking.Store
import SolarBill.Data.Reader

/-!
# Bill records

Field names and forms of lines, bills and booking records.
-/

namespace SolarBill

namespace Line

/-- The line as a tree. -/
def encode (l : Line) : Datum :=
  .record
    [("material_id", .text l.materialId), ("quantity", .real l.quantity),
      ("description", .text l.description), ("category", .text l.category),
      ("is_configured", .flag l.isConfigured), ("is_manual", .flag l.isManual)]

/-- Read a line. -/
def decode {ν : Type} (r : Reader ν) (v : ν) : Option Line := do
  let fields ← r.fields?
    ["material_id", "quantity", "description", "category", "is_configured", "is_manual"] v
  let materialId ← Reader.required fields "material_id" r.text?
  let quantity ← Reader.required fields "quantity" r.real?
  let description ← Reader.withDefault fields "description" "" r.text?
  let category ← Reader.withDefault fields "category" "" r.text?
  let isConfigured ← Reader.withDefault fields "is_configured" false r.flag?
  let isManual ← Reader.withDefault fields "is_manual" false r.flag?
  return { materialId, quantity, description, category, isConfigured, isManual }

end Line

namespace Bill

/-- The bill as a tree. -/
def encode (b : Bill) : Datum :=
  .record [("lines", .listOf Line.encode b.lines), ("warnings", .listOf .text b.warnings)]

/-- Read a bill. -/
def decode {ν : Type} (r : Reader ν) (v : ν) : Option Bill := do
  let fields ← r.fields? ["lines", "warnings"] v
  let lines ← Reader.required fields "lines" (r.listOf (Line.decode r))
  let warnings ← Reader.required fields "warnings" (r.listOf r.text?)
  return { lines, warnings }

end Bill

namespace BookingRecord

/-- The booking as a tree. -/
def encode (b : BookingRecord) : Datum :=
  .record
    [("customer", .text b.customer), ("project", .text b.project),
      ("lines", .listOf
        (fun l => .record
          [("material_id", .text l.materialId), ("description", .text l.description),
            ("quantity", .real l.quantity), ("unit_price", .option .real l.unitPrice)])
        b.lines)]

end BookingRecord

end SolarBill
