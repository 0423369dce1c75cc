import SolarBill.Data.Reader

/-!
# Catalogue records

Field names and forms of materials and catalogues.  A catalogue is a list of materials.
-/

namespace SolarBill

namespace AttributeValue

/-- The value as a tree. -/
def encode : AttributeValue → Datum
  | .flag b => .flag b
  | .number x => .real x
  | .text s => .text s

end AttributeValue

namespace Material

/-- The record as a tree. -/
def encode (m : Material) : Datum :=
  .record
    [("id", .text m.id), ("description", .text m.description), ("category", .text m.category),
      ("price", .option .real m.price),
      ("specs", .record (m.attributes.map fun a => (a.1, a.2.encode)))]

/-- Read a record. -/
def decode {ν : Type} (r : Reader ν) (v : ν) : Option Material := do
  let fields ← r.fields? ["id", "description", "category", "price", "specs"] v
  let id ← Reader.required fields "id" r.text?
  let description ← Reader.withDefault fields "description" "" r.text?
  let category ← Reader.withDefault fields "category" "" r.text?
  let price ← Reader.withDefault fields "price" none (r.optional r.real?)
  let attributes ← Reader.withDefault fields "specs" [] fun v => do
    (← r.entries? v).mapM fun e => (r.scalar? e.2).map (e.1, ·)
  return { id, description, category, price, attributes }

end Material

namespace Catalog

/-- The catalogue as a tree. -/
def encode (c : Catalog) : Datum :=
  .listOf Material.encode c.toList

/-- Read a catalogue. -/
def decode {ν : Type} (r : Reader ν) (v : ν) : Option Catalog :=
  (r.listOf (Material.decode r) v).map ofList

end Catalog

end SolarBill
