import SolarBill.Text.Blank
import SolarBill.Number.Double

/-!
# The material catalogue

A catalogue is a list of material records with distinct identifiers.  A record whose identifier is
seen again replaces the earlier record and takes its place, so the order is that of first
appearance.  Looking a material up never fails: an unknown identifier has no record.

* `ids_insert` — inserting keeps the identifiers, and appends the new one if there is one;
* `Catalog.distinct` — identifiers stay distinct, whatever is inserted.
-/

namespace SolarBill

open Text

/-- Value of an attribute in a data sheet: a yes/no flag, a number or free text. -/
inductive AttributeValue where
  | flag (value : Bool)
  | number (value : Float)
  | text (value : String)
  deriving BEq, DecidableEq, Repr

/-- No usable content: blank text or not-a-number. -/
def AttributeValue.isEmpty : AttributeValue → Bool
  | .flag _ => false
  | .number x => x.isNaN
  | .text s => isBlank s

/-- A material record. -/
structure Material where
  id : String
  description : String := ""
  category : String := ""
  /-- Unit price when the catalogue was taken. -/
  price : Option Float := none
  /-- Attributes by identifier, each identifier once. -/
  attributes : List (String × AttributeValue) := []
  deriving BEq, DecidableEq, Repr

/-- The catalogue: records in order of first appearance, no identifier twice. -/
structure Catalog where
  materials : List Material
  distinct : (materials.map Material.id).Nodup
  deriving DecidableEq

namespace Catalog

instance : BEq Catalog := ⟨fun a b => a.materials == b.materials⟩

/-- The catalogue without materials. -/
def empty : Catalog := ⟨[], List.nodup_nil⟩

instance : Inhabited Catalog := ⟨empty⟩

/-- Put a record in the place of the one with its identifier, or at the end. -/
def place (m : Material) : List Material → List Material
  | [] => [m]
  | x :: rest => if x.id = m.id then m :: rest else x :: place m rest

/-- Placing a record keeps the identifiers and appends its own when it is new. -/
theorem map_id_place (m : Material) (ms : List Material) :
    (place m ms).map Material.id =
      if m.id ∈ ms.map Material.id then ms.map Material.id else ms.map Material.id ++ [m.id] := by
  induction ms with
  | nil => simp [place]
  | cons x rest ih =>
    by_cases h : x.id = m.id
    · simp [place, h]
    · have h' : ¬ m.id = x.id := fun e => h e.symm
      simp only [place, h, if_false, List.map_cons, List.mem_cons, h', false_or, ih]
      split <;> simp

/-- Putting a record in its place keeps the identifiers distinct. -/
theorem nodup_place (m : Material) {ms : List Material} (h : (ms.map Material.id).Nodup) :
    ((place m ms).map Material.id).Nodup := by
  rw [map_id_place]
  split
  · exact h
  · next hm =>
    rw [List.nodup_append]
    refine ⟨h, by simp, ?_⟩
    intro a ha b hb
    rw [List.mem_singleton] at hb
    subst hb
    exact fun e => hm (e ▸ ha)

/-- Insert a record, or replace the one with its identifier. -/
def insert (c : Catalog) (m : Material) : Catalog :=
  ⟨place m c.materials, nodup_place m c.distinct⟩

/-- Insert a list of records one after the other. -/
def ofList (ms : List Material) : Catalog :=
  ms.foldl insert empty

/-- The records in catalogue order. -/
def toList (c : Catalog) : List Material :=
  c.materials

/-- The identifiers in catalogue order. -/
def ids (c : Catalog) : List String :=
  c.materials.map Material.id

/-- Inserting keeps the identifiers and appends the new one if there is one. -/
theorem ids_insert (c : Catalog) (m : Material) :
    (c.insert m).ids = if m.id ∈ c.ids then c.ids else c.ids ++ [m.id] :=
  map_id_place m c.materials

/-- The record of an identifier. -/
def get? (c : Catalog) (id : String) : Option Material :=
  c.materials.find? fun m => m.id == id

/-- The record of an optional identifier; a blank identifier names nothing. -/
def find? (c : Catalog) (id : Option String) : Option Material :=
  (nonBlank? id).bind c.get?

/-- Is there a record with this identifier? -/
def contains (c : Catalog) (id : String) : Bool :=
  c.materials.any fun m => m.id == id

/-- Number of records. -/
def size (c : Catalog) : Nat :=
  c.materials.length

/-- The records of one category, in catalogue order. -/
def ofCategory (c : Catalog) (category : String) : List Material :=
  c.materials.filter fun m => m.category == category

end Catalog

end SolarBill
