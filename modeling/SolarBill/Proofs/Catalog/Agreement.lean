import SolarBill.Bill
import SolarBill.Catalog.Attribute
import Mathlib

/-!
# Catalogues that agree on a material

Two catalogues agree on a material if neither knows it, or if both have a record of it and the two
records say the same up to the price.  Whatever is looked up of the material is then the same:
numbers and flags of its data sheet, and its description and category in a line.

* `numberOf_agree`, `flagOf?_agree`, `Line.derived_agree` — what agreeing catalogues say;
* `Catalog.get?_eq_some_iff` — looking up finds the record that is listed, wherever it stands;
* `Catalog.agreeOn_of_perm` — catalogues that differ by order, prices and further records.
-/

namespace SolarBill

/-! ### Records -/

namespace Material

/-- The records say the same, except for the price.  The order of the attributes means nothing. -/
structure SameButPrice (m n : Material) : Prop where
  description : m.description = n.description
  category : m.category = n.category
  attributes : ∀ name, m.attributes.lookup name = n.attributes.lookup name

/-- The record with another price, or without one. -/
def repriced (price : Material → Option Float) (m : Material) : Material :=
  { m with price := price m }

/-- Another price changes nothing but the price. -/
theorem sameButPrice_repriced (price : Material → Option Float) (m : Material) :
    m.SameButPrice (m.repriced price) :=
  ⟨rfl, rfl, fun _ => rfl⟩

/-- Attributes do not depend on the price. -/
theorem SameButPrice.attribute? {m n : Material} (h : m.SameButPrice n) (names : AttributeNames) :
    m.attribute? names = n.attribute? names := by
  simp only [Material.attribute?, h.attributes]

end Material

variable {a b : Option Material}

/-- The attribute of a record that may be missing. -/
theorem bind_attribute?_agree (h : Option.Rel Material.SameButPrice a b) (names : AttributeNames) :
    (a.bind fun m => m.attribute? names) = b.bind fun m => m.attribute? names := by
  cases h with
  | some hsame => exact hsame.attribute? names
  | none => rfl

/-- A number that is read from an attribute does not depend on the price either. -/
theorem numberOf_agree (h : Option.Rel Material.SameButPrice a b) (names : AttributeNames) :
    numberOf a names = numberOf b names := by
  rw [numberOf, numberOf, bind_attribute?_agree h]

theorem flagOf?_agree (h : Option.Rel Material.SameButPrice a b) (names : AttributeNames) :
    flagOf? a names = flagOf? b names := by
  rw [flagOf?, flagOf?, bind_attribute?_agree h]

/-- A line describes the material in the same words, and puts it into the same category. -/
theorem describe_agree (h : Option.Rel Material.SameButPrice a b) (id : String) :
    Line.describe id a = Line.describe id b ∧
      a.map Material.category = b.map Material.category := by
  cases h with
  | some hsame =>
      rw [Line.describe, Line.describe, hsame.description, Option.map_some, Option.map_some,
        hsame.category]
      exact ⟨rfl, rfl⟩
  | none => exact ⟨rfl, rfl⟩

/-! ### Catalogues -/

namespace Catalog

/-- Neither catalogue has a record of the material, or both have, and the records say the same
except for the price. -/
def AgreeOn (c d : Catalog) (id : String) : Prop :=
  Option.Rel Material.SameButPrice (c.get? id) (d.get? id)

variable {c d : Catalog} {id : String}

/-- An optional material, if the catalogues agree on the one that it names. -/
theorem find?_agree {field : Option String} (h : ∀ id ∈ field, c.AgreeOn d id) :
    Option.Rel Material.SameButPrice (c.find? field) (d.find? field) := by
  rw [find?, find?]
  cases hnamed : Text.nonBlank? field with
  | none => exact .none
  | some id => exact h id (Text.nonBlank?_eq_some_iff.mp hnamed).1

/-- A record is found wherever it stands. -/
theorem get?_eq_some_iff {m : Material} : c.get? id = some m ↔ m ∈ c.toList ∧ m.id = id := by
  constructor
  · intro h
    exact ⟨List.mem_of_find?_eq_some h, by simpa using List.find?_some h⟩
  · rintro ⟨hmem, rfl⟩
    obtain ⟨n, hn⟩ : ∃ n, c.get? m.id = some n :=
      Option.isSome_iff_exists.mp (List.find?_isSome.mpr ⟨m, hmem, beq_self_eq_true _⟩)
    have hid : n.id = m.id := by simpa using List.find?_some hn
    rw [hn, List.inj_on_of_nodup_map c.distinct (List.mem_of_find?_eq_some hn) hmem hid]

/-- A catalogue has nothing under an identifier that no record has. -/
theorem get?_eq_none_iff : c.get? id = none ↔ ∀ m ∈ c.toList, m.id ≠ id := by
  rw [get?, List.find?_eq_none]
  simp only [beq_iff_eq, toList, ne_eq]

/-- **Order, prices and further records** make no difference to the materials that are not among the
further records. -/
theorem agreeOn_of_perm {price : Material → Option Float} {further : List Material}
    (h : d.toList.Perm (c.toList.map (Material.repriced price) ++ further))
    (hid : ∀ m ∈ further, m.id ≠ id) : c.AgreeOn d id := by
  rw [AgreeOn]
  cases hc : c.get? id with
  | some m =>
      obtain ⟨hmem, hm⟩ := get?_eq_some_iff.mp hc
      have hlisted : m.repriced price ∈ d.toList :=
        h.mem_iff.mpr (List.mem_append_left _ (List.mem_map_of_mem hmem))
      rw [get?_eq_some_iff.mpr ⟨hlisted, hm⟩]
      exact .some (m.sameButPrice_repriced price)
  | none =>
      have hd : d.get? id = none := by
        rw [get?_eq_none_iff] at hc ⊢
        intro n hn
        rcases List.mem_append.mp (h.mem_iff.mp hn) with hn | hn
        · obtain ⟨m, hm, rfl⟩ := List.mem_map.mp hn
          exact hc m hm
        · exact hid n hn
      rw [hd]
      exact .none

end Catalog

/-- The line of a material says what the catalogue says of it. -/
theorem Line.derived_agree {c d : Catalog} {id : String} (h : c.AgreeOn d id) (quantity : Float) :
    Line.derived id quantity c = Line.derived id quantity d := by
  obtain ⟨hdescription, hcategory⟩ := describe_agree h id
  rw [Line.derived, Line.derived, hdescription, hcategory]

end SolarBill
