import SolarBill.Data.Bill
import SolarBill.Data.Coefficients
import SolarBill.Proofs.Data.Faithful

/-!
# Records are read back

Every record is read back as it was written, by any faithful reader: each decoder finds every field
of its encoder under the same name, and takes no field for a missing one.  A catalogue is written as
a list and read into a table; as its identifiers are distinct, no material takes another one's place
(`Catalog.ofList_toList`).

* `Plan.readsBack`, `Coefficients.readsBack`, `Catalog.readsBack`, `Bill.readsBack`.
-/

namespace SolarBill

open Reader

variable {ν : Type} {r : Reader ν} {Holds : Datum → ν → Prop}

/-! ### Plans -/

/-- A value of an enumeration is read back by its name. -/
theorem decodeChoice_readsBack {α : Type} (h : r.Faithful Holds) {values : List α}
    {name : α → String} (hall : ∀ a, a ∈ values)
    (hnodup : ((values.map name).map Text.lowerAscii).Nodup) :
    ReadsBack Holds (decodeChoice r values name) fun a => .text (name a) := by
  intro a v hv
  rw [decodeChoice, h.choice hnodup (List.mem_map_of_mem (hall a)) hv, Option.bind_some]
  have hinjective := List.inj_on_of_nodup_map hnodup.of_map
  cases hfind : values.find? fun b => name b == name a with
  | none =>
      rw [List.find?_eq_none] at hfind
      exact absurd (beq_iff_eq.mpr rfl) (hfind a (hall a))
  | some b =>
      have hname : name b = name a := by simpa using List.find?_some hfind
      rw [hinjective (List.mem_of_find?_eq_some hfind) (hall a) hname]

/-- A roof is read back by its name. -/
theorem Roof.readsBack (h : r.Faithful Holds) : ReadsBack Holds (Roof.decode r) Roof.encode := by
  have hall : ∀ x, x ∈ Roof.all := by
    intro x
    cases x <;> decide
  exact decodeChoice_readsBack h hall (by decide +kernel)

theorem Roof.readsBack_option (h : r.Faithful Holds) :
    ReadsBack Holds (r.optional (Roof.decode r)) (Datum.option Roof.encode) :=
  h.option (Roof.readsBack h) fun _ => Datum.noConfusion

namespace Selection

/-- Selections are read back. -/
theorem readsBack (h : r.Faithful Holds) : ReadsBack Holds (decode r) encode := by
  intro s v hv
  obtain ⟨es, hes, hfields⟩ := h.fields (by simp) hv ["material_id", "quantity"]
  have hid := hfields.required "material_id" h.text rfl
  have hquantity := hfields.required "quantity" h.count rfl
  simp only [decode, hes, hid, hquantity, Option.bind_eq_bind, Option.bind_some]
  rfl

/-- An optional selection in a field is read back. -/
theorem field_eq (h : r.Faithful Holds) {fs : List (String × Datum)} {es : List (String × ν)}
    (hfields : HoldFields Holds fs es) (name : String) {s : Option Selection}
    (hlookup : fs.lookup name = some (.option encode s)) : field r es name = some s :=
  hfields.withDefault name none (h.option (readsBack h) fun _ => Datum.noConfusion) hlookup

end Selection

namespace Layout

/-- A row of modules is read back as a count. -/
theorem row_readsBack (h : r.Faithful Holds) : ReadsBack Holds (decodeRow r) encodeRow := by
  intro n v hv
  obtain ⟨es, hes, hfields⟩ := h.fields (by simp) hv ["module_count"]
  have hcount := hfields.required "module_count" h.count rfl
  simp only [decodeRow, hes, hcount, Option.bind_eq_bind, Option.bind_some]

/-- Layouts are read back row by row. -/
theorem readsBack (h : r.Faithful Holds) : ReadsBack Holds (decode r) encode := by
  intro l v hv
  obtain ⟨es, hes, hfields⟩ := h.fields (by simp) hv ["portrait", "landscape"]
  have hrows := h.listOf (row_readsBack h)
  have hportrait := hfields.withDefault "portrait" [] hrows rfl
  have hlandscape := hfields.withDefault "landscape" [] hrows rfl
  simp only [decode, hes, hportrait, hlandscape, Option.bind_eq_bind, Option.bind_some]
  rfl

end Layout

namespace Mounting

/-- Mountings are read back. -/
theorem readsBack (h : r.Faithful Holds) : ReadsBack Holds (decode r) encode := by
  intro m v hv
  obtain ⟨es, hes, hfields⟩ := h.fields (by simp) hv
    ["system", "fastener", "end_clamp", "mid_clamp", "profile", "profile_connector"]
  have hsystem := hfields.optionalText h "system" rfl
  have hfastener := hfields.optionalText h "fastener" rfl
  have hend := hfields.optionalText h "end_clamp" rfl
  have hmid := hfields.optionalText h "mid_clamp" rfl
  have hprofile := hfields.optionalText h "profile" rfl
  have hconnector := hfields.optionalText h "profile_connector" rfl
  simp only [decode, hes, hsystem, hfastener, hend, hmid, hprofile, hconnector,
    Option.bind_eq_bind, Option.bind_some]
  rfl

end Mounting

/-- Strings are read back. -/
theorem ModuleString.readsBack (h : r.Faithful Holds) :
    ReadsBack Holds (ModuleString.decode r) ModuleString.encode := by
  intro s v hv
  obtain ⟨es, hes, hfields⟩ := h.fields (by simp) hv ["name", "module_count"]
  have hname := hfields.required "name" h.text rfl
  have hcount := hfields.required "module_count" h.count rfl
  simp only [ModuleString.decode, hes, hname, hcount, Option.bind_eq_bind, Option.bind_some]
  rfl

namespace Inverter

/-- Inverter entries are read back with their strings. -/
theorem readsBack (h : r.Faithful Holds) : ReadsBack Holds (decode r) encode := by
  intro i v hv
  obtain ⟨es, hes, hfields⟩ := h.fields (by simp) hv ["material_id", "quantity", "strings"]
  have hid := hfields.required "material_id" h.text rfl
  have hquantity := hfields.required "quantity" h.count rfl
  have hstrings := hfields.withDefault "strings" [] (h.listOf (ModuleString.readsBack h)) rfl
  simp only [decode, hes, hid, hquantity, hstrings, Option.bind_eq_bind, Option.bind_some]
  rfl

end Inverter

namespace Options

/-- Options are read back. -/
theorem readsBack (h : r.Faithful Holds) : ReadsBack Holds (decode r) encode := by
  intro o v hv
  obtain ⟨es, hes, hfields⟩ := h.fields (by simp [named]) hv (named {} |>.map Prod.fst)
  have hoptimizer := Selection.field_eq h hfields "optimizer" rfl
  have hbattery := Selection.field_eq h hfields "battery" rfl
  have hwallbox := Selection.field_eq h hfields "wallbox" rfl
  have hmanagement := Selection.field_eq h hfields "energy_management" rfl
  have hbackup := Selection.field_eq h hfields "backup" rfl
  have hdongle := Selection.field_eq h hfields "smart_dongle" rfl
  simp only [decode, hes, hoptimizer, hbattery, hwallbox, hmanagement, hbackup, hdongle,
    Option.bind_eq_bind, Option.bind_some]
  rfl

end Options

namespace Electrical

/-- The electrical selections are read back. -/
theorem readsBack (h : r.Faithful Holds) : ReadsBack Holds (decode r) encode := by
  intro e v hv
  obtain ⟨es, hes, hfields⟩ := h.fields (by simp [named]) hv (named {} |>.map Prod.fst)
  have harrester := Selection.field_eq h hfields "surge_arrester" rfl
  have hrod := Selection.field_eq h hfields "grounding_rod" rfl
  have hcombiner := Selection.field_eq h hfields "combiner" rfl
  have hcabinet := Selection.field_eq h hfields "meter_cabinet" rfl
  have hbox := Selection.field_eq h hfields "connection_box" rfl
  have hsupply := Selection.field_eq h hfields "auxiliary_supply" rfl
  simp only [decode, hes, harrester, hrod, hcombiner, hcabinet, hbox, hsupply,
    Option.bind_eq_bind, Option.bind_some]
  rfl

end Electrical

namespace Protection

/-- Overrides of a subsystem are read back. -/
theorem readsBack (h : r.Faithful Holds) : ReadsBack Holds (decode r) encode := by
  intro p v hv
  obtain ⟨es, hes, hfields⟩ := h.fields (by simp) hv ["breaker_id", "cable_id", "rcd_id"]
  have hbreaker := hfields.optionalText h "breaker_id" rfl
  have hcable := hfields.optionalText h "cable_id" rfl
  have hrcd := hfields.optionalText h "rcd_id" rfl
  simp only [decode, hes, hbreaker, hcable, hrcd, Option.bind_eq_bind, Option.bind_some]
  rfl

end Protection

namespace Overrides

/-- The overrides of all subsystems are read back. -/
theorem readsBack (h : r.Faithful Holds) : ReadsBack Holds (decode r) encode := by
  intro o v hv
  obtain ⟨es, hes, hfields⟩ := h.fields (by simp [Subsystem.all, Subsystem.name]) hv
    ["inverter", "wallbox", "backup"]
  have hinverter := hfields.withDefault "inverter" {} (Protection.readsBack h) rfl
  have hwallbox := hfields.withDefault "wallbox" {} (Protection.readsBack h) rfl
  have hbackup := hfields.withDefault "backup" {} (Protection.readsBack h) rfl
  simp only [decode, hes, hinverter, hwallbox, hbackup, Option.bind_eq_bind, Option.bind_some]
  rfl

end Overrides

/-- **A plan is read back**, with all its selections and overrides and with those it lacks. -/
theorem Plan.readsBack (h : r.Faithful Holds) : ReadsBack Holds (Plan.decode r) Plan.encode := by
  intro p v hv
  obtain ⟨es, hes, hfields⟩ := h.fields (by simp) hv
    ["module", "roof", "layout", "mounting", "inverters", "options", "electrical", "overrides"]
  have hmodule := hfields.optionalText h "module" rfl
  have hroof := hfields.withDefault "roof" none (Roof.readsBack_option h) rfl
  have hlayout := hfields.withDefault "layout" {} (Layout.readsBack h) rfl
  have hmounting := hfields.withDefault "mounting" {} (Mounting.readsBack h) rfl
  have hinverters := hfields.withDefault "inverters" [] (h.listOf (Inverter.readsBack h)) rfl
  have hoptions := hfields.withDefault "options" {} (Options.readsBack h) rfl
  have helectrical := hfields.withDefault "electrical" {} (Electrical.readsBack h) rfl
  have hoverrides := hfields.withDefault "overrides" {} (Overrides.readsBack h) rfl
  simp only [Plan.decode, hes, hmodule, hroof, hlayout, hmounting, hinverters, hoptions,
    helectrical, hoverrides, Option.bind_eq_bind, Option.bind_some]
  rfl

/-! ### Coefficients -/

namespace StringWiring

/-- The wiring of the strings is read back. -/
theorem readsBack (h : r.Faithful Holds) : ReadsBack Holds (decode r) encode := by
  intro w v hv
  obtain ⟨es, hes, hfields⟩ := h.fields (by simp) hv ["connector_material",
    "connector_pairs_per_string", "cable_material", "cable_length_per_string_m"]
  have hconnector := hfields.optionalText h "connector_material" rfl
  have hpairs := hfields.required "connector_pairs_per_string" h.real rfl
  have hcable := hfields.optionalText h "cable_material" rfl
  have hlength := hfields.required "cable_length_per_string_m" h.real rfl
  simp only [decode, hes, hconnector, hpairs, hcable, hlength, Option.bind_eq_bind,
    Option.bind_some]
  rfl

end StringWiring

namespace DeviceWiring

/-- The wiring of the devices is read back. -/
theorem readsBack (h : r.Faithful Holds) : ReadsBack Holds (decode r) encode := by
  intro w v hv
  obtain ⟨es, hes, hfields⟩ := h.fields (by simp) hv
    ["cable_length_per_device_m", "wallbox_rcd_material"]
  have hlength := hfields.required "cable_length_per_device_m" h.real rfl
  have hrcd := hfields.optionalText h "wallbox_rcd_material" rfl
  simp only [decode, hes, hlength, hrcd, Option.bind_eq_bind, Option.bind_some]
  rfl

end DeviceWiring

namespace Bucket

/-- Buckets are read back. -/
theorem readsBack (h : r.Faithful Holds) : ReadsBack Holds (decode r) encode := by
  intro b v hv
  obtain ⟨es, hes, hfields⟩ := h.fields (by simp) hv ["cross_section_mm2", "max_ampacity_a",
    "breaker_rating_a", "breaker_material", "cable_material"]
  have hsection := hfields.required "cross_section_mm2" h.real rfl
  have hampacity := hfields.required "max_ampacity_a" h.real rfl
  have hrating := hfields.required "breaker_rating_a" h.real rfl
  have hbreaker := hfields.optionalText h "breaker_material" rfl
  have hcable := hfields.optionalText h "cable_material" rfl
  simp only [decode, hes, hsection, hampacity, hrating, hbreaker, hcable, Option.bind_eq_bind,
    Option.bind_some]
  rfl

end Bucket

namespace Grounding

/-- The grounding is read back. -/
theorem readsBack (h : r.Faithful Holds) : ReadsBack Holds (decode r) encode := by
  intro g v hv
  obtain ⟨es, hes, hfields⟩ := h.fields (by simp) hv ["electrode_material", "multiplier"]
  have helectrode := hfields.optionalText h "electrode_material" rfl
  have hmultiplier := hfields.required "multiplier" h.real rfl
  simp only [decode, hes, helectrode, hmultiplier, Option.bind_eq_bind, Option.bind_some]
  rfl

end Grounding

namespace Labels

/-- The labels are read back. -/
theorem readsBack (h : r.Faithful Holds) : ReadsBack Holds (decode r) encode := by
  intro l v hv
  obtain ⟨es, hes, hfields⟩ := h.fields (by simp) hv ["backup_power", "battery", "pv", "quantity"]
  have hbackup := hfields.optionalText h "backup_power" rfl
  have hbattery := hfields.optionalText h "battery" rfl
  have hpv := hfields.optionalText h "pv" rfl
  have hquantity := hfields.required "quantity" h.real rfl
  simp only [decode, hes, hbackup, hbattery, hpv, hquantity, Option.bind_eq_bind,
    Option.bind_some]
  rfl

end Labels

namespace FlatRate

/-- Flat rates are read back. -/
theorem readsBack (h : r.Faithful Holds) : ReadsBack Holds (decode r) encode := by
  intro f v hv
  obtain ⟨es, hes, hfields⟩ := h.fields (by simp) hv ["material", "quantity"]
  have hmaterial := hfields.optionalText h "material" rfl
  have hquantity := hfields.withDefault "quantity" 0.0 h.real rfl
  simp only [decode, hes, hmaterial, hquantity, Option.bind_eq_bind, Option.bind_some]
  rfl

end FlatRate

namespace Consumable

/-- No two consumables have the same name. -/
theorem nodup_names : (all.map name).Nodup := by
  decide

/-- The item of a kind stands under its name. -/
theorem lookup_encodeItems (items : Consumable → FlatRate) (k : Consumable) :
    (all.map fun k => (k.name, (items k).encode)).lookup k.name = some (items k).encode := by
  cases k <;> rfl

/-- A consumable is found under its name. -/
theorem lookup_all (items : Consumable → FlatRate) (k : Consumable) :
    (all.map fun k => (k, items k)).lookup k = some (items k) := by
  cases k <;> rfl

/-- All consumables are read back. -/
theorem items_readsBack (h : r.Faithful Holds) :
    ReadsBack Holds (decodeItems r) encodeItems := by
  intro items v hv
  have hnodup : ((all.map fun k => (k.name, (items k).encode)).map Prod.fst).Nodup := by
    rw [List.map_map]
    exact nodup_names
  obtain ⟨es, hes, hfields⟩ := h.fields hnodup hv (all.map name)
  have hitem : ∀ k, (Reader.withDefault es k.name {} (FlatRate.decode r)).map (fun item => (k, item)) =
      some (k, items k) := by
    intro k
    rw [hfields.withDefault k.name {} (FlatRate.readsBack h) (lookup_encodeItems items k),
      Option.map_some]
  have hall : (all.mapM fun k =>
      (Reader.withDefault es k.name {} (FlatRate.decode r)).map fun item => (k, item)) =
      some (all.map fun k => (k, items k)) := by
    apply mapM_eq_some_of_forall₂
    rw [List.forall₂_map_left_iff, List.forall₂_same]
    exact fun k _ => hitem k
  rw [decodeItems, hes, Option.bind_eq_bind, Option.bind_some, hall, Option.bind_eq_bind,
    Option.bind_some]
  change some _ = some items
  congr 1
  funext k
  rw [lookup_all, Option.getD_some]

end Consumable

namespace Presets

/-- The presets are read back. -/
theorem readsBack (h : r.Faithful Holds) : ReadsBack Holds (decode r) encode := by
  intro p v hv
  obtain ⟨es, hes, hfields⟩ := h.fields (by simp) hv ["module", "roof", "mounting_system",
    "fastener", "end_clamp", "mid_clamp", "profile", "profile_connector", "surge_arrester",
    "grounding_rod", "meter_cabinet"]
  have hmodule := hfields.optionalText h "module" rfl
  have hroof := hfields.withDefault "roof" none (Roof.readsBack_option h) rfl
  have hsystem := hfields.optionalText h "mounting_system" rfl
  have hfastener := hfields.optionalText h "fastener" rfl
  have hend := hfields.optionalText h "end_clamp" rfl
  have hmid := hfields.optionalText h "mid_clamp" rfl
  have hprofile := hfields.optionalText h "profile" rfl
  have hconnector := hfields.optionalText h "profile_connector" rfl
  have harrester := Selection.field_eq h hfields "surge_arrester" rfl
  have hrod := Selection.field_eq h hfields "grounding_rod" rfl
  have hcabinet := Selection.field_eq h hfields "meter_cabinet" rfl
  simp only [decode, hes, hmodule, hroof, hsystem, hfastener, hend, hmid, hprofile, hconnector,
    harrester, hrod, hcabinet, Option.bind_eq_bind, Option.bind_some]
  rfl

end Presets

namespace Coefficients

/-- A ratio is read back from its record. -/
theorem ratio_readsBack (h : r.Faithful Holds) :
    ReadsBack Holds (decodeRatio r) fun x => .record [("ratio", .real x)] := by
  intro x v hv
  obtain ⟨es, hes, hfields⟩ := h.fields (by simp) hv ["ratio"]
  have hratio := hfields.required "ratio" h.real rfl
  simp only [decodeRatio, hes, hratio, Option.bind_eq_bind, Option.bind_some]

/-- The dongle is read back from its record. -/
theorem dongle_readsBack (h : r.Faithful Holds) :
    ReadsBack Holds (decodeDongle r) fun o => .record [("default_material", .optionText o)] := by
  intro o v hv
  obtain ⟨es, hes, hfields⟩ := h.fields (by simp) hv ["default_material"]
  have hmaterial := hfields.optionalText h "default_material" rfl
  simp only [decodeDongle, hes, hmaterial, Option.bind_eq_bind, Option.bind_some]

/-- **Coefficients are read back.** -/
theorem readsBack (h : r.Faithful Holds) : ReadsBack Holds (decode r) encode := by
  intro c v hv
  obtain ⟨es, hes, hfields⟩ := h.fields (by simp) hv ["version", "mounting", "dc", "ac", "sizing",
    "dongle", "grounding", "labels", "consumables", "defaults"]
  have hversion := hfields.required "version" h.text rfl
  have hratio := hfields.required "mounting" (ratio_readsBack h) rfl
  have hdc := hfields.required "dc" (StringWiring.readsBack h) rfl
  have hac := hfields.required "ac" (DeviceWiring.readsBack h) rfl
  have hsizing := hfields.required "sizing" (h.listOf (Bucket.readsBack h)) rfl
  have hdongle := hfields.withDefault "dongle" none (dongle_readsBack h) rfl
  have hgrounding := hfields.required "grounding" (Grounding.readsBack h) rfl
  have hlabels := hfields.required "labels" (Labels.readsBack h) rfl
  have hconsumables := hfields.withDefault "consumables" (fun _ => {}) (Consumable.items_readsBack h)
    rfl
  have hpresets := hfields.withDefault "defaults" {} (Presets.readsBack h) rfl
  simp only [decode, hes, hversion, hratio, hdc, hac, hsizing, hdongle, hgrounding, hlabels,
    hconsumables, hpresets, Option.bind_eq_bind, Option.bind_some]
  rfl

end Coefficients

/-! ### Catalogues -/

namespace Material

/-- Every attribute has one value. -/
def Keyed (m : Material) : Prop :=
  (m.attributes.map Prod.fst).Nodup

/-- Attributes are read back in their order, each as the kind of value that it is. -/
theorem attributes_eq (h : r.Faithful Holds) {m : Material} (hkeyed : m.Keyed) {v : ν}
    (hv : Holds (.record (m.attributes.map fun a => (a.1, a.2.encode))) v) :
    (do (← r.entries? v).mapM fun e => (r.scalar? e.2).map (e.1, ·)) = some m.attributes := by
  have hnodup : ((m.attributes.map fun a => (a.1, a.2.encode)).map Prod.fst).Nodup := by
    rw [List.map_map]
    exact hkeyed
  obtain ⟨es, hes, hfields⟩ := h.entries hnodup hv
  rw [hes, Option.bind_eq_bind, Option.bind_some]
  apply mapM_eq_some_of_forall₂
  rw [HoldFields, List.forall₂_map_left_iff] at hfields
  refine hfields.imp ?_
  rintro a e ⟨hname, hheld⟩
  rw [h.scalar a.2 e.2 hheld, Option.map_some, ← hname]

/-- **A material is read back.** -/
theorem decode_eq (h : r.Faithful Holds) {m : Material} (hkeyed : m.Keyed) {v : ν}
    (hv : Holds m.encode v) : decode r v = some m := by
  obtain ⟨es, hes, hfields⟩ := h.fields (by simp) hv
    ["id", "description", "category", "price", "specs"]
  have hid := hfields.required "id" h.text rfl
  have hdescription := hfields.withDefault "description" "" h.text rfl
  have hcategory := hfields.withDefault "category" "" h.text rfl
  have hprice := hfields.withDefault "price" none
    (h.option h.real fun _ => Datum.noConfusion) rfl
  have hattributes : (Reader.withDefault es "specs" [] fun v => do
      (← r.entries? v).mapM fun e => (r.scalar? e.2).map (e.1, ·)) = some m.attributes := by
    obtain ⟨w, hfound, hheld⟩ := hfields.lookup "specs" rfl
    rw [Reader.withDefault, hfound]
    exact attributes_eq h hkeyed hheld
  simp only [decode, hes, hid, hdescription, hcategory, hprice, Option.bind_eq_bind,
    Option.bind_some] at hattributes ⊢
  rw [hattributes]
  rfl

end Material

namespace Catalog

/-- Attributes are a map in every record. -/
def Keyed (c : Catalog) : Prop :=
  ∀ m ∈ c.toList, m.Keyed

/-- A record with a new identifier goes to the end. -/
theorem place_of_not_mem {m : Material} {ms : List Material} (h : m.id ∉ ms.map Material.id) :
    place m ms = ms ++ [m] := by
  induction ms with
  | nil => rfl
  | cons x rest ih =>
      rw [List.map_cons, List.mem_cons, not_or] at h
      rw [place, if_neg (Ne.symm h.1), ih h.2, List.cons_append]

/-- A catalogue is the table of its own list. -/
theorem ofList_toList (c : Catalog) : ofList c.toList = c := by
  have hfold : ∀ (rest : List Material) (d : Catalog),
      ((d.materials ++ rest).map Material.id).Nodup →
        (rest.foldl insert d).materials = d.materials ++ rest := by
    intro rest
    induction rest with
    | nil =>
        intro d _
        rw [List.append_nil]
        rfl
    | cons m rest ih =>
        intro d hnodup
        have hinsert : (d.insert m).materials = d.materials ++ [m] :=
          place_of_not_mem (key_not_mem_before hnodup)
        rw [List.append_cons, ← hinsert] at hnodup ⊢
        exact ih (d.insert m) hnodup
  have hmaterials : (ofList c.toList).materials = c.materials := hfold c.toList empty c.distinct
  cases c
  cases hlist : ofList _
  rw [hlist] at hmaterials
  cases hmaterials
  rfl

/-- **A catalogue is read back**, with its order. -/
theorem decode_eq (h : r.Faithful Holds) {c : Catalog} (hkeyed : c.Keyed) {v : ν}
    (hv : Holds c.encode v) : decode r v = some c := by
  rw [decode, h.listOf_eq (fun m hm _ => Material.decode_eq h (hkeyed m hm)) hv, Option.map_some,
    ofList_toList]

end Catalog

/-! ### Bills -/

/-- Lines of a bill are read back. -/
theorem Line.readsBack (h : r.Faithful Holds) : ReadsBack Holds (Line.decode r) Line.encode := by
  intro l v hv
  obtain ⟨es, hes, hfields⟩ := h.fields (by simp) hv
    ["material_id", "quantity", "description", "category", "is_configured", "is_manual"]
  have hid := hfields.required "material_id" h.text rfl
  have hquantity := hfields.required "quantity" h.real rfl
  have hdescription := hfields.withDefault "description" "" h.text rfl
  have hcategory := hfields.withDefault "category" "" h.text rfl
  have hconfigured := hfields.withDefault "is_configured" false h.flag rfl
  have hmanual := hfields.withDefault "is_manual" false h.flag rfl
  simp only [Line.decode, hes, hid, hquantity, hdescription, hcategory, hconfigured, hmanual,
    Option.bind_eq_bind, Option.bind_some]
  rfl

/-- **A bill is read back.** -/
theorem Bill.readsBack (h : r.Faithful Holds) : ReadsBack Holds (Bill.decode r) Bill.encode := by
  intro b v hv
  obtain ⟨es, hes, hfields⟩ := h.fields (by simp) hv ["lines", "warnings"]
  have hlines := hfields.required "lines" (h.listOf (Line.readsBack h)) rfl
  have hwarnings := hfields.required "warnings" (h.listOf h.text) rfl
  simp only [Bill.decode, hes, hlines, hwarnings, Option.bind_eq_bind, Option.bind_some]
  rfl

end SolarBill
