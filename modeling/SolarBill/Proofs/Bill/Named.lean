import SolarBill.Proofs.Bill.Lines
import SolarBill.Proofs.Catalog.Agreement
import SolarBill.Proofs.Coefficients.Sizing

/-!
# What a bill reads of the catalogue

The rules look materials up by identifiers that the plan or the coefficients name: the dimensions of
module, profile and clamps, the currents of the devices, two flags about dongles, and the words of
every line.  Rule by rule, catalogues that agree on the named materials give the same lines.  The
devices of a subsystem are the only ones that are computed before they are looked up; they come from
the ampacity table or from the overrides, so they are named too.

* `namedMaterials` — the materials that a plan and a coefficient set name;
* `Rules.lines_agree` — the lines of the rules;
* `bill_reads_named_materials` — the bill, and what can be done to a catalogue without changing it.
-/

namespace SolarBill

/-! ### Materials that are named -/

/-- The places of a plan that can name a material. -/
def Plan.materialFields (p : Plan) : List (Option String) :=
  [p.module, p.mounting.system, p.mounting.fastener, p.mounting.endClamp, p.mounting.midClamp,
      p.mounting.profile, p.mounting.profileConnector] ++
    p.inverters.map (fun v => some v.materialId) ++
    (p.options.named ++ p.electrical.named).map (fun named => named.2.map Selection.materialId) ++
    Subsystem.all.flatMap fun s =>
      [(p.overrides.get s).breaker, (p.overrides.get s).cable, (p.overrides.get s).rcd]

/-- The places of a coefficient set that can name a material, apart from the presets, which only
new plans read. -/
def Coefficients.materialFields (k : Coefficients) : List (Option String) :=
  k.sizing.flatMap (fun b => [b.breaker, b.cable]) ++
    [k.ac.wallboxRcd, k.dc.connectorMaterial, k.dc.cableMaterial, k.dongle, k.grounding.electrode,
      k.labels.backupPower, k.labels.battery, k.labels.pv] ++
    Consumable.all.map fun kind => (k.consumables kind).material

/-- The materials that a plan and a coefficient set name. -/
def namedMaterials (p : Plan) (k : Coefficients) : List String :=
  (p.materialFields ++ k.materialFields).reduceOption

/-- The catalogues agree on every material that is named. -/
def Catalog.AgreeFor (p : Plan) (k : Coefficients) (c d : Catalog) : Prop :=
  ∀ id ∈ namedMaterials p k, c.AgreeOn d id

namespace Catalog.AgreeFor

variable {p : Plan} {k : Coefficients} {c d : Catalog}

/-- The catalogues agree on every material that the plan names. -/
theorem plan (h : AgreeFor p k c d) (field : Option String) (hfield : field ∈ p.materialFields) :
    ∀ id ∈ field, c.AgreeOn d id := by
  intro id hid
  rw [Option.mem_def.mp hid] at hfield
  exact h id (List.reduceOption_mem_iff.mpr (List.mem_append_left _ hfield))

/-- They agree on every material that the coefficients name. -/
theorem coefficients (h : AgreeFor p k c d) (field : Option String)
    (hfield : field ∈ k.materialFields) : ∀ id ∈ field, c.AgreeOn d id := by
  intro id hid
  rw [Option.mem_def.mp hid] at hfield
  exact h id (List.reduceOption_mem_iff.mpr (List.mem_append_right _ hfield))

/-- They agree on every inverter. -/
theorem inverter (h : AgreeFor p k c d) {v : Inverter} (hv : v ∈ p.inverters) :
    c.AgreeOn d v.materialId := by
  have hfield : some v.materialId ∈ p.materialFields := by
    simp only [Plan.materialFields, List.mem_append, List.mem_map]
    exact Or.inl (Or.inl (Or.inr ⟨v, hv, rfl⟩))
  exact h.plan _ hfield v.materialId rfl

/-- They agree on every selection. -/
theorem selection (h : AgreeFor p k c d) {s : Selection}
    (hs : some s ∈ (p.options.named ++ p.electrical.named).map Prod.snd) :
    c.AgreeOn d s.materialId := by
  obtain ⟨named, hnamed, hsecond⟩ := List.mem_map.mp hs
  have hfield : some s.materialId ∈ p.materialFields := by
    simp only [Plan.materialFields, List.mem_append, List.mem_map (b := some s.materialId)]
    exact Or.inl (Or.inr ⟨named, List.mem_append.mp hnamed, by rw [hsecond]; rfl⟩)
  exact h.plan _ hfield s.materialId rfl

/-- They agree on what an override puts in place of the recommendation. -/
theorem override (h : AgreeFor p k c d) (s : Subsystem) {field : Option String}
    (hfield : field ∈ [(p.overrides.get s).breaker, (p.overrides.get s).cable,
      (p.overrides.get s).rcd]) : ∀ id ∈ field, c.AgreeOn d id := by
  have hs : s ∈ Subsystem.all := by
    cases s <;> decide
  apply h.plan
  simp only [Plan.materialFields, List.mem_append, List.mem_flatMap]
  exact Or.inr ⟨s, hs, hfield⟩

/-- They agree on what a bucket recommends. -/
theorem bucket (h : AgreeFor p k c d) {b : Bucket} (hb : b ∈ k.sizing) {field : Option String}
    (hfield : field ∈ [b.breaker, b.cable]) : ∀ id ∈ field, c.AgreeOn d id := by
  apply h.coefficients
  simp only [Coefficients.materialFields, List.mem_append, List.mem_flatMap]
  exact Or.inl (Or.inl ⟨b, hb, hfield⟩)

/-- They agree on every consumable. -/
theorem consumable (h : AgreeFor p k c d) (kind : Consumable) :
    ∀ id ∈ (k.consumables kind).material, c.AgreeOn d id := by
  apply h.coefficients
  simp only [Coefficients.materialFields, List.mem_append, List.mem_map]
  exact Or.inr ⟨kind, Consumable.mem_all kind, rfl⟩

end Catalog.AgreeFor

/-! ### Devices of the subsystems -/

namespace Protection

variable {p : Plan} {k : Coefficients} {c d : Catalog}

/-- The current of a material is an attribute of it. -/
theorem currentOf_agree {id : String} (h : c.AgreeOn d id) : currentOf c id = currentOf d id := by
  have hfind : Option.Rel Material.SameButPrice (c.find? (some id)) (d.find? (some id)) :=
    Catalog.find?_agree fun _ hid => Option.mem_some_iff.mp hid ▸ h
  rw [currentOf, currentOf, numberOf_agree hfind]

/-- A subsystem draws the same current. -/
theorem demand?_agree (h : Catalog.AgreeFor p k c d) (s : Subsystem) :
    demand? s p c = demand? s p d := by
  have hinverters :
      (p.inverters.filter Inverter.isComplete).map (fun v => currentOf c v.materialId) =
        (p.inverters.filter Inverter.isComplete).map fun v => currentOf d v.materialId :=
    List.map_congr_left fun v hv => currentOf_agree (h.inverter (List.mem_of_mem_filter hv))
  have hselected : ∀ field : Option Selection,
      field ∈ (p.options.named ++ p.electrical.named).map Prod.snd →
      (field.map fun x => currentOf c x.materialId) =
        field.map fun x => currentOf d x.materialId := by
    intro field hfield
    cases field with
    | none => rfl
    | some x => rw [Option.map_some, Option.map_some, currentOf_agree (h.selection hfield)]
  have hwallbox := hselected p.options.wallbox (by simp [Options.named])
  have hbackup := hselected p.options.backup (by simp [Options.named])
  cases s <;> simp only [demand?, hinverters, hwallbox, hbackup]

/-- The recommendation needs no current but those of the installed devices. -/
theorem recommended_agree (h : Catalog.AgreeFor p k c d) (s : Subsystem) :
    recommended s p c k = recommended s p d k := by
  rw [recommended, recommended, demand?_agree h]

/-- The choice is the recommendation with what the plan puts in its place. -/
theorem chosen_agree (h : Catalog.AgreeFor p k c d) (s : Subsystem) :
    chosen s p c k = chosen s p d k := by
  rw [chosen, chosen, recommended_agree h]

/-- What is picked from the ampacity table stands in one of its buckets. -/
theorem mem_bucket {field : Bucket → Option String}
    (hfield : ∀ b, field (SizingTable.namedOnly b) = Text.nonBlank? (field b)) {current : Float}
    {id : String} (hid : id ∈ ((SizingTable.ofCoefficients k).pick? current).bind field) :
    ∃ b ∈ k.sizing, id ∈ field b := by
  obtain ⟨entry, hentry, hid⟩ := Option.bind_eq_some_iff.mp hid
  have hmem := (SizingTable.entries_perm k).mem_iff.mp (SizingTable.pick?_mem hentry)
  obtain ⟨b, hb, rfl⟩ := List.mem_map.mp hmem
  rw [hfield] at hid
  exact ⟨b, hb, (Text.nonBlank?_eq_some_iff.mp hid).1⟩

/-- What is recommended stands in the coefficients. -/
theorem mem_recommended {s : Subsystem} {id : String} :
    (id ∈ (recommended s p c k).breaker → ∃ b ∈ k.sizing, id ∈ b.breaker) ∧
    (id ∈ (recommended s p c k).cable → ∃ b ∈ k.sizing, id ∈ b.cable) ∧
    (id ∈ (recommended s p c k).rcd → id ∈ k.ac.wallboxRcd) := by
  rw [recommended]
  cases demand? s p c with
  | none => simp
  | some current =>
      refine ⟨mem_bucket fun _ => rfl, mem_bucket fun _ => rfl, fun hid => ?_⟩
      simp only at hid
      split_ifs at hid
      · exact (Text.nonBlank?_eq_some_iff.mp hid).1
      · exact absurd hid (by simp)

/-- What is chosen is the installer's own device or the recommended one. -/
theorem mem_choose {own other : Option String} {id : String}
    (h : id ∈ (Text.nonBlank? own).orElse fun _ => other) : id ∈ own ∨ id ∈ other := by
  cases hown : Text.nonBlank? own with
  | none =>
      rw [hown] at h
      exact Or.inr h
  | some name =>
      rw [hown] at h
      exact Or.inl ((Text.nonBlank?_eq_some_iff.mp hown).1.trans h)

/-- **The devices of a subsystem are named**, by the overrides or by the coefficients. -/
theorem chosen_named (h : Catalog.AgreeFor p k c d) (s : Subsystem) :
    (∀ id ∈ (chosen s p c k).breaker, c.AgreeOn d id) ∧
    (∀ id ∈ (chosen s p c k).cable, c.AgreeOn d id) ∧
    ∀ id ∈ (chosen s p c k).rcd, c.AgreeOn d id := by
  refine ⟨fun id hid => ?_, fun id hid => ?_, fun id hid => ?_⟩
  · rcases mem_choose hid with hid | hid
    · exact h.override s (by simp) id hid
    · obtain ⟨b, hb, hid⟩ := mem_recommended.1 hid
      exact h.bucket hb (by simp) id hid
  · rcases mem_choose hid with hid | hid
    · exact h.override s (by simp) id hid
    · obtain ⟨b, hb, hid⟩ := mem_recommended.2.1 hid
      exact h.bucket hb (by simp) id hid
  · rcases mem_choose hid with hid | hid
    · exact h.override s (by simp) id hid
    · have hfield : k.ac.wallboxRcd ∈ k.materialFields := by
        simp [Coefficients.materialFields]
      exact h.coefficients _ hfield id (mem_recommended.2.2 hid)

end Protection

/-! ### Lines of the rules -/

namespace Rules

variable {p : Plan} {k : Coefficients} {c d : Catalog}

/-- A line is emitted alike if it is made alike. -/
theorem emit_agree {make : String → Float → Catalog → Line}
    (hmake : ∀ {id : String}, c.AgreeOn d id → ∀ quantity, make id quantity c = make id quantity d)
    {field : Option String} (h : ∀ id ∈ field, c.AgreeOn d id) (quantity : Float) :
    emit make ⟨p, c, k⟩ field quantity = emit make ⟨p, d, k⟩ field quantity := by
  rw [emit, emit]
  cases hused : usable? field quantity with
  | none => rfl
  | some id =>
      have hid : id ∈ field := (usable?_eq_some hused).1
      rw [Option.map_some, Option.map_some, hmake (h id hid)]

/-- A line is the same for a place whose material the catalogues agree on. -/
theorem configured_agree {field : Option String} (h : ∀ id ∈ field, c.AgreeOn d id)
    (quantity : Float) :
    configured ⟨p, c, k⟩ field quantity = configured ⟨p, d, k⟩ field quantity :=
  emit_agree (fun hid q => by rw [Line.configured, Line.configured, Line.derived_agree hid q]) h
    quantity

/-- Derived lines of a named material are alike. -/
theorem derived_agree {field : Option String} (h : ∀ id ∈ field, c.AgreeOn d id)
    (quantity : Float) :
    derived ⟨p, c, k⟩ field quantity = derived ⟨p, d, k⟩ field quantity :=
  emit_agree Line.derived_agree h quantity

/-- The lines of the modules read the module only. -/
theorem moduleLines_agree (h : Catalog.AgreeFor p k c d) :
    moduleLines ⟨p, c, k⟩ = moduleLines ⟨p, d, k⟩ :=
  configured_agree (h.plan _ (by simp [Plan.materialFields])) _

/-- The lines of the inverters read the inverters only. -/
theorem inverterLines_agree (h : Catalog.AgreeFor p k c d) :
    inverterLines ⟨p, c, k⟩ = inverterLines ⟨p, d, k⟩ := by
  apply List.flatMap_congr
  intro v hv
  exact configured_agree (fun _ hid => Option.mem_some_iff.mp hid ▸ h.inverter hv) _

/-- The mounting lines read the mounting materials only. -/
theorem mountingLines_agree (h : Catalog.AgreeFor p k c d) :
    mountingLines ⟨p, c, k⟩ = mountingLines ⟨p, d, k⟩ := by
  have hsystem := h.plan p.mounting.system (by simp [Plan.materialFields])
  have hfastener := h.plan p.mounting.fastener (by simp [Plan.materialFields])
  simp only [mountingLines, configured_agree hsystem, configured_agree hfastener]

/-- The clamp lines read the clamps only. -/
theorem clampLines_agree (h : Catalog.AgreeFor p k c d) :
    clampLines ⟨p, c, k⟩ = clampLines ⟨p, d, k⟩ := by
  have hend := h.plan p.mounting.endClamp (by simp [Plan.materialFields])
  have hmid := h.plan p.mounting.midClamp (by simp [Plan.materialFields])
  simp only [clampLines, configured_agree hend, configured_agree hmid]

/-- The dimensions of module, profile and clamps. -/
theorem railDimensions_agree (h : Catalog.AgreeFor p k c d) :
    RailDimensions.ofCatalog p c = RailDimensions.ofCatalog p d := by
  have hmodule := h.plan p.module (by simp [Plan.materialFields])
  have hprofile := h.plan p.mounting.profile (by simp [Plan.materialFields])
  have hend := h.plan p.mounting.endClamp (by simp [Plan.materialFields])
  have hmid := h.plan p.mounting.midClamp (by simp [Plan.materialFields])
  simp only [RailDimensions.ofCatalog, numberOf_agree (Catalog.find?_agree hmodule),
    numberOf_agree (Catalog.find?_agree hprofile), numberOf_agree (Catalog.find?_agree hend),
    numberOf_agree (Catalog.find?_agree hmid)]

/-- The rail lines read the profiles and their connectors only, also for their lengths. -/
theorem railLines_agree (h : Catalog.AgreeFor p k c d) :
    railLines ⟨p, c, k⟩ = railLines ⟨p, d, k⟩ := by
  have hprofile := h.plan p.mounting.profile (by simp [Plan.materialFields])
  have hconnector := h.plan p.mounting.profileConnector (by simp [Plan.materialFields])
  simp only [railLines, railDimensions_agree h, configured_agree hprofile,
    configured_agree hconnector]

/-- The lines of the strings read cables and connectors only. -/
theorem stringLines_agree (h : Catalog.AgreeFor p k c d) :
    stringLines ⟨p, c, k⟩ = stringLines ⟨p, d, k⟩ := by
  have hconnector := h.coefficients k.dc.connectorMaterial (by simp [Coefficients.materialFields])
  have hcable := h.coefficients k.dc.cableMaterial (by simp [Coefficients.materialFields])
  simp only [stringLines, derived_agree hconnector, derived_agree hcable]

/-- The lines of the selections read what is selected only. -/
theorem selectionLines_agree (h : Catalog.AgreeFor p k c d) :
    selectionLines ⟨p, c, k⟩ = selectionLines ⟨p, d, k⟩ := by
  apply List.flatMap_congr
  intro s hs
  obtain ⟨named, hnamed, hsecond⟩ := List.mem_filterMap.mp (List.mem_of_mem_filter hs)
  have hagree := h.selection (List.mem_map.mpr ⟨named, hnamed, hsecond⟩)
  exact configured_agree (fun _ hid => Option.mem_some_iff.mp hid ▸ hagree) _

/-- The flag of a complete energy manager. -/
theorem managerReplacesDongle_agree (h : Catalog.AgreeFor p k c d) :
    managerReplacesDongle ⟨p, c, k⟩ = managerReplacesDongle ⟨p, d, k⟩ := by
  simp only [managerReplacesDongle]
  cases hmanager : p.options.energyManagement.filter Selection.isComplete with
  | none => rfl
  | some m =>
      have hselected : p.options.energyManagement = some m :=
        (Option.filter_eq_some_iff.mp hmanager).1
      have hagree := h.selection (s := m) (by simp [Options.named, hselected])
      simp only [flagOf?_agree hagree]

/-- The flags of the inverters. -/
theorem donglesNeeded_agree (h : Catalog.AgreeFor p k c d) :
    donglesNeeded ⟨p, c, k⟩ = donglesNeeded ⟨p, d, k⟩ := by
  have hwithout : p.inverters.filter (fun v =>
        flagOf? (c.get? v.materialId) .dongleIntegrated == some false) =
      p.inverters.filter fun v =>
        flagOf? (d.get? v.materialId) .dongleIntegrated == some false := by
    apply List.filter_congr
    intro v hv
    rw [flagOf?_agree (h.inverter hv)]
  simp only [donglesNeeded, hwithout]

/-- A line that is not listed yet is emitted alike. -/
theorem unlisted_agree (h : Catalog.AgreeFor p k c d) {id : Option String}
    (hid : id ∈ k.materialFields) (listed : List Line) (quantity : Float) :
    unlisted ⟨p, c, k⟩ listed id quantity = unlisted ⟨p, d, k⟩ listed id quantity := by
  rw [unlisted, unlisted]
  cases hname : Text.nonBlank? id with
  | none => rfl
  | some name =>
      obtain ⟨rfl, -⟩ := Text.nonBlank?_eq_some_iff.mp hname
      simp only [derived_agree (h.coefficients _ hid)]

/-- Whether dongles are due is up to the inverters and the energy manager. -/
theorem dongleLines_agree (h : Catalog.AgreeFor p k c d) (listed : List Line) :
    dongleLines ⟨p, c, k⟩ listed = dongleLines ⟨p, d, k⟩ listed := by
  have hfield : k.dongle ∈ k.materialFields := by
    simp [Coefficients.materialFields]
  simp only [dongleLines_eq, managerReplacesDongle_agree h, donglesNeeded_agree h,
    unlisted_agree h hfield]

/-- The electrode is a material of the coefficients. -/
theorem electrodeLines_agree (h : Catalog.AgreeFor p k c d) (listed : List Line) :
    electrodeLines ⟨p, c, k⟩ listed = electrodeLines ⟨p, d, k⟩ listed := by
  have hfield : k.grounding.electrode ∈ k.materialFields := by
    simp [Coefficients.materialFields]
  simp only [electrodeLines_eq, unlisted_agree h hfield]

/-- The lines of the protections read what was chosen for each subsystem. -/
theorem protectionLines_agree (h : Catalog.AgreeFor p k c d) :
    protectionLines ⟨p, c, k⟩ = protectionLines ⟨p, d, k⟩ := by
  apply List.flatMap_congr
  intro s _
  obtain ⟨hbreaker, hcable, hrcd⟩ := Protection.chosen_named h s
  simp only [subsystemLines, configured_agree hbreaker, configured_agree hcable,
    configured_agree hrcd]
  rw [Protection.chosen_agree h]

/-- The lines of the consumables read their materials only. -/
theorem consumableLines_agree (h : Catalog.AgreeFor p k c d) :
    consumableLines ⟨p, c, k⟩ = consumableLines ⟨p, d, k⟩ := by
  apply List.flatMap_congr
  intro kind _
  exact derived_agree (h.consumable kind) _

/-- The label is a material of the coefficients. -/
theorem labelLines_agree (h : Catalog.AgreeFor p k c d) :
    labelLines ⟨p, c, k⟩ = labelLines ⟨p, d, k⟩ := by
  simp only [labelLines]
  apply derived_agree
  apply h.coefficients
  split_ifs <;> simp [Coefficients.materialFields]

/-- **The lines of the rules** are the same. -/
theorem lines_agree (h : Catalog.AgreeFor p k c d) : lines ⟨p, c, k⟩ = lines ⟨p, d, k⟩ := by
  have hselected : selectedLines ⟨p, c, k⟩ = selectedLines ⟨p, d, k⟩ := by
    simp only [selectedLines, moduleLines_agree h, inverterLines_agree h, mountingLines_agree h,
      clampLines_agree h, railLines_agree h, stringLines_agree h, selectionLines_agree h]
  simp only [lines, followedBy, hselected, dongleLines_agree h, electrodeLines_agree h,
    protectionLines_agree h, consumableLines_agree h, labelLines_agree h]

end Rules

/-- **A bill reads the named materials only.**  Catalogues that agree on the materials which the
plan and the coefficients name, be it that neither has a record or that the records say the same
except for the price, give the same bill.  So a catalogue can be put into another order, be priced
anew and get further materials that are not named, and the bill stays. -/
theorem bill_reads_named_materials (p : Plan) (k : Coefficients) (c d : Catalog) :
    ((∀ id ∈ namedMaterials p k, c.AgreeOn d id) → compile p c k = compile p d k) ∧
    ∀ (price : Material → Option Float) (further : List Material),
      (∀ m ∈ further, m.id ∉ namedMaterials p k) →
      d.toList.Perm (c.toList.map (Material.repriced price) ++ further) →
      compile p c k = compile p d k := by
  have hread : Catalog.AgreeFor p k c d → compile p c k = compile p d k := by
    intro h
    simp only [compile, Rules.draft, Rules.lines_agree h]
    rfl
  refine ⟨hread, fun price further hfurther hperm => hread fun id hid => ?_⟩
  apply Catalog.agreeOn_of_perm hperm
  intro m hm heq
  exact hfurther m hm (heq ▸ hid)

/-- Two modules with one inverter. -/
def smallPlan : Plan where
  module := some "MOD"
  layout := { portrait := [2] }
  inverters := [⟨"INV", 1, [⟨"S1", 2⟩]⟩]

/-- What the catalogues say of the inverter. -/
def smallInverter : Material where
  id := "INV"
  description := "Inverter 5 kW"
  attributes := [("dongle_integrated", .flag false), ("max_ac_current_a", .number 16.0)]

/-- A material that nobody names. -/
def heatPump : Material where
  id := "PUMP"
  description := "Heat pump"
  price := some 4000.0

/-- A catalogue that knows the inverter and its price. -/
def pricedCatalog : Catalog :=
  ⟨[{ smallInverter with price := some 900.0 }], List.nodup_singleton _⟩

/-- A catalogue that knows the heat pump, and the inverter without a price. -/
def pumpCatalog : Catalog :=
  ⟨[heatPump, smallInverter], by decide⟩

/-- Neither the heat pump nor the price makes a difference. -/
theorem bill_reads_named_materials_pump :
    (∀ id ∈ namedMaterials smallPlan .builtin, pricedCatalog.AgreeOn pumpCatalog id) ∧
      compile smallPlan pricedCatalog .builtin = compile smallPlan pumpCatalog .builtin ∧
      heatPump.id ∉ namedMaterials smallPlan .builtin ∧
      compile smallPlan .empty .builtin =
        compile smallPlan (Catalog.empty.insert heatPump) .builtin := by
  have hpump : heatPump.id ∉ namedMaterials smallPlan .builtin := by
    decide
  have hfurther : ∀ m ∈ [heatPump], m.id ∉ namedMaterials smallPlan .builtin := by
    intro m hm
    rw [List.mem_singleton.mp hm]
    exact hpump
  have hagree : ∀ id ∈ namedMaterials smallPlan .builtin, pricedCatalog.AgreeOn pumpCatalog id := by
    intro id hid
    have hperm : pumpCatalog.toList.Perm
        (pricedCatalog.toList.map (Material.repriced fun _ => none) ++ [heatPump]) :=
      List.Perm.swap _ _ _
    exact Catalog.agreeOn_of_perm hperm fun m hm heq => hfurther m hm (heq ▸ hid)
  refine ⟨hagree, ?_, hpump, ?_⟩
  · exact (bill_reads_named_materials smallPlan .builtin pricedCatalog pumpCatalog).1 hagree
  · exact (bill_reads_named_materials smallPlan .builtin .empty
      (Catalog.empty.insert heatPump)).2 Material.price [heatPump] hfurther (List.Perm.refl _)

end SolarBill
