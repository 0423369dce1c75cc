import SolarBill.Proofs.Catalog.Agreement
import SolarBill.Proofs.Data.Records

/-!
# Catalogues collected from records

Records come as a list in which identifiers may repeat and may be blank.  The catalogue that collects
them keeps one record for each identifier, the last one, in the place of the first one.

* `Catalog.FirstSeen` — identifiers without repetitions, in the order in which they were first seen:
  `FirstSeen.append` for one more identifier, `firstSeen_ofList` for a list of records;
* `Catalog.get?_insert`, `Catalog.get?_ofList` — the record of an identifier after one insertion, and
  after many;
* `Catalog.entries_ofList` — a table that holds the identifiers apart from the records has the same
  records, each under its own identifier;
* `Catalog.collects_records` — everything that a collected catalogue answers, and when it gives the
  records back as they came.
-/

namespace SolarBill

/-- The last of the records with an identifier. -/
def Material.last? (ms : List Material) (id : String) : Option Material :=
  (ms.filter fun m => m.id == id).getLast?

namespace Catalog

variable {c : Catalog} {ms : List Material}

/-! ### Identifiers in order -/

/-- The identifiers that were seen, each once, in the order of their first places. -/
structure FirstSeen (ids seen : List String) : Prop where
  mem : ∀ id, id ∈ ids ↔ id ∈ seen
  order : ids.Pairwise fun a b => seen.idxOf a < seen.idxOf b

/-- An identifier that is seen again changes nothing, and a new one comes last. -/
theorem FirstSeen.append {ids seen : List String} (h : FirstSeen ids seen) (id : String) :
    FirstSeen (if id ∈ ids then ids else ids ++ [id]) (seen ++ [id]) := by
  have hkept : ∀ a ∈ ids, (seen ++ [id]).idxOf a = seen.idxOf a :=
    fun a ha => List.idxOf_append_of_mem ((h.mem a).mp ha)
  have horder : ids.Pairwise fun a b => (seen ++ [id]).idxOf a < (seen ++ [id]).idxOf b := by
    refine h.order.imp_of_mem fun ha hb hlt => ?_
    rw [hkept _ ha, hkept _ hb]
    exact hlt
  split_ifs with hid
  · refine ⟨fun a => ?_, horder⟩
    rw [List.mem_append, List.mem_singleton, h.mem]
    refine ⟨Or.inl, fun ha => ha.elim (fun hseen => hseen) ?_⟩
    rintro rfl
    exact (h.mem a).mp hid
  · refine ⟨fun a => ?_, List.pairwise_append.mpr ⟨horder, List.pairwise_singleton _ _, ?_⟩⟩
    · rw [List.mem_append, List.mem_append, h.mem]
    · intro a ha b hb
      have hnew : id ∉ seen := mt (h.mem id).mpr hid
      rw [List.mem_singleton.mp hb, hkept a ha, List.idxOf_append_of_notMem hnew,
        List.idxOf_cons_self, Nat.add_zero]
      exact List.idxOf_lt_length_of_mem ((h.mem a).mp ha)

/-- Inserting records one after the other. -/
theorem FirstSeen.inserted {seen : List String} (h : FirstSeen c.ids seen) (ms : List Material) :
    FirstSeen (ms.foldl insert c).ids (seen ++ ms.map Material.id) := by
  induction ms generalizing c seen with
  | nil => simpa using h
  | cons m rest ih =>
      have hstep : FirstSeen (c.insert m).ids (seen ++ [m.id]) := by
        rw [ids_insert]
        exact h.append m.id
      rw [List.map_cons, List.append_cons]
      exact ih hstep

/-- The identifiers of a collected catalogue are those of the list, in the order of their first
time. -/
theorem firstSeen_ofList (ms : List Material) :
    FirstSeen (ofList ms).ids (ms.map Material.id) :=
  FirstSeen.inserted (c := empty) ⟨fun _ => Iff.rfl, .nil⟩ ms

/-! ### The record of an identifier -/

/-- A record that is put in its place is found under its identifier, and all others as before. -/
theorem find?_place (m : Material) (ms : List Material) (id : String) :
    (place m ms).find? (fun o => o.id == id) =
      if m.id = id then some m else ms.find? fun o => o.id == id := by
  induction ms with
  | nil =>
      rw [place]
      split_ifs with hid
      · exact List.find?_cons_of_pos (by simpa using hid)
      · exact List.find?_cons_of_neg (by simpa using hid)
  | cons x rest ih =>
      rw [place]
      split_ifs with hx hid hid
      · simp [hid]
      · simp [hid, hx]
      · rw [List.find?_cons_of_neg (by simp [← hid, hx]), ih, if_pos hid]
      · rw [List.find?_cons, List.find?_cons, ih, if_neg hid]

/-- An insertion changes the record of one identifier. -/
theorem get?_insert (c : Catalog) (m : Material) (id : String) :
    (c.insert m).get? id = if m.id = id then some m else c.get? id :=
  find?_place m c.materials id

/-- The last record of an identifier is looked for from the end. -/
theorem last?_cons (m : Material) (rest : List Material) (id : String) :
    Material.last? (m :: rest) id =
      (Material.last? rest id).or (if m.id = id then some m else none) := by
  rw [Material.last?, Material.last?]
  split_ifs with hid
  · rw [List.filter_cons_of_pos (by simpa using hid), List.getLast?_cons]
    cases (rest.filter fun o => o.id == id).getLast? <;> rfl
  · rw [List.filter_cons_of_neg (by simpa using hid), Option.or_none]

/-- What was inserted last counts, and what was there before counts where nothing was inserted. -/
theorem get?_inserted (c : Catalog) (ms : List Material) (id : String) :
    (ms.foldl insert c).get? id = (Material.last? ms id).or (c.get? id) := by
  induction ms generalizing c with
  | nil => rfl
  | cons m rest ih =>
      rw [List.foldl_cons, ih, get?_insert, last?_cons, Option.or_assoc]
      split_ifs <;> rfl

/-- A collected catalogue has the last record of each identifier. -/
theorem get?_ofList (ms : List Material) (id : String) :
    (ofList ms).get? id = Material.last? ms id := by
  rw [ofList, get?_inserted]
  exact Option.or_none

/-! ### The list of records -/

/-- Every record is found under its identifier. -/
theorem get?_id {m : Material} (h : m ∈ c.toList) : c.get? m.id = some m :=
  get?_eq_some_iff.mpr ⟨h, rfl⟩

/-- The list of records is what the identifiers and their records make it. -/
theorem toList_eq_filterMap (c : Catalog) : c.toList = c.ids.filterMap c.get? := by
  rw [ids, List.filterMap_map]
  exact ((List.filterMap_congr fun m hm => get?_id hm).trans List.filterMap_some).symm

/-- The identifiers of a catalogue are those that it contains. -/
theorem mem_ids_iff {id : String} : id ∈ c.ids ↔ c.contains id = true := by
  rw [ids, List.mem_map, contains, List.any_eq_true]
  simp only [beq_iff_eq]

/-- Placing a record under its identifier, in a table that holds the identifiers apart. -/
theorem setEntry_keyed (m : Material) (ms : List Material) :
    Reader.setEntry m.id m (ms.map fun o => (o.id, o)) = (place m ms).map fun o => (o.id, o) := by
  induction ms with
  | nil => rfl
  | cons x rest ih =>
      rw [List.map_cons, Reader.setEntry, place, ih]
      split_ifs <;> simp_all

/-- A table that holds the identifiers apart from the records, with the last record for each. -/
theorem entries_ofList (ms : List Material) :
    Reader.distinctEntries (ms.map fun m => (m.id, m)) =
      (ofList ms).toList.map fun m => (m.id, m) := by
  have hfold : ∀ (rest : List Material) (c : Catalog),
      rest.foldl (fun acc m => Reader.setEntry m.id m acc) (c.toList.map fun m => (m.id, m)) =
        (rest.foldl insert c).toList.map fun m => (m.id, m) := by
    intro rest
    induction rest with
    | nil => exact fun _ => rfl
    | cons m rest ih =>
        intro c
        rw [List.foldl_cons, toList, setEntry_keyed]
        exact ih (c.insert m)
  rw [Reader.distinctEntries, List.foldl_map]
  exact hfold ms empty

/-- A collected catalogue gives the records back as they came if no identifier repeats. -/
theorem toList_ofList_iff : (ofList ms).toList = ms ↔ (ms.map Material.id).Nodup := by
  constructor
  · intro h
    have hdistinct := (ofList ms).distinct
    rw [← toList, h] at hdistinct
    exact hdistinct
  · intro h
    exact congrArg toList (ofList_toList ⟨ms, h⟩)

/-! ### What a collected catalogue answers -/

/-- A catalogue answers as the records that it was collected from want it. -/
structure CollectedFrom (c : Catalog) (ms : List Material) : Prop where
  /-- Every identifier stands once, and in the order of the first records. -/
  ids : FirstSeen c.ids (ms.map Material.id)
  /-- In the place of an identifier stands the last of its records. -/
  toList : c.toList = c.ids.filterMap (Material.last? ms)
  /-- A table with the identifiers as keys has the same records, each under its own identifier. -/
  entries : Reader.distinctEntries (ms.map fun m => (m.id, m)) = c.toList.map fun m => (m.id, m)
  get? : ∀ id, c.get? id = Material.last? ms id
  contains : ∀ id, c.contains id = true ↔ ∃ m ∈ ms, m.id = id
  size : c.size = (ms.map Material.id).toFinset.card
  ofCategory : ∀ category, c.ofCategory category =
    c.ids.filterMap fun id => (Material.last? ms id).filter fun m => m.category == category
  /-- Collecting the records of the catalogue gives the same catalogue, in the same order. -/
  again : ofList c.toList = c
  /-- The records come back as they were exactly if no identifier repeats. -/
  toList_eq_iff : c.toList = ms ↔ (ms.map Material.id).Nodup

/-- A catalogue is collected from the list that it was made of. -/
theorem collectedFrom_ofList (ms : List Material) : CollectedFrom (ofList ms) ms := by
  have hids := firstSeen_ofList ms
  have hget : (ofList ms).get? = Material.last? ms := funext (get?_ofList ms)
  have hlist : (ofList ms).toList = (ofList ms).ids.filterMap (Material.last? ms) := by
    rw [← hget]
    exact toList_eq_filterMap _
  refine ⟨hids, hlist, entries_ofList ms, get?_ofList ms, fun id => ?_, ?_, fun category => ?_,
    ofList_toList _, toList_ofList_iff⟩
  · rw [← mem_ids_iff, hids.mem, List.mem_map]
  · have hsame : (ofList ms).ids.toFinset = (ms.map Material.id).toFinset := by
      ext id
      rw [List.mem_toFinset, List.mem_toFinset, hids.mem]
    have hdistinct : (ofList ms).ids.Nodup := (ofList ms).distinct
    rw [← hsame, List.toFinset_card_of_nodup hdistinct, Catalog.ids, List.length_map]
    rfl
  · rw [← List.filter_filterMap, ← hlist]
    rfl

/-- **A catalogue collects records.**  Whatever records come, and whatever is inserted afterwards,
the catalogue holds for every identifier the last record, in the place of the first one; everything
that it answers agrees with that, collecting it again changes nothing, and it gives the records back
as they came exactly if no identifier repeats. -/
theorem collects_records (ms inserted : List Material) :
    CollectedFrom (ofList ms) ms ∧
      CollectedFrom (inserted.foldl insert (ofList ms)) (ms ++ inserted) := by
  refine ⟨collectedFrom_ofList ms, ?_⟩
  have happend : inserted.foldl insert (ofList ms) = ofList (ms ++ inserted) := by
    rw [ofList, ofList, List.foldl_append]
  rw [happend]
  exact collectedFrom_ofList (ms ++ inserted)

/-- A record that comes again, under a blank identifier, takes the place of the first one. -/
example : (ofList [{ id := " " }, { id := "B" }, { id := " ", category := "x" }]).toList =
    [{ id := " ", category := "x" }, { id := "B" }] := by
  decide

end Catalog

end SolarBill
