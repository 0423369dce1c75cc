import SolarBill.Proofs.Booking.Saga
import SolarBill.Proofs.Booking.Stock

/-!
# Stock is conserved

Bookings follow each other on one stock room, and any call may fail before it reaches the room.

* `Sound` — the accounts of the room are kept, and every state it went through stayed within the
  levels of the start;
* `takeOut_sound`, `putBack_sound`, `commit_sound` — taking lines out, putting them back and a whole
  booking keep it, and say what is held afterwards;
* `stock_conserved` — what is missing after any number of bookings is what the recorded ones booked
  and what the others reported that they could not put back.
-/

namespace SolarBill

open Double

namespace StockStore

variable {σ : Type}

/-- The store that also keeps the states its calls lead to, the first one first. -/
def tracked (store : StockStore σ) : StockStore (σ × List σ) where
  applyDelta id change s :=
    let (answer, next) := store.applyDelta id change s.1
    (answer, next, s.2 ++ [next])
  recordBooking record s :=
    let (answer, next) := store.recordBooking record s.1
    (answer, next, s.2 ++ [next])

/-- Counting the operations changes no answer. -/
theorem tracked_extends (store : StockStore σ) : store.tracked.Extends store Prod.fst where
  applyDelta _ _ _ := rfl
  recordBooking _ _ := rfl

end StockStore

namespace Booking

/-! ### Bookings one after the other -/

/-- A review to book, with the catalogue and the request it is booked with. -/
structure Order where
  review : Review
  catalog : Catalog
  request : BookingRequest

namespace Order

/-- What is recorded when the order is booked. -/
def record (order : Order) : BookingRecord :=
  .snapshot order.request order.review order.catalog

/-- Every material has one line, with a whole quantity. -/
structure Whole (order : Order) : Prop where
  distinct : (order.review.lines.map Line.materialId).Nodup
  quantity : ∀ l ∈ order.review.lines, IsWhole l.quantity

/-- The record names the materials of the review. -/
theorem record_materials (order : Order) :
    order.record.lines.map BookedLine.materialId = order.review.lines.map Line.materialId := by
  simp [record, BookingRecord.snapshot]

/-- A record of whole orders names each material once. -/
theorem Whole.record_distinct {order : Order} (h : order.Whole) :
    (order.record.lines.map BookedLine.materialId).Nodup := by
  rw [record_materials]
  exact h.distinct

/-- Its quantities are whole. -/
theorem Whole.record_quantity {order : Order} (h : order.Whole) :
    ∀ l ∈ order.record.lines, IsWhole l.quantity := by
  intro l hl
  obtain ⟨line, hline, rfl⟩ := List.mem_map.mp hl
  exact h.quantity line hline

end Order

/-- An order and how its booking went. -/
abbrev Settled := Order × Except BookingError BookingReceipt

/-- Book orders one after the other. -/
def commitAll {σ : Type} (store : StockStore σ) : List Order → σ → List Settled × σ
  | [], s => ([], s)
  | order :: rest, s =>
    let (outcome, s) := commit store order.review order.catalog order.request s
    let (settled, s) := commitAll store rest s
    ((order, outcome) :: settled, s)

/-- The record of a booking that went through. -/
def recordOf? : Except BookingError BookingReceipt → Option BookingRecord
  | .ok receipt => some receipt.record
  | .error _ => none

/-- The records of the bookings that went through. -/
def records (settled : List Settled) : List BookingRecord :=
  settled.filterMap fun entry => recordOf? entry.2

/-- Quantity of a material that a booking reports it could not put back. -/
def stranded (order : Order) (outcome : Except BookingError BookingReceipt) (m : String) : ℚ :=
  match outcome with
  | .error (.rollbackIncomplete _ unreverted) =>
    if m ∈ unreverted then demand order.record.lines m else 0
  | _ => 0

/-- Quantity of a material that bookings hold: what they recorded and what they stranded. -/
def heldBy (settled : List Settled) (m : String) : ℚ :=
  ((records settled).map fun record => demand record.lines m).sum +
    (settled.map fun entry => stranded entry.1 entry.2 m).sum

theorem records_cons (entry : Settled) (rest : List Settled) :
    records (entry :: rest) = records [entry] ++ records rest := by
  rw [records, records, records, ← List.filterMap_append, List.singleton_append]

theorem heldBy_cons (entry : Settled) (rest : List Settled) :
    heldBy (entry :: rest) = heldBy [entry] + heldBy rest := by
  funext m
  rw [Pi.add_apply, heldBy, heldBy, heldBy, records_cons]
  simp only [List.map_append, List.sum_append, List.map_cons, List.sum_cons, List.map_nil,
    List.sum_nil]
  ring

/-- There are as many records as bookings that went through. -/
theorem length_records (settled : List Settled) :
    (records settled).length = settled.countP fun entry => entry.2.isOk := by
  induction settled with
  | nil => rfl
  | cons entry rest ih =>
      rw [records_cons, List.length_append, ih, List.countP_cons, add_comm]
      rcases entry with ⟨order, _ | receipt⟩ <;> rfl

/-- A store with something added to it settles all orders as the store itself. -/
theorem commitAll_extends {σ τ : Type} {big : StockStore τ} {small : StockStore σ}
    {forget : τ → σ} (h : big.Extends small forget) (orders : List Order) (t : τ) :
    commitAll small orders (forget t) =
      ((commitAll big orders t).1, forget (commitAll big orders t).2) := by
  induction orders generalizing t with
  | nil => rfl
  | cons order rest ih => simp only [commitAll, commit_extends h, ih]

/-! ### Single calls -/

/-- A room within the levels of the start: the same materials, in whole numbers, and none of them
below zero or above its first level. -/
structure Within (start room : StockRoom) : Prop where
  whole : room.Whole
  stocked : ∀ m, (room.level? m).isSome = (start.level? m).isSome
  bounds : ∀ m, 0 ≤ room.stock m ∧ room.stock m ≤ start.stock m

/-- Accounts keep a room within the levels at the start. -/
theorem within_of_accounts {start room : StockRoom} {held : String → ℚ}
    (h : Accounts start held room) : Within start room :=
  ⟨h.whole, h.stocked, fun m => ⟨h.whole.stock_nonneg m, h.stock_le m⟩⟩

/-- A stock room whose calls are counted and may be intercepted, with all its past states. -/
abbrev Watched :=
  (StockRoom × Nat) × List (StockRoom × Nat)

/-- The stock room as a store, where chosen calls fail before they reach it. -/
abbrev watched (faults : Nat → Option String) : StockStore Watched :=
  (StockRoom.store.interrupted faults).tracked

/-- The accounts are kept now, and the room never left the levels of the start. -/
structure Sound (start : StockRoom) (held : String → ℚ) (t : Watched) : Prop where
  accounts : Accounts start held t.1.1
  history : ∀ s ∈ t.2, Within start s.1

namespace Sound

variable {start : StockRoom} {held held' : String → ℚ} {t : Watched}
  (faults : Nat → Option String)

/-- One more state of the history that keeps within the levels. -/
theorem extend (h : Sound start held t) {s : StockRoom × Nat} (hs : Accounts start held' s.1) :
    Sound start held' (s, t.2 ++ [s]) := by
  refine ⟨hs, fun past hpast => ?_⟩
  rcases List.mem_append.mp hpast with hpast | hpast
  · exact h.history past hpast
  · rw [List.mem_singleton.mp hpast]
    exact within_of_accounts hs

/-- A change of a level, intercepted or not: it does what the room does, or nothing. -/
theorem applyDelta (h : Sound start held t) {id : String} {change : Float}
    (hroom : (∃ next, t.1.1.applyDelta id change = (.ok (), next) ∧
      Accounts start held' next ∧ next.bookings = t.1.1.bookings) ∨
      ∃ cause, t.1.1.applyDelta id change = (.error cause, t.1.1)) :
    (∃ t', (watched faults).applyDelta id change t = (.ok (), t') ∧
      Sound start held' t' ∧ t'.1.1.bookings = t.1.1.bookings) ∨
    ∃ cause t', (watched faults).applyDelta id change t = (.error cause, t') ∧
      Sound start held t' ∧ t'.1.1.bookings = t.1.1.bookings := by
  simp only [StockStore.tracked, StockStore.interrupted, StockRoom.store]
  cases faults t.1.2 with
  | some reason => exact Or.inr ⟨_, _, rfl, h.extend h.accounts, rfl⟩
  | none =>
      rcases hroom with ⟨next, hcall, haccounts, hbookings⟩ | ⟨cause, hcall⟩
      · rw [hcall]
        exact Or.inl ⟨_, rfl, h.extend haccounts, hbookings⟩
      · rw [hcall]
        exact Or.inr ⟨_, _, rfl, h.extend h.accounts, rfl⟩

/-- Recording leaves the levels alone, whether it works or not. -/
theorem recordBooking (h : Sound start held t) (record : BookingRecord) :
    (∃ t', (watched faults).recordBooking record t = (.ok (), t') ∧
      Sound start held t' ∧ t'.1.1.bookings = t.1.1.bookings ++ [record]) ∨
    ∃ cause t', (watched faults).recordBooking record t = (.error cause, t') ∧
      Sound start held t' ∧ t'.1.1.bookings = t.1.1.bookings := by
  simp only [StockStore.tracked, StockStore.interrupted, StockRoom.store]
  cases faults t.1.2 with
  | some reason => exact Or.inr ⟨_, _, rfl, h.extend h.accounts, rfl⟩
  | none => exact Or.inl ⟨_, rfl, h.extend (h.accounts.record record), rfl⟩

end Sound

/-! ### Whole bookings -/

variable {start : StockRoom} {held : String → ℚ} {t : Watched} (faults : Nat → Option String)

/-- Lines that are taken out are held, up to the first one that cannot be taken. -/
theorem takeOut_sound (lines taken : List BookedLine) (h : Sound start held t)
    (hlines : ∀ l ∈ lines, IsWhole l.quantity) :
    ∃ done t', done <+: lines ∧ Sound start (held + demand done) t' ∧
      t'.1.1.bookings = t.1.1.bookings ∧
      (takeOut (watched faults) lines taken t = (none, done.reverse ++ taken, t') ∧ done = lines ∨
        ∃ cause, takeOut (watched faults) lines taken t =
          (some cause, done.reverse ++ taken, t')) := by
  induction lines generalizing taken held t with
  | nil =>
      refine ⟨[], t, List.prefix_rfl, ?_, rfl, Or.inl ⟨rfl, rfl⟩⟩
      rw [demand_nil, add_zero]
      exact h
  | cons line rest ih =>
      have hwhole := hlines line List.mem_cons_self
      rcases h.applyDelta faults (h.accounts.take hwhole) with
        ⟨next, hcall, hnext, hbookings⟩ | ⟨cause, next, hcall, hnext, hbookings⟩
      · obtain ⟨done, t', hprefix, hsound, hsame, hrun⟩ :=
          ih (line :: taken) hnext fun l hl => hlines l (List.mem_cons_of_mem _ hl)
        refine ⟨line :: done, t', List.cons_prefix_cons.mpr ⟨rfl, hprefix⟩, ?_,
          hsame.trans hbookings, ?_⟩
        · rw [demand_cons, ← add_assoc]
          exact hsound
        · rw [takeOut_cons_ok hcall, List.reverse_cons, List.append_assoc, List.singleton_append]
          rcases hrun with ⟨hrun, hdone⟩ | hrun
          · exact Or.inl ⟨hrun, by rw [hdone]⟩
          · exact Or.inr hrun
      · refine ⟨[], next, List.nil_prefix, ?_, hbookings, Or.inr ⟨cause, ?_⟩⟩
        · rw [demand_nil, add_zero]
          exact hnext
        · exact takeOut_cons_error hcall rest taken

/-- Lines that are put back are not held any more, except those that are named. -/
theorem putBack_sound (lines : List BookedLine) (h : Sound start (held + demand lines) t)
    (hheld : ∀ m, 0 ≤ held m) (hlines : ∀ l ∈ lines, IsWhole l.quantity) :
    ∃ kept t', kept.Sublist lines ∧ Sound start (held + demand kept) t' ∧
      t'.1.1.bookings = t.1.1.bookings ∧
      putBack (watched faults) lines t = (kept.map BookedLine.materialId, t') := by
  -- What is held falls by every line that goes back, so `held` is general in the induction.
  induction lines generalizing held t with
  | nil => exact ⟨[], t, List.Sublist.refl _, h, rfl, rfl⟩
  | cons line rest ih =>
      have hwhole := hlines line List.mem_cons_self
      have hrest : ∀ l ∈ rest, IsWhole l.quantity :=
        fun l hl => hlines l (List.mem_cons_of_mem _ hl)
      have hothers : ∀ m, 0 ≤ (held + demand rest) m :=
        fun m => add_nonneg (hheld m) (demand_nonneg hrest m)
      rw [demand_cons, add_comm (demand [line]), ← add_assoc] at h
      rcases h.applyDelta faults (h.accounts.put hothers hwhole) with
        ⟨next, hcall, hnext, hbookings⟩ | ⟨cause, next, hcall, hnext, hbookings⟩
      · obtain ⟨kept, t', hkept, hsound, hsame, hrun⟩ := ih hnext hheld hrest
        refine ⟨kept, t', hkept.cons line, hsound, hsame.trans hbookings, ?_⟩
        rw [putBack_cons hcall, hrun]
        rfl
      · -- The line stays held, and the rest goes back as if the line had been held all along.
        have hline : ∀ m, 0 ≤ (held + demand [line]) m := by
          intro m
          refine add_nonneg (hheld m) (demand_nonneg ?_ m)
          intro l hl
          rw [List.mem_singleton.mp hl]
          exact hwhole
        rw [add_assoc, add_comm (demand rest), ← add_assoc] at hnext
        obtain ⟨kept, t', hkept, hsound, hsame, hrun⟩ := ih hnext hline hrest
        refine ⟨line :: kept, t', hkept.cons_cons line, ?_, hsame.trans hbookings, ?_⟩
        · rw [demand_cons, ← add_assoc]
          exact hsound
        · rw [putBack_cons hcall, hrun]
          rfl

/-- What a failure strands is what was booked of the materials that it reports. -/
theorem stranded_failure (order : Order) (cause : StockError) (materials : List String)
    (m : String) :
    stranded order (.error (failure cause materials)) m =
      if m ∈ materials then demand order.record.lines m else 0 := by
  cases materials with
  | nil => rfl
  | cons first rest => rfl

/-- A booking that is taken back holds what it reports. -/
theorem heldBy_failure {order : Order} (horder : order.Whole) {kept done : List BookedLine}
    (hdone : done <+: order.record.lines) (hkept : kept.Sublist done.reverse) (cause : StockError) :
    heldBy [(order, .error (failure cause (kept.map BookedLine.materialId)))] = demand kept := by
  have hdistinct : (kept.map BookedLine.materialId).Nodup := by
    have hreverse : (done.reverse.map BookedLine.materialId).Nodup := by
      rw [List.map_reverse, List.nodup_reverse]
      exact horder.record_distinct.sublist (hdone.sublist.map _)
    exact hreverse.sublist (hkept.map _)
  have hsubset : kept ⊆ order.record.lines := by
    intro l hl
    exact hdone.subset (List.mem_reverse.mp (hkept.subset hl))
  funext m
  rw [demand_of_subset hdistinct horder.record_distinct hsubset m, ← stranded_failure order cause]
  simp [heldBy, records, recordOf?]

/-- Nothing is held by an order that was refused at once, or was put back. -/
theorem heldBy_refused (order : Order) (e : BookingError)
    (h : ∀ cause materials, e ≠ .rollbackIncomplete cause materials) :
    heldBy [(order, .error e)] = 0 := by
  funext m
  have hnone : stranded order (.error e) m = 0 := by
    cases e with
    | rollbackIncomplete cause materials => exact absurd rfl (h cause materials)
    | blocked warnings => rfl
    | empty => rfl
    | rolledBack cause => rfl
  simp [heldBy, records, recordOf?, hnone]

/-- What has been taken is put back, and what could not be is held. -/
theorem putBack_done_sound {order : Order} (horder : order.Whole) {done : List BookedLine}
    (hdone : done <+: order.record.lines) (hheld : ∀ m, 0 ≤ held m)
    (h : Sound start (held + demand done) t) (cause : StockError) :
    ∃ materials t', putBack (watched faults) done.reverse t = (materials, t') ∧
      Sound start (held + heldBy [(order, .error (failure cause materials))]) t' ∧
      t'.1.1.bookings = t.1.1.bookings := by
  rw [← demand_reverse] at h
  obtain ⟨kept, t', hkept, hsound, hbookings, hrun⟩ := putBack_sound faults done.reverse h hheld
    fun l hl => horder.record_quantity l (hdone.subset (List.mem_reverse.mp hl))
  refine ⟨_, t', hrun, ?_, hbookings⟩
  rw [heldBy_failure horder hdone hkept]
  exact hsound

/-- A booking keeps the accounts and records itself when it goes through. -/
theorem commit_sound (order : Order) (horder : order.Whole) (h : Sound start held t) :
    ∃ outcome t', commit (watched faults) order.review order.catalog order.request t =
        (outcome, t') ∧
      Sound start (held + heldBy [(order, outcome)]) t' ∧
      t'.1.1.bookings = t.1.1.bookings ++ records [(order, outcome)] := by
  have hheld := h.accounts.held_nonneg
  -- What the store loses is held by the booking: nothing when it is refused, the whole demand when
  -- it is recorded, and otherwise the lines that could not be put back.
  cases hcommit : order.review.canCommit with
  | false =>
      refine ⟨_, t, commit_refused _ _ _ _ hcommit, ?_, ?_⟩
      · rw [heldBy_refused, add_zero]
        · exact h
        · intro cause materials
          split_ifs <;> exact BookingError.noConfusion
      · exact (List.append_nil _).symm
  | true =>
      obtain ⟨done, next, hdone, hnext, hbookings, htake⟩ :=
        takeOut_sound faults order.record.lines [] h horder.record_quantity
      rw [List.append_nil] at htake
      rcases htake with ⟨htake, rfl⟩ | ⟨cause, htake⟩
      · rcases hnext.recordBooking faults order.record with
          ⟨last, hrecord, hlast, hrecorded⟩ | ⟨cause, last, hrecord, hlast, hsame⟩
        · refine ⟨_, last, commit_booked hcommit htake hrecord, ?_, ?_⟩
          · have hbooked : heldBy [(order, .ok ⟨order.record, order.record.lines.length⟩)] =
                demand order.record.lines := by
              funext m
              simp [heldBy, records, recordOf?, stranded]
            exact hbooked ▸ hlast
          · rw [hrecorded, hbookings]
            rfl
        · obtain ⟨materials, t', hundo, hsound, hundone⟩ :=
            putBack_done_sound faults horder hdone hheld hlast cause
          refine ⟨_, t', ?_, hsound, ?_⟩
          · rw [commit_unrecorded hcommit htake hrecord, hundo]
          · rw [hundone, hsame, hbookings]
            exact (List.append_nil _).symm
      · obtain ⟨materials, t', hundo, hsound, hundone⟩ :=
          putBack_done_sound faults horder hdone hheld hnext cause
        refine ⟨_, t', ?_, hsound, ?_⟩
        · rw [commit_untaken hcommit htake, hundo]
        · rw [hundone, hbookings]
          exact (List.append_nil _).symm

/-- Bookings one after the other keep the accounts. -/
theorem commitAll_sound (orders : List Order) (horders : ∀ order ∈ orders, order.Whole)
    (h : Sound start held t) :
    ∃ settled t', commitAll (watched faults) orders t = (settled, t') ∧
      Sound start (held + heldBy settled) t' ∧
      t'.1.1.bookings = t.1.1.bookings ++ records settled := by
  induction orders generalizing held t with
  | nil =>
      refine ⟨[], t, rfl, ?_, (List.append_nil _).symm⟩
      have hnone : heldBy [] = 0 := by
        funext m
        simp [heldBy, records]
      rw [hnone, add_zero]
      exact h
  | cons order rest ih =>
      obtain ⟨outcome, next, hcommit, hnext, hbookings⟩ :=
        commit_sound faults order (horders order List.mem_cons_self) h
      obtain ⟨settled, t', hrun, hsound, hmore⟩ :=
        ih (fun o ho => horders o (List.mem_cons_of_mem _ ho)) hnext
      refine ⟨(order, outcome) :: settled, t', ?_, ?_, ?_⟩
      · simp only [commitAll, hcommit, hrun]
      · rw [heldBy_cons, ← add_assoc]
        exact hsound
      · rw [hmore, hbookings, records_cons (order, outcome) settled, List.append_assoc]

/-- **Stock is conserved.**  However many orders are booked and whichever calls fail before they
reach the stock room, what is missing of a material is what the recorded bookings have of it and
what the bookings could not put back that reported so.  In every state on the way, each level is a
whole number from zero to its first level; and there is one record for each booking that went
through. -/
theorem stock_conserved (room : StockRoom) (hroom : room.Whole) (orders : List Order)
    (horders : ∀ order ∈ orders, order.Whole) (faults : Nat → Option String) :
    ∃ settled final calls history,
      commitAll (StockRoom.store.interrupted faults) orders (room, 0) = (settled, final, calls) ∧
      commitAll (StockRoom.store.interrupted faults).tracked orders ((room, 0), []) =
        (settled, (final, calls), history) ∧
      final.bookings = room.bookings ++ records settled ∧
      ((records settled).length = settled.countP fun entry => entry.2.isOk) ∧
      (∀ m, room.stock m = final.stock m +
        ((records settled).map fun record => demand record.lines m).sum +
        (settled.map fun entry => stranded entry.1 entry.2 m).sum) ∧
      ∀ s ∈ (final, calls) :: history, Within room s.1 := by
  have hstart : Sound room 0 ((room, 0), []) :=
    ⟨.refl hroom, fun s hs => absurd hs List.not_mem_nil⟩
  obtain ⟨settled, ⟨⟨final, calls⟩, history⟩, hrun, hsound, hbookings⟩ :=
    commitAll_sound faults orders horders hstart
  refine ⟨settled, final, calls, history, ?_, hrun, hbookings, length_records settled, ?_, ?_⟩
  · have hplain := commitAll_extends (StockRoom.store.interrupted faults).tracked_extends orders
      ((room, 0), [])
    rw [hrun] at hplain
    exact hplain
  · intro m
    have hbalance := hsound.accounts.balance m
    rw [zero_add, heldBy, ← add_assoc] at hbalance
    exact hbalance
  · intro s hs
    rcases List.mem_cons.mp hs with rfl | hs
    · exact within_of_accounts hsound.accounts
    · exact hsound.history s hs

/-- An order of some quantities, with an empty catalogue. -/
def Order.ofQuantities (quantities : List (String × Float)) : Order where
  review := { lines := quantities.map fun entry => Line.manual entry.1 entry.2 .empty }
  catalog := .empty
  request := ⟨"customer", "project"⟩

/-- Ten hooks and one meter. -/
def smallRoom : StockRoom := .ofStock [("HOOK", 10.0), ("METER", 1.0)]

/-- The first order asks for a meter that is not there, so that its hooks are to be put back. -/
def smallOrders : List Order :=
  [.ofQuantities [("HOOK", 2.0), ("METER", 2.0)], .ofQuantities [("HOOK", 3.0)]]

/-- The call that would put the hooks back fails. -/
def smallFaults (n : Nat) : Option String :=
  if n = 2 then some "maintenance" else none

/-- The levels of the small room are whole. -/
theorem small_whole : smallRoom.Whole := by
  intro id x hx
  have hx : List.lookup id [("HOOK", 10.0), ("METER", 1.0)] = some x := hx
  rw [StockRoom.lookup_cons, StockRoom.lookup_cons] at hx
  split_ifs at hx
  · obtain rfl := Option.some.inj hx
    exact ⟨rfl, 10, by norm_num, by decide +kernel⟩
  · obtain rfl := Option.some.inj hx
    exact ⟨rfl, 1, by norm_num, by decide +kernel⟩
  · exact absurd hx (by simp)

theorem smallOrders_whole : ∀ order ∈ smallOrders, order.Whole := by
  intro order horder
  rcases List.mem_cons.mp horder with rfl | horder
  · refine ⟨by decide, ?_⟩
    intro l hl
    fin_cases hl
    · exact ⟨rfl, 2, by norm_num, by decide +kernel⟩
    · exact ⟨rfl, 2, by norm_num, by decide +kernel⟩
  · obtain rfl := List.mem_singleton.mp horder
    refine ⟨by decide, ?_⟩
    intro l hl
    obtain rfl := List.mem_singleton.mp hl
    exact ⟨rfl, 3, by norm_num, by decide +kernel⟩

/-- Ten hooks are five in the room, three in a booking, and two that could not be put back. -/
theorem stock_conserved_hooks :
    smallRoom.Whole ∧ (∀ order ∈ smallOrders, order.Whole) ∧
      ∃ settled final calls,
        commitAll (StockRoom.store.interrupted smallFaults) smallOrders (smallRoom, 0) =
          (settled, final, calls) ∧
        final.levels = [("HOOK", 5.0), ("METER", 1.0)] ∧
        settled.map Prod.snd =
          [.error (.rollbackIncomplete (.insufficient "METER" 1.0 2.0) ["HOOK"]),
            .ok ⟨(Order.ofQuantities [("HOOK", 3.0)]).record, 1⟩] ∧
        smallRoom.stock "HOOK" = final.stock "HOOK" +
          ((records settled).map fun record => demand record.lines "HOOK").sum +
          (settled.map fun entry => stranded entry.1 entry.2 "HOOK").sum := by
  obtain ⟨settled, final, calls, history, hrun, -, -, -, hbalance, -⟩ :=
    stock_conserved smallRoom small_whole smallOrders smallOrders_whole smallFaults
  refine ⟨small_whole, smallOrders_whole, settled, final, calls, hrun, ?_, ?_, hbalance "HOOK"⟩
  · have hlevels : (commitAll (StockRoom.store.interrupted smallFaults) smallOrders
        (smallRoom, 0)).2.1.levels = [("HOOK", 5.0), ("METER", 1.0)] := by
      decide
    rw [hrun] at hlevels
    exact hlevels
  · have houtcomes : (commitAll (StockRoom.store.interrupted smallFaults) smallOrders
        (smallRoom, 0)).1.map Prod.snd =
          [.error (.rollbackIncomplete (.insufficient "METER" 1.0 2.0) ["HOOK"]),
            .ok ⟨(Order.ofQuantities [("HOOK", 3.0)]).record, 1⟩] := by
      decide
    rw [hrun] at houtcomes
    exact houtcomes

end Booking

end SolarBill
