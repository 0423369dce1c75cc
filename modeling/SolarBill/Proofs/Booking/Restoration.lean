import SolarBill.Proofs.Booking.Conservation
import SolarBill.Proofs.Number.Restoring

/-!
# What a booking leaves that was rolled back

Rolling back adds every quantity again that was taken out, in reverse order; no level is remembered.
So what a level is afterwards is a matter of rounding, line by line:

* `Drains` — the lines that were taken, and what they left of each level;
* `restored` — a level after its quantities were taken out and put back;
* `restored_of_steady` — it is the same level as long as no quantity slips;
* `rolledBack_levels` — every level after a booking that was rolled back, whatever calls fail.
-/

namespace SolarBill

open Double

/-! ### One level -/

namespace Booking

/-- What is left of a level when quantities are taken out. -/
def drained (level : Float) (quantities : List Float) : Float :=
  quantities.foldl (fun x q => x + -q) level

/-- What becomes of a level when quantities are put in. -/
def refilled (level : Float) (quantities : List Float) : Float :=
  quantities.foldl (fun x q => x + q) level

/-- A level after quantities are taken out and put back, the last one first. -/
def restored (level : Float) (quantities : List Float) : Float :=
  refilled (drained level quantities) quantities.reverse

/-- A level that can give all quantities, one after the other. -/
def CanGive : Float → List Float → Prop
  | _, [] => True
  | level, q :: rest => ¬ level + -q < 0.0 ∧ CanGive (level + -q) rest

/-- No quantity slips where it is taken out. -/
def Steady : Float → List Float → Prop
  | _, [] => True
  | level, q :: rest => ¬ Slips level q ∧ Steady (level + -q) rest

theorem restored_cons (level q : Float) (rest : List Float) :
    restored level (q :: rest) = restored (level + -q) rest + q := by
  simp only [restored, refilled, drained, List.foldl_cons, List.reverse_cons, List.foldl_append,
    List.foldl_nil]

/-- What does not slip comes back. -/
theorem restored_of_steady {level : Float} {quantities : List Float} (hlevel : level.isFinite)
    (hquantities : ∀ q ∈ quantities, isPositive q = true) (hgive : CanGive level quantities)
    (hsteady : Steady level quantities) : restored level quantities = level := by
  induction quantities generalizing level with
  | nil => rfl
  | cons q rest ih =>
      obtain ⟨hgiven, hgive⟩ := hgive
      obtain ⟨hslip, hsteady⟩ := hsteady
      obtain ⟨hleft, hback⟩ := add_back hlevel (hquantities q List.mem_cons_self) hgiven
      have hrest := ih hleft (fun p hp => hquantities p (List.mem_cons_of_mem q hp)) hgive hsteady
      rw [restored_cons, hrest]
      exact hback.mpr hslip

/-- One quantity comes back exactly if it does not slip. -/
theorem restored_singleton_iff {level q : Float} (hlevel : level.isFinite)
    (hq : isPositive q = true) (hgive : CanGive level [q]) :
    restored level [q] = level ↔ ¬ Slips level q :=
  (add_back hlevel hq hgive.1).2

/-! ### Calls that may fail -/

section Interrupted

variable {faults : Nat → Option String} {room next final : StockRoom}

/-- A call of an interrupted stock room changes one level, or nothing. -/
theorem interrupted_applyDelta (faults : Nat → Option String) (id : String) (change : Float)
    (room : StockRoom) (n : Nat) :
    (∃ level, room.level? id = some level ∧ ¬ level + change < 0.0 ∧
      (StockRoom.store.interrupted faults).applyDelta id change (room, n) =
        (.ok (), room.withLevel id (level + change), n + 1)) ∨
    ∃ cause, (StockRoom.store.interrupted faults).applyDelta id change (room, n) =
      (.error cause, room, n + 1) := by
  cases hfault : faults n with
  | some reason => exact Or.inr ⟨.unavailable reason, by simp only [StockStore.interrupted, hfault]⟩
  | none =>
      rcases room.applyDelta_cases id change with ⟨level, hlevel, hlow, hok⟩ | ⟨cause, hrefused⟩
      · left
        refine ⟨level, hlevel, hlow, ?_⟩
        simp only [StockStore.interrupted, hfault, StockRoom.store, hok]
      · right
        refine ⟨cause, ?_⟩
        simp only [StockStore.interrupted, hfault, StockRoom.store, hrefused]

/-- Lines that were taken out of a stock room, and the room they left. -/
structure Drains (room : StockRoom) (done : List BookedLine) (next : StockRoom) : Prop where
  bookings : next.bookings = room.bookings
  level : ∀ m, next.level? m = (room.level? m).map fun x => drained x (quantitiesOf done m)
  canGive : ∀ m x, room.level? m = some x → CanGive x (quantitiesOf done m)

theorem Drains.nil (room : StockRoom) : Drains room [] room where
  bookings := rfl
  level m := by
    cases room.level? m <;> rfl
  canGive _ _ _ := trivial

/-- The first line takes its quantity out, and the others follow. -/
theorem Drains.cons {line : BookedLine} {done : List BookedLine} {level : Float}
    (hlevel : room.level? line.materialId = some level) (hlow : ¬ level + -line.quantity < 0.0)
    (h : Drains (room.withLevel line.materialId (level + -line.quantity)) done next) :
    Drains room (line :: done) next where
  bookings := h.bookings
  level m := by
    rw [h.level, StockRoom.level?_withLevel, quantitiesOf_cons]
    split_ifs with hm
    · rw [hm, hlevel]
      rfl
    · rfl
  canGive m x hx := by
    have hrest := h.canGive m
    rw [StockRoom.level?_withLevel] at hrest
    rw [quantitiesOf_cons]
    split_ifs with hm
    · rw [hm, hlevel] at hx
      obtain rfl := Option.some.inj hx
      rw [if_pos hm] at hrest
      exact ⟨hlow, hrest _ rfl⟩
    · rw [if_neg hm] at hrest
      exact hrest x hx

/-- Taking out stops at the first failure, and the lines before it have been taken. -/
theorem takeOut_drains (faults : Nat → Option String) (lines taken : List BookedLine)
    (room : StockRoom) (n : Nat) :
    ∃ failed done next n', takeOut (StockRoom.store.interrupted faults) lines taken (room, n) =
        (failed, done.reverse ++ taken, next, n') ∧
      done <+: lines ∧ Drains room done next := by
  induction lines generalizing taken room n with
  | nil => exact ⟨none, [], room, n, rfl, List.prefix_rfl, .nil room⟩
  | cons line rest ih =>
      rcases interrupted_applyDelta faults line.materialId (-line.quantity) room n with
        ⟨level, hlevel, hlow, hok⟩ | ⟨cause, hrefused⟩
      · obtain ⟨failed, done, next, n', hrun, hdone, hdrains⟩ := ih (line :: taken)
          (room.withLevel line.materialId (level + -line.quantity)) (n + 1)
        refine ⟨failed, line :: done, next, n', ?_, ?_, hdrains.cons hlevel hlow⟩
        · rw [takeOut_cons_ok hok, hrun]
          simp
        · exact (List.prefix_cons_inj line).mpr hdone
      · exact ⟨some cause, [], room, n + 1, takeOut_cons_error hrefused rest taken,
          List.nil_prefix, .nil room⟩

/-- Putting lines back without a failure changes the levels by their quantities. -/
theorem putBack_refills {lines : List BookedLine} {n n' : Nat}
    (h : putBack (StockRoom.store.interrupted faults) lines (room, n) = ([], next, n')) :
    next.bookings = room.bookings ∧
      ∀ m, next.level? m = (room.level? m).map fun x => refilled x (quantitiesOf lines m) := by
  induction lines generalizing room n with
  | nil =>
      obtain rfl : room = next := congrArg (fun answer => answer.2.1) h
      refine ⟨rfl, fun m => ?_⟩
      cases room.level? m <;> rfl
  | cons line rest ih =>
      rcases interrupted_applyDelta faults line.materialId line.quantity room n with
        ⟨level, hlevel, -, hok⟩ | ⟨cause, hrefused⟩
      · rw [putBack_cons hok] at h
        obtain ⟨hbookings, hlevels⟩ := ih h
        refine ⟨hbookings, fun m => ?_⟩
        rw [hlevels, StockRoom.level?_withLevel, quantitiesOf_cons]
        split_ifs with hm
        · rw [hm, hlevel]
          rfl
        · rfl
      · rw [putBack_cons hrefused] at h
        exact absurd (congrArg Prod.fst h) (List.cons_ne_nil _ _)

/-- A rollback that is reported as complete has put everything back. -/
theorem eq_nil_of_failure {cause cause' : StockError} {materials : List String}
    (h : failure cause materials = .rolledBack cause') : materials = [] := by
  cases materials with
  | nil => rfl
  | cons first rest => exact absurd h (by simp [failure])

/-- Once lines are taken, the booking goes through, or they are put back from where they left the
room: a record that fails changes nothing in it. -/
theorem commit_cases {order : Order} {failed : Option StockError} {taken : List BookedLine}
    {n : Nat} (hcommit : order.review.canCommit = true)
    (hrun : takeOut (StockRoom.store.interrupted faults) order.record.lines [] (room, 0) =
      (failed, taken, next, n)) :
    (∃ receipt last, commit (StockRoom.store.interrupted faults) order.review order.catalog
      order.request (room, 0) = (.ok receipt, last)) ∨
    ∃ cause n', commit (StockRoom.store.interrupted faults) order.review order.catalog
      order.request (room, 0) =
        (.error (failure cause (putBack (StockRoom.store.interrupted faults) taken (next, n')).1),
          (putBack (StockRoom.store.interrupted faults) taken (next, n')).2) := by
  cases failed with
  | some cause => exact Or.inr ⟨cause, n, commit_untaken hcommit hrun⟩
  | none =>
      cases hfault : faults n with
      | some reason =>
          have hrecord : (StockRoom.store.interrupted faults).recordBooking order.record (next, n) =
              (.error (.unavailable reason), next, n + 1) := by
            simp only [StockStore.interrupted, hfault]
          exact Or.inr ⟨_, n + 1, commit_unrecorded hcommit hrun hrecord⟩
      | none =>
          have hrecord : (StockRoom.store.interrupted faults).recordBooking order.record (next, n) =
              (.ok (), (next.recordBooking order.record).2, n + 1) := by
            simp only [StockStore.interrupted, hfault]
            rfl
          exact Or.inl ⟨_, _, commit_booked hcommit hrun hrecord⟩

/-- A booking that was rolled back took some of its lines and put all of these back. -/
theorem rolledBack_cases {order : Order} {cause : StockError} {calls : Nat}
    (h : commit (StockRoom.store.interrupted faults) order.review order.catalog order.request
      (room, 0) = (.error (.rolledBack cause), final, calls)) :
    ∃ done next n, (takeOut (StockRoom.store.interrupted faults) order.record.lines []
        (room, 0)).2.1 = done.reverse ∧
      done <+: order.record.lines ∧ Drains room done next ∧
      putBack (StockRoom.store.interrupted faults) done.reverse (next, n) =
        ([], final, calls) := by
  cases hcommit : order.review.canCommit with
  | false =>
      rw [commit_refused _ _ _ _ hcommit] at h
      split_ifs at h <;> cases congrArg Prod.fst h
  | true =>
      obtain ⟨failed, done, next, n, hrun, hdone, hdrains⟩ :=
        takeOut_drains faults order.record.lines [] room 0
      rw [List.append_nil] at hrun
      rcases commit_cases hcommit hrun with ⟨receipt, last, hbooked⟩ | ⟨cause', n', hfailed⟩
      · rw [hbooked] at h
        cases congrArg Prod.fst h
      · rw [hfailed, Prod.mk.injEq, Except.error.injEq] at h
        exact ⟨done, next, n', by rw [hrun], hdone, hdrains,
          Prod.ext (eq_nil_of_failure h.1) h.2⟩

end Interrupted

/-! ### Levels after a rollback -/

/-- A stock room after lines were taken out of it and put back. -/
structure Restores (room : StockRoom) (done : List BookedLine) (final : StockRoom) : Prop where
  bookings : final.bookings = room.bookings
  level : ∀ m, final.level? m = (room.level? m).map fun x => restored x (quantitiesOf done m)
  canGive : ∀ m x, room.level? m = some x → CanGive x (quantitiesOf done m)

/-- Lines that were taken out and put back without a failure. -/
theorem Drains.restores {faults : Nat → Option String} {room next final : StockRoom}
    {done : List BookedLine} {n n' : Nat} (h : Drains room done next)
    (hback : putBack (StockRoom.store.interrupted faults) done.reverse (next, n) =
      ([], final, n')) : Restores room done final := by
  obtain ⟨hbookings, hlevels⟩ := putBack_refills hback
  refine ⟨hbookings.trans h.bookings, fun m => ?_, h.canGive⟩
  rw [hlevels, h.level, quantitiesOf_reverse, Option.map_map]
  rfl

namespace Restores

variable {room final : StockRoom} {done : List BookedLine}

/-- A level is the same if none of its quantities slips. -/
theorem level_of_steady (h : Restores room done final)
    (hdone : ∀ l ∈ done, isPositive l.quantity = true) {m : String} {x : Float}
    (hx : room.level? m = some x) (hfinite : x.isFinite)
    (hsteady : Steady x (quantitiesOf done m)) : final.level? m = some x := by
  have hquantities : ∀ q ∈ quantitiesOf done m, isPositive q = true := by
    intro q hq
    obtain ⟨l, hl, -, rfl⟩ := mem_quantitiesOf hq
    exact hdone l hl
  rw [h.level, hx, Option.map_some,
    restored_of_steady hfinite hquantities (h.canGive m x hx) hsteady]

/-- Where every material has one line, a level is the same exactly if that line does not slip. -/
theorem level_iff (h : Restores room done final)
    (hdistinct : (done.map BookedLine.materialId).Nodup) {line : BookedLine} (hline : line ∈ done)
    (hpositive : isPositive line.quantity = true) {x : Float}
    (hx : room.level? line.materialId = some x) (hfinite : x.isFinite) :
    final.level? line.materialId = some x ↔ ¬ Slips x line.quantity := by
  have hgive := h.canGive line.materialId x hx
  rw [quantitiesOf_of_mem hdistinct hline] at hgive
  rw [h.level, hx, quantitiesOf_of_mem hdistinct hline, Option.map_some, Option.some.injEq]
  exact restored_singleton_iff hfinite hpositive hgive

/-- All levels are the same as before exactly when no line slips at its level. -/
theorem levels_iff (h : Restores room done final)
    (hdistinct : (done.map BookedLine.materialId).Nodup)
    (hdone : ∀ l ∈ done, isPositive l.quantity = true)
    (hroom : ∀ m x, room.level? m = some x → x.isFinite) :
    (∀ m, final.level? m = room.level? m) ↔
      ∀ l ∈ done, ∀ x, room.level? l.materialId = some x → ¬ Slips x l.quantity := by
  constructor
  · intro hsame l hl x hx
    rw [← h.level_iff hdistinct hl (hdone l hl) hx (hroom _ x hx), hsame, hx]
  · intro hsteady m
    by_cases hm : m ∈ done.map BookedLine.materialId
    · obtain ⟨l, hl, rfl⟩ := List.mem_map.mp hm
      cases hx : room.level? l.materialId with
      | none => rw [h.level, hx, Option.map_none]
      | some x =>
          exact (h.level_iff hdistinct hl (hdone l hl) hx (hroom _ x hx)).mpr (hsteady l hl x hx)
    · rw [h.level, quantitiesOf_of_not_mem hm]
      cases room.level? m <;> rfl

end Restores

/-- **What a booking leaves that was rolled back.**  Nothing is recorded.  Every level is what comes
of taking the quantities of some first lines out and putting them back, and these are the lines
that were taken.  So a level is the same if none of its quantities slips; and in a review with one
line for every material, all levels are the same exactly if no line slips. -/
theorem rolledBack_levels (room : StockRoom)
    (hroom : ∀ m x, room.level? m = some x → x.isFinite) (order : Order)
    (horder : ∀ l ∈ order.review.lines, isPositive l.quantity = true)
    (faults : Nat → Option String) {cause : StockError} {final : StockRoom} {calls : Nat}
    (h : commit (StockRoom.store.interrupted faults) order.review order.catalog order.request
      (room, 0) = (.error (.rolledBack cause), final, calls)) :
    final.bookings = room.bookings ∧
    ∃ done, done <+: order.record.lines ∧
      (takeOut (StockRoom.store.interrupted faults) order.record.lines [] (room, 0)).2.1 =
        done.reverse ∧
      (∀ m, final.level? m = (room.level? m).map fun x => restored x (quantitiesOf done m)) ∧
      (∀ m x, room.level? m = some x → Steady x (quantitiesOf done m) →
        final.level? m = some x) ∧
      ((order.review.lines.map Line.materialId).Nodup →
        ((∀ m, final.level? m = room.level? m) ↔
          ∀ l ∈ done, ∀ x, room.level? l.materialId = some x → ¬ Slips x l.quantity)) := by
  obtain ⟨done, next, n, hrun, hfirst, hdrains, hback⟩ := rolledBack_cases h
  have hrestores := hdrains.restores hback
  have hdone : ∀ l ∈ done, isPositive l.quantity = true := by
    intro l hl
    obtain ⟨line, hline, rfl⟩ := List.mem_map.mp (hfirst.subset hl)
    exact horder line hline
  refine ⟨hrestores.bookings, done, hfirst, hrun, hrestores.level, ?_, ?_⟩
  · intro m x hx hsteady
    exact hrestores.level_of_steady hdone hx (hroom m x hx) hsteady
  · intro hdistinct
    rw [← order.record_materials] at hdistinct
    exact hrestores.levels_iff (hdistinct.sublist (hfirst.sublist.map _)) hdone hroom

/-- Cable in stock, and a booking that also asks for something that is not. -/
def cableRoom (level : Float) : StockRoom := .ofStock [("CABLE", level)]

def cableOrder (quantity : Float) : Order := .ofQuantities [("CABLE", quantity), ("ROD", 1.0)]

/-- There is one level in the cable room. -/
theorem level?_cableRoom {level x : Float} {m : String} (h : (cableRoom level).level? m = some x) :
    x = level := by
  have h : List.lookup m [("CABLE", level)] = some x := h
  rw [StockRoom.lookup_cons] at h
  split_ifs at h
  · exact (Option.some.inj h).symm
  · exact absurd h (by simp)

/-- Two and a half of ten and a quarter meters come back. -/
theorem rolledBack_levels_cable :
    (∀ m x, (cableRoom 10.25).level? m = some x → x.isFinite) ∧
    (∀ l ∈ (cableOrder 2.5).review.lines, isPositive l.quantity = true) ∧
    ∃ final calls, commit (StockRoom.store.interrupted fun _ => none) (cableOrder 2.5).review
        (cableOrder 2.5).catalog (cableOrder 2.5).request (cableRoom 10.25, 0) =
          (.error (.rolledBack (.unknownMaterial "ROD")), final, calls) ∧
      ∀ m, final.level? m = (cableRoom 10.25).level? m := by
  have hroom : ∀ m x, (cableRoom 10.25).level? m = some x → x.isFinite := by
    intro m x hx
    rw [level?_cableRoom hx]
    decide
  have horder : ∀ l ∈ (cableOrder 2.5).review.lines, isPositive l.quantity = true := by
    intro l hl
    fin_cases hl
    · decide
    · decide
  have hrun : commit (StockRoom.store.interrupted fun _ => none) (cableOrder 2.5).review
      (cableOrder 2.5).catalog (cableOrder 2.5).request (cableRoom 10.25, 0) =
        (.error (.rolledBack (.unknownMaterial "ROD")), cableRoom 10.25, 3) := by
    decide
  obtain ⟨-, done, -, -, -, -, hsame⟩ :=
    rolledBack_levels (cableRoom 10.25) hroom (cableOrder 2.5) horder _ hrun
  refine ⟨hroom, horder, _, _, hrun, (hsame (by decide)).mpr ?_⟩
  intro l hl x hx
  rw [level?_cableRoom hx]
  have hparts : parts 10.25 = .finite .positive 5770237022568448 (-49) (by decide) :=
    rfl
  exact not_slips_of_even hparts (by decide) l.quantity

/-- **Levels that do not come back.**  With two of nine tenths the last bit is lost. -/
theorem rolledBack_slip :
    ¬ ∀ (room : StockRoom) (order : Order) (faults : Nat → Option String) (cause : StockError)
        (final : StockRoom) (calls : Nat),
      (∀ m x, room.level? m = some x → x.isFinite ∧ ¬ x < 0.0) →
      (∀ l ∈ order.review.lines, isPositive l.quantity = true) →
      commit (StockRoom.store.interrupted faults) order.review order.catalog order.request
        (room, 0) = (.error (.rolledBack cause), final, calls) →
      (∀ m, final.level? m = room.level? m) ∧ final.bookings = room.bookings := by
  intro hall
  have hroom : ∀ m x, (cableRoom 0.9).level? m = some x → x.isFinite ∧ ¬ x < 0.0 := by
    intro m x hx
    rw [level?_cableRoom hx]
    decide
  have horder : ∀ l ∈ (cableOrder 0.2).review.lines, isPositive l.quantity = true := by
    intro l hl
    fin_cases hl
    · decide
    · decide
  have hrun : commit (StockRoom.store.interrupted fun _ => none) (cableOrder 0.2).review
      (cableOrder 0.2).catalog (cableOrder 0.2).request (cableRoom 0.9, 0) =
        (.error (.rolledBack (.unknownMaterial "ROD")), cableRoom (0.9 + -0.2 + 0.2), 3) := by
    decide
  have hsame := (hall _ _ _ _ _ _ hroom horder hrun).1 "CABLE"
  exact absurd hsame (by decide)

end Booking

end SolarBill
