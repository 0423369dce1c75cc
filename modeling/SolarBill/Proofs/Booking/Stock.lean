import Mathlib.Algebra.BigOperators.Group.List.Basic
import Mathlib.Algebra.Order.BigOperators.Group.List
import Mathlib.Tactic.Linarith
import SolarBill.Booking.StockRoom
import SolarBill.Proofs.Number.Value

/-!
# What is in stock and what is held

Levels and quantities are doubles; as long as they are whole numbers below `2 ^ 53`, taking out and
putting back is exact.  What has left a stock room is *held*, by a booking or by nobody any more,
and every call that succeeds moves a quantity between the two:

* `Accounts start held room` — for every material, the level at the start is the level now and what
  is held of it;
* `Accounts.take` and `Accounts.put` — one successful call keeps the accounts.
-/

namespace SolarBill

open Double

/-! ### Whole numbers -/

namespace Double

/-- A whole number that is not negative and so small that sums and differences are exact. -/
def IsWhole (x : Float) : Prop :=
  x.isFinite ∧ ∃ n : Nat, n < 2 ^ 53 ∧ value x = n

namespace IsWhole

variable {x y : Float}

/-- Whole numbers here are not negative. -/
theorem value_nonneg (h : IsWhole x) : 0 ≤ value x := by
  obtain ⟨-, n, -, hn⟩ := h
  rw [hn]
  exact Nat.cast_nonneg n

/-- They are below 2 ^ 53. -/
theorem value_lt (h : IsWhole x) : value x < 2 ^ 53 := by
  obtain ⟨-, n, hlt, hn⟩ := h
  rw [hn]
  exact_mod_cast hlt

/-- Sums of whole numbers that stay small are exact. -/
theorem add (hx : IsWhole x) (hy : IsWhole y) (h : value x + value y < 2 ^ 53) :
    IsWhole (x + y) ∧ value (x + y) = value x + value y := by
  obtain ⟨hxfin, n, hn, hxn⟩ := hx
  obtain ⟨hyfin, k, hk, hyk⟩ := hy
  have hsum : value x + value y = ((n + k : Nat) : Int) := by
    rw [hxn, hyk]
    push_cast
    rfl
  have hlt : n + k < 2 ^ 53 := by
    rw [hsum] at h
    exact_mod_cast h
  obtain ⟨hfin, hvalue⟩ := value_add hxfin hyfin (by
    rw [hsum]
    exact representable_intCast (by omega))
  refine ⟨⟨hfin, n + k, hlt, ?_⟩, hvalue⟩
  rw [hvalue, hsum]
  push_cast
  rfl

/-- Differences of whole numbers are exact, also below zero. -/
theorem value_sub (hx : IsWhole x) (hy : IsWhole y) :
    (x + -y).isFinite ∧ value (x + -y) = value x - value y := by
  obtain ⟨hxfin, n, hn, hxn⟩ := hx
  obtain ⟨hyfin, k, hk, hyk⟩ := hy
  have hdiff : value x + value (-y) = ((n : Int) - k : Int) := by
    rw [value_neg hyfin, hxn, hyk]
    push_cast
    ring
  obtain ⟨hfin, hvalue⟩ := value_add hxfin (isFinite_neg hyfin) (by
    rw [hdiff]
    exact representable_intCast (by omega))
  refine ⟨hfin, ?_⟩
  rw [hvalue, value_neg hyfin, sub_eq_add_neg]

/-- Differences of whole numbers that are not negative are whole. -/
theorem sub (hx : IsWhole x) (hy : IsWhole y) (h : value y ≤ value x) : IsWhole (x + -y) := by
  obtain ⟨hfin, hvalue⟩ := hx.value_sub hy
  obtain ⟨-, n, hn, hxn⟩ := hx
  obtain ⟨-, k, hk, hyk⟩ := hy
  have hle : k ≤ n := by
    rw [hxn, hyk] at h
    exact_mod_cast h
  refine ⟨hfin, n - k, by omega, ?_⟩
  rw [hvalue, hxn, hyk, Nat.cast_sub hle]

end IsWhole

end Double

/-! ### Levels -/

namespace StockRoom

/-- Level of a material as a number; zero when it is not stocked. -/
def stock (room : StockRoom) (id : String) : ℚ :=
  ((room.level? id).map value).getD 0

/-- All levels are whole numbers. -/
def Whole (room : StockRoom) : Prop :=
  ∀ id x, room.level? id = some x → IsWhole x

/-- The stock of a material is its level. -/
theorem stock_of_level {room : StockRoom} {id : String} {x : Float} (h : room.level? id = some x) :
    room.stock id = value x := by
  rw [stock, h]
  rfl

/-- A material without a level has no stock. -/
theorem stock_of_unstocked {room : StockRoom} {id : String} (h : room.level? id = none) :
    room.stock id = 0 := by
  rw [stock, h]
  rfl

/-- No stock of whole levels is negative. -/
theorem Whole.stock_nonneg {room : StockRoom} (h : room.Whole) (id : String) :
    0 ≤ room.stock id := by
  cases hlevel : room.level? id with
  | none => exact (stock_of_unstocked hlevel).ge
  | some x =>
      rw [stock_of_level hlevel]
      exact (h id x hlevel).value_nonneg

/-- Stocks of whole levels are below 2 ^ 53. -/
theorem Whole.stock_lt {room : StockRoom} (h : room.Whole) (id : String) :
    room.stock id < 2 ^ 53 := by
  cases hlevel : room.level? id with
  | none =>
      rw [stock_of_unstocked hlevel]
      norm_num
  | some x =>
      rw [stock_of_level hlevel]
      exact (h id x hlevel).value_lt

theorem lookup_cons (m : String) (entry : String × Float) (rest : List (String × Float)) :
    (entry :: rest).lookup m = if m = entry.1 then some entry.2 else rest.lookup m := by
  rw [List.lookup_cons]
  by_cases hm : m = entry.1
  · rw [if_pos hm, beq_iff_eq.mpr hm]
  · rw [if_neg hm, beq_eq_false_iff_ne.mpr hm]

/-- Setting a level changes this level only. -/
theorem lookup_setLevel (id m : String) (x : Float) (levels : List (String × Float)) :
    (setLevel id x levels).lookup m = if m = id then some x else levels.lookup m := by
  induction levels with
  | nil => exact lookup_cons m (id, x) []
  | cons entry rest ih =>
      rw [setLevel]
      by_cases hentry : entry.1 = id
      · rw [if_pos (beq_iff_eq.mpr hentry), lookup_cons, lookup_cons, hentry]
        split_ifs <;> rfl
      · rw [if_neg (by rwa [beq_iff_eq]), lookup_cons, lookup_cons, ih]
        by_cases hm : m = id
        · have hne : ¬ m = entry.1 := fun heq => hentry (heq.symm.trans hm)
          rw [if_neg hne, if_pos hm, if_pos hm]
        · rw [if_neg hm, if_neg hm]

/-- Change a level that is there. -/
def withLevel (room : StockRoom) (id : String) (x : Float) : StockRoom :=
  { room with levels := setLevel id x room.levels }

/-- A room with one level set has this level, and all others as before. -/
theorem level?_withLevel (room : StockRoom) (id m : String) (x : Float) :
    (room.withLevel id x).level? m = if m = id then some x else room.level? m :=
  lookup_setLevel id m x room.levels

/-- A call changes one level, which does not fall below zero, or nothing. -/
theorem applyDelta_cases (room : StockRoom) (id : String) (change : Float) :
    (∃ level, room.level? id = some level ∧ ¬ level + change < 0.0 ∧
      room.applyDelta id change = (.ok (), room.withLevel id (level + change))) ∨
    ∃ cause, room.applyDelta id change = (.error cause, room) := by
  rw [applyDelta]
  cases hlevel : room.level? id with
  | none => exact Or.inr ⟨_, rfl⟩
  | some level =>
      by_cases hlow : level + change < 0.0
      · exact Or.inr ⟨_, if_pos hlow⟩
      · exact Or.inl ⟨level, rfl, hlow, if_neg hlow⟩

end StockRoom

/-! ### Quantities of lines -/

/-- Quantities of a material, line by line. -/
def quantitiesOf (lines : List BookedLine) (m : String) : List Float :=
  (lines.filter fun l => l.materialId == m).map BookedLine.quantity

theorem quantitiesOf_cons (line : BookedLine) (rest : List BookedLine) (m : String) :
    quantitiesOf (line :: rest) m =
      if m = line.materialId then line.quantity :: quantitiesOf rest m
      else quantitiesOf rest m := by
  by_cases hm : m = line.materialId
  · rw [if_pos hm, quantitiesOf, List.filter_cons_of_pos (by simpa using hm.symm), List.map_cons]
    rfl
  · rw [if_neg hm, quantitiesOf, List.filter_cons_of_neg (by simpa using Ne.symm hm)]
    rfl

/-- The quantities of the lines the other way round. -/
theorem quantitiesOf_reverse (lines : List BookedLine) (m : String) :
    quantitiesOf lines.reverse m = (quantitiesOf lines m).reverse := by
  rw [quantitiesOf, List.filter_reverse, List.map_reverse]
  rfl

/-- A quantity of a material is that of some line. -/
theorem mem_quantitiesOf {lines : List BookedLine} {m : String} {q : Float}
    (h : q ∈ quantitiesOf lines m) : ∃ l ∈ lines, l.materialId = m ∧ l.quantity = q := by
  obtain ⟨l, hl, rfl⟩ := List.mem_map.mp h
  obtain ⟨hmem, hid⟩ := List.mem_filter.mp hl
  exact ⟨l, hmem, beq_iff_eq.mp hid, rfl⟩

/-- No line, no quantity. -/
theorem quantitiesOf_of_not_mem {lines : List BookedLine} {m : String}
    (h : m ∉ lines.map BookedLine.materialId) : quantitiesOf lines m = [] := by
  rw [List.eq_nil_iff_forall_not_mem]
  intro q hq
  obtain ⟨l, hl, rfl, -⟩ := mem_quantitiesOf hq
  exact h (List.mem_map_of_mem hl)

/-- Where every material has one line, there is one quantity. -/
theorem quantitiesOf_of_mem {lines : List BookedLine} {line : BookedLine}
    (hdistinct : (lines.map BookedLine.materialId).Nodup) (h : line ∈ lines) :
    quantitiesOf lines line.materialId = [line.quantity] := by
  induction lines with
  | nil => exact absurd h List.not_mem_nil
  | cons first rest ih =>
      rw [List.map_cons, List.nodup_cons] at hdistinct
      rw [quantitiesOf_cons]
      rcases List.mem_cons.mp h with rfl | hrest
      · rw [if_pos rfl, quantitiesOf_of_not_mem hdistinct.1]
      · have hne : line.materialId ≠ first.materialId := by
          intro heq
          exact hdistinct.1 (heq ▸ List.mem_map_of_mem hrest)
        rw [if_neg hne, ih hdistinct.2 hrest]

/-- Quantity of a material in a list of lines. -/
def demand (lines : List BookedLine) (m : String) : ℚ :=
  ((lines.filter fun l => l.materialId == m).map fun l => value l.quantity).sum

/-- The demand of a material is the sum of its quantities. -/
theorem demand_eq (lines : List BookedLine) (m : String) :
    demand lines m = ((quantitiesOf lines m).map value).sum := by
  rw [quantitiesOf, List.map_map]
  rfl

theorem demand_nil : demand [] = 0 :=
  rfl

theorem demand_singleton (line : BookedLine) (m : String) :
    demand [line] m = if m = line.materialId then value line.quantity else 0 := by
  rw [demand_eq, quantitiesOf_cons]
  split_ifs
  · exact List.sum_singleton
  · rfl

theorem demand_cons (line : BookedLine) (rest : List BookedLine) :
    demand (line :: rest) = demand [line] + demand rest := by
  funext m
  rw [Pi.add_apply, demand_singleton, demand_eq, demand_eq, quantitiesOf_cons]
  split_ifs
  · rw [List.map_cons, List.sum_cons]
  · rw [zero_add]

/-- The demand does not depend on the order. -/
theorem demand_reverse (lines : List BookedLine) : demand lines.reverse = demand lines := by
  funext m
  rw [demand_eq, demand_eq, quantitiesOf_reverse, List.map_reverse, List.sum_reverse]

/-- Whole quantities demand nothing negative. -/
theorem demand_nonneg {lines : List BookedLine} (h : ∀ l ∈ lines, IsWhole l.quantity)
    (m : String) : 0 ≤ demand lines m := by
  rw [demand_eq]
  apply List.sum_nonneg
  intro q hq
  obtain ⟨x, hx, rfl⟩ := List.mem_map.mp hq
  obtain ⟨l, hl, -, rfl⟩ := mem_quantitiesOf hx
  exact (h l hl).value_nonneg

/-- A material that no line has is not demanded. -/
theorem demand_of_not_mem {lines : List BookedLine} {m : String}
    (h : m ∉ lines.map BookedLine.materialId) : demand lines m = 0 := by
  rw [demand_eq, quantitiesOf_of_not_mem h]
  rfl

/-- Where every material has one line, its quantity is the one of that line. -/
theorem demand_of_mem {lines : List BookedLine} {line : BookedLine}
    (hdistinct : (lines.map BookedLine.materialId).Nodup) (h : line ∈ lines) :
    demand lines line.materialId = value line.quantity := by
  rw [demand_eq, quantitiesOf_of_mem hdistinct h]
  exact List.sum_singleton

/-- Some of the lines hold the full quantities of their materials, and nothing else. -/
theorem demand_of_subset {kept lines : List BookedLine}
    (hkept : (kept.map BookedLine.materialId).Nodup)
    (hlines : (lines.map BookedLine.materialId).Nodup) (hsubset : kept ⊆ lines) (m : String) :
    demand kept m = if m ∈ kept.map BookedLine.materialId then demand lines m else 0 := by
  by_cases hm : m ∈ kept.map BookedLine.materialId
  · rw [if_pos hm]
    obtain ⟨line, hline, rfl⟩ := List.mem_map.mp hm
    rw [demand_of_mem hkept hline, demand_of_mem hlines (hsubset hline)]
  · rw [if_neg hm, demand_of_not_mem hm]

/-! ### Accounts -/

/-- **The accounts of a stock room.**  What was there at the start is there now or held. -/
structure Accounts (start : StockRoom) (held : String → ℚ) (room : StockRoom) : Prop where
  start_whole : start.Whole
  whole : room.Whole
  stocked : ∀ m, (room.level? m).isSome = (start.level? m).isSome
  held_nonneg : ∀ m, 0 ≤ held m
  balance : ∀ m, start.stock m = room.stock m + held m

namespace Accounts

variable {start room : StockRoom} {held : String → ℚ}

/-- At the start the accounts are those of the room itself, with nothing held. -/
theorem refl (h : start.Whole) : Accounts start 0 start where
  start_whole := h
  whole := h
  stocked _ := rfl
  held_nonneg _ := le_rfl
  balance _ := (add_zero _).symm

/-- There is never more of a material than at the start. -/
theorem stock_le (h : Accounts start held room) (m : String) : room.stock m ≤ start.stock m := by
  have := h.balance m
  have := h.held_nonneg m
  linarith

/-- Moving a quantity between a level and what is held keeps the accounts. -/
theorem move (h : Accounts start held room) {id : String} {level next : Float} {held' : String → ℚ}
    (hlevel : room.level? id = some level) (hnext : IsWhole next)
    (hid : value next + held' id = value level + held id) (hnonneg : 0 ≤ held' id)
    (hothers : ∀ m, m ≠ id → held' m = held m) :
    Accounts start held' (room.withLevel id next) where
  start_whole := h.start_whole
  whole m x hx := by
    rw [StockRoom.level?_withLevel] at hx
    split at hx
    · exact Option.some.inj hx ▸ hnext
    · exact h.whole m x hx
  stocked m := by
    rw [← h.stocked, StockRoom.level?_withLevel]
    split
    · next heq => rw [heq, hlevel]; rfl
    · rfl
  held_nonneg m := by
    by_cases hm : m = id
    · rw [hm]
      exact hnonneg
    · rw [hothers m hm]
      exact h.held_nonneg m
  balance m := by
    rw [h.balance, StockRoom.stock, StockRoom.stock, StockRoom.level?_withLevel]
    by_cases hm : m = id
    · rw [if_pos hm, hm, hlevel]
      exact hid.symm
    · rw [if_neg hm, hothers m hm]

theorem held_singleton (line : BookedLine) :
    (held + demand [line]) line.materialId = held line.materialId + value line.quantity := by
  rw [Pi.add_apply, demand_singleton, if_pos rfl]

/-- Taking a line out: its quantity is held from now on. -/
theorem take (h : Accounts start held room) {line : BookedLine} (hq : IsWhole line.quantity) :
    (∃ next, room.applyDelta line.materialId (-line.quantity) = (.ok (), next) ∧
      Accounts start (held + demand [line]) next ∧ next.bookings = room.bookings) ∨
    ∃ cause, room.applyDelta line.materialId (-line.quantity) = (.error cause, room) := by
  rcases room.applyDelta_cases line.materialId (-line.quantity) with
    ⟨level, hlevel, hnonneg, hok⟩ | hrefused
  · left
    have hwhole := h.whole _ _ hlevel
    obtain ⟨hfin, hvalue⟩ := hwhole.value_sub hq
    rw [lt_zero_iff hfin, hvalue, not_lt, sub_nonneg] at hnonneg
    refine ⟨_, hok, h.move hlevel (hwhole.sub hq hnonneg) ?_ ?_ ?_, rfl⟩
    · rw [held_singleton, hvalue]
      ring
    · rw [held_singleton]
      exact add_nonneg (h.held_nonneg _) hq.value_nonneg
    · intro m hm
      rw [Pi.add_apply, demand_singleton, if_neg hm, add_zero]
  · exact Or.inr hrefused

/-- What comes back fits, because it was there at the start. -/
theorem fits {line : BookedLine} (h : Accounts start (held + demand [line]) room)
    (hheld : ∀ m, 0 ≤ held m) {level : Float} (hlevel : room.level? line.materialId = some level) :
    value level + value line.quantity < 2 ^ 53 := by
  have hbalance := h.balance line.materialId
  rw [StockRoom.stock_of_level hlevel, held_singleton] at hbalance
  have hlt := h.start_whole.stock_lt line.materialId
  have hnonneg := hheld line.materialId
  linarith

/-- Putting a line back whose quantity is held. -/
theorem put {line : BookedLine} (h : Accounts start (held + demand [line]) room)
    (hheld : ∀ m, 0 ≤ held m) (hq : IsWhole line.quantity) :
    (∃ next, room.applyDelta line.materialId line.quantity = (.ok (), next) ∧
      Accounts start held next ∧ next.bookings = room.bookings) ∨
    ∃ cause, room.applyDelta line.materialId line.quantity = (.error cause, room) := by
  rcases room.applyDelta_cases line.materialId line.quantity with
    ⟨level, hlevel, -, hok⟩ | hrefused
  · left
    obtain ⟨hwhole, hvalue⟩ := (h.whole _ _ hlevel).add hq (h.fits hheld hlevel)
    refine ⟨_, hok, h.move hlevel hwhole ?_ (hheld _) ?_, rfl⟩
    · rw [held_singleton, hvalue]
      ring
    · intro m hm
      rw [Pi.add_apply, demand_singleton, if_neg hm, add_zero]
  · exact Or.inr hrefused

/-- Recording a booking moves nothing. -/
theorem record (h : Accounts start held room) (record : BookingRecord) :
    Accounts start held (room.recordBooking record).2 :=
  ⟨h.start_whole, h.whole, h.stocked, h.held_nonneg, h.balance⟩

end Accounts

end SolarBill
