import SolarBill.Proofs.Booking.Conservation
import SolarBill.Proofs.Number.Integer

/-!
# One decision on the whole demand

A stock room is asked line by line, and a material may have several lines.  As long as levels and
quantities are whole numbers, the answers add up to one decision: a booking goes through exactly if
every material is stocked and its level covers all of its lines together.

* `Covered`, `Refusal` — whether a line can be taken after those before it, and why it is refused;
* `take_or_refuse`, `takeOut_decides` — one line, and all lines up to the first one that is not
  covered;
* `putBack_restores` — what was taken can be put back, so a rollback is complete;
* `booking_decided_by_demand` — the decision, and what it leaves.
-/

namespace SolarBill

open Double

theorem demand_append (xs ys : List BookedLine) : demand (xs ++ ys) = demand xs + demand ys := by
  induction xs with
  | nil => rw [List.nil_append, demand_nil, zero_add]
  | cons line rest ih => rw [List.cons_append, demand_cons, ih, demand_cons line rest, add_assoc]

namespace Booking

variable {start room : StockRoom} {before lines : List BookedLine} {line : BookedLine}

/-! ### One line after others -/

/-- A line can be taken after those before it: its material is stocked, and the first level covers
what all of them ask of it. -/
structure Covered (start : StockRoom) (before : List BookedLine) (line : BookedLine) : Prop where
  stocked : (start.level? line.materialId).isSome
  enough : demand (before ++ [line]) line.materialId ≤ start.stock line.materialId

/-- Why a line is refused after those before it.  What is available then is what these have left of
the first level. -/
inductive Refusal (start : StockRoom) (before : List BookedLine) (line : BookedLine) :
    StockError → Prop
  | unknownMaterial (h : start.level? line.materialId = none) :
      Refusal start before line (.unknownMaterial line.materialId)
  | insufficient {level available : Float} (h : start.level? line.materialId = some level)
      (hshort : value level < demand (before ++ [line]) line.materialId)
      (hfinite : available.isFinite)
      (hleft : value available = value level - demand before line.materialId) :
      Refusal start before line (.insufficient line.materialId available line.quantity)

/-- Every line can be taken after those before it. -/
def AllCovered (start : StockRoom) (before lines : List BookedLine) : Prop :=
  ∀ done line rest, lines = done ++ line :: rest → Covered start (before ++ done) line

theorem AllCovered.nil : AllCovered start before [] := by
  intro done line rest h
  exact absurd h (by simp)

/-- A line that is covered, before others that are covered after it. -/
theorem AllCovered.cons {rest : List BookedLine} (hline : Covered start before line)
    (hrest : AllCovered start (before ++ [line]) rest) :
    AllCovered start before (line :: rest) := by
  intro done other behind h
  rcases List.cons_eq_append_iff.mp h with ⟨rfl, hother⟩ | ⟨done, rfl, hrest'⟩
  · rw [List.append_nil]
    obtain ⟨rfl, -⟩ := List.cons.inj hother
    exact hline
  · have hcovered := hrest done other behind hrest'
    rwa [List.append_assoc, List.singleton_append] at hcovered

/-- A line that is covered is of a material in stock. -/
theorem AllCovered.stocked (h : AllCovered start before lines) (hline : line ∈ lines) :
    (start.level? line.materialId).isSome := by
  obtain ⟨done, rest, hsplit⟩ := List.append_of_mem hline
  exact (h done line rest hsplit).stocked

/-- A line is not both covered and refused. -/
theorem Refusal.not_covered {cause : StockError} (h : Refusal start before line cause) :
    ¬ Covered start before line := by
  intro hcovered
  cases h with
  | unknownMaterial hnone =>
      have hstocked := hcovered.stocked
      rw [hnone] at hstocked
      cases hstocked
  | insufficient hlevel hshort =>
      have henough := hcovered.enough
      rw [StockRoom.stock_of_level hlevel] at henough
      exact absurd hshort (not_lt.mpr henough)

/-- If the level covers all lines, it covers them up to any of them. -/
theorem covered_of_demand_le {done rest : List BookedLine}
    (hlines : ∀ l ∈ done ++ line :: rest, IsWhole l.quantity)
    (hstocked : (start.level? line.materialId).isSome)
    (hdemand : demand (done ++ line :: rest) line.materialId ≤ start.stock line.materialId) :
    Covered start done line := by
  refine ⟨hstocked, le_trans ?_ hdemand⟩
  have hsplit : demand (done ++ line :: rest) = demand (done ++ [line]) + demand rest := by
    rw [← demand_append, List.append_assoc, List.singleton_append]
  rw [hsplit, Pi.add_apply]
  have hrest := demand_nonneg
    (fun l hl => hlines l (List.mem_append_right _ (List.mem_cons_of_mem line hl)))
    line.materialId
  linarith

/-- **One call.**  A line that is covered is taken, and any other one is refused for its reason,
which leaves the room as it is. -/
theorem take_or_refuse (h : Accounts start (demand before) room) (hq : IsWhole line.quantity) :
    (Covered start before line ∧ ∃ next,
      room.applyDelta line.materialId (-line.quantity) = (.ok (), next) ∧
      Accounts start (demand (before ++ [line])) next ∧ next.bookings = room.bookings) ∨
    ∃ cause, Refusal start before line cause ∧
      room.applyDelta line.materialId (-line.quantity) = (.error cause, room) := by
  have hsum : demand (before ++ [line]) line.materialId =
      demand before line.materialId + value line.quantity := by
    rw [demand_append, Accounts.held_singleton]
  have hstocked := h.stocked line.materialId
  cases hlevel : room.level? line.materialId with
  | none =>
      rw [hlevel] at hstocked
      have hnone : start.level? line.materialId = none :=
        Option.isSome_eq_false_iff.mp hstocked.symm |> Option.isNone_iff_eq_none.mp
      exact Or.inr ⟨_, .unknownMaterial hnone, by rw [StockRoom.applyDelta, hlevel]⟩
  | some level =>
      rw [hlevel] at hstocked
      obtain ⟨first, hfirst⟩ := Option.isSome_iff_exists.mp hstocked.symm
      have hbalance := h.balance line.materialId
      rw [StockRoom.stock_of_level hlevel, StockRoom.stock_of_level hfirst] at hbalance
      have hwhole := h.whole _ _ hlevel
      obtain ⟨hfinite, hvalue⟩ := hwhole.value_sub hq
      -- Whole numbers are subtracted exactly, so comparing doubles decides.
      by_cases hlow : level + -line.quantity < 0.0
      · right
        refine ⟨.insufficient line.materialId level line.quantity, ?_, ?_⟩
        · rw [lt_zero_iff hfinite, hvalue] at hlow
          refine .insufficient hfirst ?_ hwhole.1 ?_ <;> linarith
        · simp only [StockRoom.applyDelta, hlevel, if_pos hlow, neg_negated]
      · left
        have hok : room.applyDelta line.materialId (-line.quantity) =
            (.ok (), room.withLevel line.materialId (level + -line.quantity)) := by
          simp only [StockRoom.applyDelta, hlevel, if_neg hlow, StockRoom.withLevel]
        rw [lt_zero_iff hfinite, hvalue] at hlow
        refine ⟨⟨hstocked.symm, ?_⟩, ?_⟩
        · rw [StockRoom.stock_of_level hfirst]
          linarith
        · rcases h.take hq with ⟨next, hcall, haccounts, hbookings⟩ | ⟨cause, hcall⟩
          · exact ⟨next, hcall, demand_append before [line] ▸ haccounts, hbookings⟩
          · rw [hok] at hcall
            cases congrArg Prod.fst hcall

/-! ### All lines -/

/-- **Lines are taken up to the first one that is not covered.** -/
theorem takeOut_decides (h : Accounts start (demand before) room)
    (hlines : ∀ l ∈ lines, IsWhole l.quantity) (taken : List BookedLine) :
    (AllCovered start before lines ∧ ∃ next,
      takeOut StockRoom.store lines taken room = (none, lines.reverse ++ taken, next) ∧
      Accounts start (demand (before ++ lines)) next ∧ next.bookings = room.bookings) ∨
    ∃ done line rest cause next, lines = done ++ line :: rest ∧ AllCovered start before done ∧
      Refusal start (before ++ done) line cause ∧
      takeOut StockRoom.store lines taken room = (some cause, done.reverse ++ taken, next) ∧
      Accounts start (demand (before ++ done)) next ∧ next.bookings = room.bookings := by
  -- The lines before are what the room has already given, so they grow with every line taken.
  induction lines generalizing before room taken with
  | nil =>
      left
      rw [List.append_nil]
      exact ⟨.nil, room, rfl, h, rfl⟩
  | cons line rest ih =>
      rcases take_or_refuse h (hlines line List.mem_cons_self) with
        ⟨hcovered, next, hcall, hnext, hbookings⟩ | ⟨cause, hrefusal, hcall⟩
      · have hrun : takeOut StockRoom.store (line :: rest) taken room =
            takeOut StockRoom.store rest (line :: taken) next := takeOut_cons_ok hcall rest taken
        have hshift : ∀ ls : List BookedLine, before ++ [line] ++ ls = before ++ line :: ls :=
          fun ls => by rw [List.append_assoc, List.singleton_append]
        have hstack : ∀ ls : List BookedLine,
            ls.reverse ++ line :: taken = (line :: ls).reverse ++ taken :=
          fun ls => by rw [List.reverse_cons, List.append_assoc, List.singleton_append]
        rcases ih hnext (fun l hl => hlines l (List.mem_cons_of_mem line hl)) (line :: taken) with
          ⟨hall, last, hlast, haccounts, hsame⟩ |
          ⟨done, other, behind, cause, last, hsplit, hall, hrefusal, hlast, haccounts, hsame⟩
        · left
          refine ⟨.cons hcovered hall, last, ?_, hshift rest ▸ haccounts, hsame.trans hbookings⟩
          rw [hrun, hlast, hstack]
        · right
          refine ⟨line :: done, other, behind, cause, last, by rw [hsplit]; rfl,
            .cons hcovered hall, hshift done ▸ hrefusal, ?_, hshift done ▸ haccounts,
            hsame.trans hbookings⟩
          rw [hrun, hlast, hstack]
      · right
        refine ⟨[], line, rest, cause, room, rfl, .nil, ?_, takeOut_cons_error hcall rest taken, ?_,
          rfl⟩
        · rwa [List.append_nil]
        · rwa [List.append_nil]

/-- A line whose quantity is held can be put back where its material is stocked. -/
theorem put_stocked {held : String → ℚ} (h : Accounts start (held + demand [line]) room)
    (hheld : ∀ m, 0 ≤ held m) (hq : IsWhole line.quantity)
    (hstocked : (start.level? line.materialId).isSome) :
    ∃ next, room.applyDelta line.materialId line.quantity = (.ok (), next) ∧
      Accounts start held next ∧ next.bookings = room.bookings := by
  rcases h.put hheld hq with hput | ⟨cause, hrefused⟩
  · exact hput
  · exfalso
    rw [← h.stocked] at hstocked
    obtain ⟨level, hlevel⟩ := Option.isSome_iff_exists.mp hstocked
    have hwhole := h.whole _ _ hlevel
    obtain ⟨hsum, hvalue⟩ := hwhole.add hq (h.fits hheld hlevel)
    have hhigh : ¬ level + line.quantity < 0.0 := by
      rw [lt_zero_iff hsum.1, not_lt]
      exact hsum.value_nonneg
    simp only [StockRoom.applyDelta, hlevel, if_neg hhigh] at hrefused
    cases congrArg Prod.fst hrefused

/-- **What was taken is put back**, and none of it is left out. -/
theorem putBack_restores {held : String → ℚ} (h : Accounts start (held + demand lines) room)
    (hheld : ∀ m, 0 ≤ held m) (hlines : ∀ l ∈ lines, IsWhole l.quantity)
    (hstocked : ∀ l ∈ lines, (start.level? l.materialId).isSome) :
    ∃ next, putBack StockRoom.store lines room = ([], next) ∧ Accounts start held next ∧
      next.bookings = room.bookings := by
  induction lines generalizing room with
  | nil => exact ⟨room, rfl, by rwa [demand_nil, add_zero] at h, rfl⟩
  | cons line rest ih =>
      have hrest : ∀ l ∈ rest, IsWhole l.quantity :=
        fun l hl => hlines l (List.mem_cons_of_mem line hl)
      have hothers : ∀ m, 0 ≤ (held + demand rest) m :=
        fun m => add_nonneg (hheld m) (demand_nonneg hrest m)
      rw [demand_cons, add_comm (demand [line]), ← add_assoc] at h
      obtain ⟨next, hcall, hnext, hbookings⟩ := put_stocked h hothers
        (hlines line List.mem_cons_self) (hstocked line List.mem_cons_self)
      obtain ⟨last, hrun, hlast, hsame⟩ :=
        ih hnext hrest fun l hl => hstocked l (List.mem_cons_of_mem line hl)
      have hput : StockRoom.store.applyDelta line.materialId line.quantity room =
        (.ok (), next) := hcall
      refine ⟨last, ?_, hlast, hsame.trans hbookings⟩
      rw [putBack_cons hput, hrun]
      rfl

/-! ### The decision -/

/-- Accounts give every level now from the level at the start. -/
theorem level_of_accounts {held : String → ℚ} (h : Accounts start held room) (m : String) :
    (room.level? m).map value = (start.level? m).map fun x => value x - held m := by
  have hstocked := h.stocked m
  have hbalance := h.balance m
  rw [StockRoom.stock, StockRoom.stock] at hbalance
  cases hroom : room.level? m <;> cases hstart : start.level? m <;>
    rw [hroom, hstart] at hstocked hbalance
  · rfl
  · cases hstocked
  · cases hstocked
  · simp only [Option.map_some, Option.getD_some] at hbalance ⊢
    rw [hbalance, add_sub_cancel_right]

variable {order : Order}

/-- A booking takes all lines and records them, or puts back what it took before the first line
that is not covered. -/
theorem commit_decides (hroom : room.Whole) (hcommit : order.review.canCommit = true)
    (hlines : ∀ l ∈ order.record.lines, IsWhole l.quantity) :
    (AllCovered room [] order.record.lines ∧ ∃ final,
      commit StockRoom.store order.review order.catalog order.request room =
        (.ok ⟨order.record, order.record.lines.length⟩, final) ∧
      Accounts room (demand order.record.lines) final ∧
      final.bookings = room.bookings ++ [order.record]) ∨
    ∃ done line rest cause final, order.record.lines = done ++ line :: rest ∧
      AllCovered room [] done ∧ Refusal room done line cause ∧
      commit StockRoom.store order.review order.catalog order.request room =
        (.error (.rolledBack cause), final) ∧
      Accounts room 0 final ∧ final.bookings = room.bookings := by
  have hstart : Accounts room (demand []) room := demand_nil ▸ Accounts.refl hroom
  rcases takeOut_decides hstart hlines [] with
    ⟨hall, next, htake, haccounts, hbookings⟩ |
    ⟨done, line, rest, cause, next, hsplit, hall, hrefusal, htake, haccounts, hbookings⟩
  · left
    rw [List.append_nil] at htake
    exact ⟨hall, _, commit_booked hcommit htake rfl, haccounts.record order.record,
      congrArg (· ++ [order.record]) hbookings⟩
  · right
    rw [List.append_nil] at htake
    rw [List.nil_append] at hrefusal haccounts
    have hdone : ∀ l ∈ done, IsWhole l.quantity := by
      intro l hl
      apply hlines l
      rw [hsplit]
      exact List.mem_append_left _ hl
    have hreverse : Accounts room (0 + demand done.reverse) next := by
      rwa [demand_reverse, zero_add]
    obtain ⟨final, hback, hfinal, hsame⟩ := putBack_restores hreverse (fun _ => le_rfl)
      (fun l hl => hdone l (List.mem_reverse.mp hl))
      (fun l hl => hall.stocked (List.mem_reverse.mp hl))
    have hrun : commit StockRoom.store order.review order.catalog order.request room = _ :=
      commit_untaken hcommit htake
    rw [hback] at hrun
    exact ⟨done, line, rest, cause, final, hsplit, hall, hrefusal, hrun, hfinal,
      hsame.trans hbookings⟩

/-- The lines of a booking are for the materials of the review. -/
theorem stocked_of_record (h : ∀ l ∈ order.record.lines, (room.level? l.materialId).isSome) :
    ∀ l ∈ order.review.lines, (room.level? l.materialId).isSome := by
  intro l hl
  obtain ⟨booked, hbooked, hid⟩ : ∃ b ∈ order.record.lines, b.materialId = l.materialId :=
    ⟨_, List.mem_map.mpr ⟨l, hl, rfl⟩, rfl⟩
  rw [← hid]
  exact h booked hbooked

/-- What is in stock for the review is in stock for the record. -/
theorem stocked_of_review (h : ∀ l ∈ order.review.lines, (room.level? l.materialId).isSome) :
    ∀ l ∈ order.record.lines, (room.level? l.materialId).isSome := by
  intro booked hbooked
  obtain ⟨l, hl, rfl⟩ := List.mem_map.mp hbooked
  exact h l hl

/-- **A booking is one decision on the whole demand.**  Let all levels be whole numbers from zero
on, and let a review without warnings have lines, all with whole quantities.

It is booked exactly if every line's material is stocked and no material is asked for beyond its
level, all its lines together.  Then every level has dropped by what was asked for, and one record
is added.  Otherwise the booking is rolled back completely, which leaves levels and records as they
were; the cause is that of the first line that is not covered: its material is not stocked, or the
lines up to it ask for more than the level, and what is available is the level less what the lines
before it ask for. -/
theorem booking_decided_by_demand (room : StockRoom) (hroom : room.Whole) (order : Order)
    (hwarnings : order.review.warnings = []) (hlines : order.review.lines ≠ [])
    (hquantities : ∀ l ∈ order.review.lines, IsWhole l.quantity) :
    ∃ outcome final,
      commit StockRoom.store order.review order.catalog order.request room = (outcome, final) ∧
      (outcome.isOk = true ↔
        (∀ l ∈ order.review.lines, (room.level? l.materialId).isSome) ∧
          ∀ m, demand order.record.lines m ≤ room.stock m) ∧
      (outcome.isOk = true →
        final.bookings = room.bookings ++ [order.record] ∧
        ∀ m, (final.level? m).map value =
          (room.level? m).map fun x => value x - demand order.record.lines m) ∧
      (outcome.isOk = false →
        final.bookings = room.bookings ∧
        (∀ m, (final.level? m).map value = (room.level? m).map value) ∧
        ∃ before line after cause, order.record.lines = before ++ line :: after ∧
          AllCovered room [] before ∧ Refusal room before line cause ∧
          outcome = .error (.rolledBack cause)) := by
  have hcommit : order.review.canCommit = true := by
    simp [Review.canCommit, hwarnings, hlines]
  have hwhole : ∀ l ∈ order.record.lines, IsWhole l.quantity := by
    intro l hl
    obtain ⟨line, hline, rfl⟩ := List.mem_map.mp hl
    exact hquantities line hline
  rcases commit_decides hroom hcommit hwhole with
    ⟨hall, final, hrun, haccounts, hbookings⟩ |
    ⟨done, line, rest, cause, final, hsplit, hall, hrefusal, hrun, haccounts, hbookings⟩
  · refine ⟨_, final, hrun, iff_of_true rfl ⟨stocked_of_record fun l => hall.stocked, ?_⟩,
      fun _ => ⟨hbookings, level_of_accounts haccounts⟩,
      fun hfailed : true = false => absurd hfailed.symm Bool.false_ne_true⟩
    intro m
    have hbalance := haccounts.balance m
    have hnonneg := haccounts.whole.stock_nonneg m
    linarith
  · refine ⟨_, final, hrun, iff_of_false Bool.false_ne_true ?_,
      fun hbooked : false = true => absurd hbooked Bool.false_ne_true,
      fun _ => ⟨hbookings, ?_, done, line, rest, cause, hsplit, hall, hrefusal, rfl⟩⟩
    · rintro ⟨hstocked, hdemand⟩
      have hline := stocked_of_review hstocked
      rw [hsplit] at hwhole hdemand hline
      exact hrefusal.not_covered (covered_of_demand_le hwhole
        (hline line (List.mem_append_right _ List.mem_cons_self)) (hdemand _))
    · intro m
      rw [level_of_accounts haccounts m]
      simp

/-- Two lines that the hooks cover only one of. -/
def hookOrder : Order := .ofQuantities [("HOOK", 4.0), ("METER", 1.0), ("HOOK", 7.0)]

/-- The hooks and the meter are ordered in whole numbers. -/
theorem hookOrder_quantities : ∀ l ∈ hookOrder.review.lines, IsWhole l.quantity := by
  intro l hl
  fin_cases hl
  · exact ⟨rfl, 4, by norm_num, by decide +kernel⟩
  · exact ⟨rfl, 1, by norm_num, by decide +kernel⟩
  · exact ⟨rfl, 7, by norm_num, by decide +kernel⟩

/-- Of ten hooks, four are taken and six are left when seven more are asked for; the four go
back. -/
theorem booking_decided_by_demand_hooks :
    smallRoom.Whole ∧ hookOrder.review.warnings = [] ∧ hookOrder.review.lines ≠ [] ∧
      (∀ l ∈ hookOrder.review.lines, IsWhole l.quantity) ∧
      ∃ final,
        commit StockRoom.store hookOrder.review hookOrder.catalog hookOrder.request smallRoom =
          (.error (.rolledBack (.insufficient "HOOK" 6.0 7.0)), final) ∧
        final.bookings = smallRoom.bookings ∧
        ∀ m, (final.level? m).map value = (smallRoom.level? m).map value := by
  obtain ⟨outcome, final, hrun, -, -, hrolled⟩ :=
    booking_decided_by_demand smallRoom small_whole hookOrder rfl (by decide) hookOrder_quantities
  have houtcome : (commit StockRoom.store hookOrder.review hookOrder.catalog hookOrder.request
      smallRoom).1 = .error (.rolledBack (.insufficient "HOOK" 6.0 7.0)) := by
    decide
  rw [hrun] at houtcome
  obtain rfl := houtcome
  obtain ⟨hbookings, hlevels, -⟩ := hrolled rfl
  exact ⟨small_whole, rfl, by decide, hookOrder_quantities, final, hrun, hbookings, hlevels⟩

end Booking

end SolarBill
