import SolarBill.Proofs.Session.Review

/-!
# Two clients of one session

One client replaces catalogue and coefficients, another one replaces the plan.  They take turns in
any way, and each turn compiles whatever the other one has left behind, or does nothing when the
plan is the one that is there.  It makes no difference who comes first: neither client touches what
the other one replaces, a compiler run forgets the bill and the review before it, and whether a plan
is new depends on the plans alone.

* `turns_commute` — a replacement of each kind, one after the other;
* `plan_after_supplies` — a plan can wait for any number of the other client's turns;
* `clients_commute` — all interleavings of the two clients end in the same workspace, after the same
  number of compiler runs.
-/

namespace SolarBill

/-- A compiler run forgets the bill and the review before it. -/
theorem Workspace.afterCompile_congr {w v : Workspace} (hstage : w.stage = v.stage)
    (hplan : w.plan = v.plan) (hcatalog : w.catalog = v.catalog)
    (hcoefficients : w.coefficients = v.coefficients) (hrevision : w.revision = v.revision) :
    w.afterCompile = v.afterCompile := by
  cases w
  cases v
  cases hstage
  cases hplan
  cases hcatalog
  cases hcoefficients
  cases hrevision
  rfl

/-- What plans are compiled with, as one client replaces it. -/
inductive Supply where
  | catalog (catalog : Catalog)
  | coefficients (coefficients : Coefficients)

namespace Supply

/-- The workspace with the new catalogue or coefficients, before the compiler runs. -/
def put (w : Workspace) : Supply → Workspace
  | .catalog c => { w with catalog := c }
  | .coefficients c => { w with coefficients := c }

/-- The operation of the client. -/
def op : Supply → Session.Op
  | .catalog c => .setCatalog c
  | .coefficients c => .setCoefficients c

end Supply

namespace Session

/-- The operation by which the other client replaces the whole plan. -/
def replacePlan (plan : Plan) : Op :=
  .updatePlan fun _ => plan

/-- A turn of one client or the other. -/
abbrev Turn := Supply ⊕ Plan

/-- The operation of a turn. -/
def Turn.op : Turn → Op
  | .inl supply => supply.op
  | .inr plan => replacePlan plan

/-- The turns interleave two clients: the turns of each are its own, in its own order. -/
structure Interleaves (turns : List Turn) (supplies : List Supply) (plans : List Plan) : Prop where
  supplies : turns.filterMap Sum.getLeft? = supplies
  plans : turns.filterMap Sum.getRight? = plans

/-- Sessions with the same workspace that have run the compiler as often. -/
structure Alike (s t : Session) : Prop where
  workspace : s.workspace = t.workspace
  compilations : s.counters.compilations = t.counters.compilations

namespace Alike

theorem refl (s : Session) : Alike s s :=
  ⟨rfl, rfl⟩

theorem symm {s t : Session} (h : Alike s t) : Alike t s :=
  ⟨h.workspace.symm, h.compilations.symm⟩

theorem trans {s t u : Session} (h : Alike s t) (k : Alike t u) : Alike s u :=
  ⟨h.workspace.trans k.workspace, h.compilations.trans k.compilations⟩

end Alike

/-! ### One turn -/

/-- An announcement goes with one compiler run. -/
theorem announce_compilations (changes : List Event) (s : Session) :
    (announce changes s).1.counters.compilations = s.counters.compilations + 1 := by
  simp only [announce, recompile, publish, Counters.compiled, Counters.broadcast]

/-- New catalogues and coefficients are always compiled. -/
theorem step_supply (s : Session) (supply : Supply) :
    (s.step supply.op).1.workspace = (supply.put s.workspace).afterCompile ∧
      (s.step supply.op).1.counters.compilations = s.counters.compilations + 1 := by
  cases supply with
  | catalog c =>
      rw [Supply.op, step, setCatalog]
      exact ⟨announce_workspace _ _, announce_compilations _ _⟩
  | coefficients c =>
      rw [Supply.op, step, setCoefficients]
      exact ⟨announce_workspace _ _, announce_compilations _ _⟩

/-- The plan that is there is not compiled again. -/
theorem step_samePlan {s : Session} {plan : Plan} (h : plan = s.workspace.plan) :
    (s.step (replacePlan plan)).1 = s := by
  simp only [replacePlan, step, updatePlan, if_pos h]

/-- Another plan is compiled. -/
theorem step_otherPlan {s : Session} {plan : Plan} (h : plan ≠ s.workspace.plan) :
    (s.step (replacePlan plan)).1.workspace = { s.workspace with plan := plan }.afterCompile ∧
      (s.step (replacePlan plan)).1.counters.compilations = s.counters.compilations + 1 := by
  simp only [replacePlan, step, updatePlan, if_neg h]
  exact ⟨announce_workspace _ _, announce_compilations _ _⟩

/-- A turn does the same to sessions that are alike. -/
theorem Alike.step {s t : Session} (h : Alike s t) (turn : Turn) :
    Alike (s.step turn.op).1 (t.step turn.op).1 := by
  cases turn with
  | inl supply =>
      obtain ⟨hs, hscount⟩ := step_supply s supply
      obtain ⟨ht, htcount⟩ := step_supply t supply
      constructor
      · rw [Turn.op, hs, ht, h.workspace]
      · rw [Turn.op, hscount, htcount, h.compilations]
  | inr plan =>
      rw [Turn.op]
      by_cases hsame : plan = s.workspace.plan
      · rw [step_samePlan hsame, step_samePlan (h.workspace ▸ hsame)]
        exact h
      · obtain ⟨hs, hscount⟩ := step_otherPlan hsame
        obtain ⟨ht, htcount⟩ := step_otherPlan (h.workspace ▸ hsame)
        constructor
        · rw [hs, ht, h.workspace]
        · rw [hscount, htcount, h.compilations]

/-- **Turns commute.**  Two compiler runs follow either way, or one when the plan is the one that is
there, and the last run sees the same inputs. -/
theorem turns_commute (s : Session) (supply : Supply) (plan : Plan) :
    Alike ((s.step (replacePlan plan)).1.step supply.op).1
      ((s.step supply.op).1.step (replacePlan plan)).1 := by
  obtain ⟨hsupply, hcount⟩ := step_supply s supply
  have hplan : (s.step supply.op).1.workspace.plan = s.workspace.plan := by
    rw [hsupply]
    cases supply <;> rfl
  by_cases hsame : plan = s.workspace.plan
  · rw [step_samePlan hsame, step_samePlan (hsame.trans hplan.symm)]
    exact .refl _
  · obtain ⟨hfirst, hfirstCount⟩ := step_otherPlan hsame
    obtain ⟨hlast, hlastCount⟩ := step_otherPlan (s := (s.step supply.op).1) (hplan ▸ hsame)
    obtain ⟨hsecond, hsecondCount⟩ := step_supply (s.step (replacePlan plan)).1 supply
    constructor
    · rw [hsecond, hfirst, hlast, hsupply]
      cases supply <;> exact Workspace.afterCompile_congr rfl rfl rfl rfl rfl
    · rw [hsecondCount, hfirstCount, hlastCount, hcount]

/-! ### Runs of turns -/

/-- Turns do the same to sessions that are alike. -/
theorem Alike.after {s t : Session} (h : Alike s t) (turns : List Turn) :
    Alike (s.after (turns.map Turn.op)) (t.after (turns.map Turn.op)) := by
  induction turns generalizing s t with
  | nil => exact h
  | cons turn rest ih => exact ih (h.step turn)

/-- A plan can wait for the other client. -/
theorem plan_after_supplies (s : Session) (plan : Plan) (supplies : List Supply) :
    Alike ((s.step (replacePlan plan)).1.after (supplies.map Supply.op))
      ((s.after (supplies.map Supply.op)).step (replacePlan plan)).1 := by
  induction supplies generalizing s with
  | nil => exact .refl _
  | cons supply rest ih =>
      have hswap := (turns_commute s supply plan).after (rest.map Sum.inl)
      rw [List.map_map] at hswap
      exact hswap.trans (ih (s.step supply.op).1)

/-- The turns can be sorted: first all of the one client, then all of the other. -/
theorem turns_sorted (s : Session) (turns : List Turn) :
    Alike (s.after (turns.map Turn.op))
      ((s.after ((turns.filterMap Sum.getLeft?).map Supply.op)).after
        ((turns.filterMap Sum.getRight?).map replacePlan)) := by
  induction turns generalizing s with
  | nil => exact .refl _
  | cons turn rest ih =>
      cases turn with
      | inl supply => exact ih (s.step supply.op).1
      | inr plan =>
          have hwaits := (plan_after_supplies s plan (rest.filterMap Sum.getLeft?)).after
            ((rest.filterMap Sum.getRight?).map Sum.inr)
          rw [List.map_map] at hwaits
          exact (ih (s.step (replacePlan plan)).1).trans hwaits

/-- **Clients commute.**  All interleavings of a client that replaces catalogue and coefficients
with one that replaces the plan end in the same workspace, that is in the same stage, plan,
catalogue, coefficients, bill, review and revision, and they have run the compiler as often. -/
theorem clients_commute (s : Session) {supplies : List Supply} {plans : List Plan}
    {turns others : List Turn} (hturns : Interleaves turns supplies plans)
    (hothers : Interleaves others supplies plans) :
    (s.after (turns.map Turn.op)).workspace = (s.after (others.map Turn.op)).workspace ∧
      (s.after (turns.map Turn.op)).counters.compilations =
        (s.after (others.map Turn.op)).counters.compilations := by
  have hsorted := turns_sorted s turns
  rw [hturns.supplies, hturns.plans, ← hothers.supplies, ← hothers.plans] at hsorted
  have halike := hsorted.trans (turns_sorted s others).symm
  exact ⟨halike.workspace, halike.compilations⟩

/-- Four turns during the review: the plan is first the one that is there, then the preset one. -/
def supplyFirst : List Turn :=
  [.inl (.catalog .empty), .inr wiredPlan, .inl (.coefficients plainCoefficients),
    .inr (.preset plainCoefficients)]

/-- The same turns of each client, in another interleaving. -/
def planFirst : List Turn :=
  [.inr wiredPlan, .inr (.preset plainCoefficients), .inl (.catalog .empty),
    .inl (.coefficients plainCoefficients)]

/-- Both interleavings end in the same workspace. -/
theorem clients_commute_reviewing :
    Interleaves supplyFirst [.catalog .empty, .coefficients plainCoefficients]
        [wiredPlan, .preset plainCoefficients] ∧
      Interleaves planFirst [.catalog .empty, .coefficients plainCoefficients]
        [wiredPlan, .preset plainCoefficients] ∧
      (reviewing.after (supplyFirst.map Turn.op)).workspace =
        (reviewing.after (planFirst.map Turn.op)).workspace := by
  have hsupplyFirst : Interleaves supplyFirst [.catalog .empty, .coefficients plainCoefficients]
      [wiredPlan, .preset plainCoefficients] := ⟨rfl, rfl⟩
  have hplanFirst : Interleaves planFirst [.catalog .empty, .coefficients plainCoefficients]
      [wiredPlan, .preset plainCoefficients] := ⟨rfl, rfl⟩
  exact ⟨hsupplyFirst, hplanFirst, (clients_commute reviewing hsupplyFirst hplanFirst).1⟩

end Session

end SolarBill
