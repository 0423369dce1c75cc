import SolarBill.Coefficients.Builtin
import SolarBill.Proofs.Session.Step

/-!
# The bill of a session

* The bill of every reachable session is the compiled one.
* The events of an operation tell of a compiler run exactly when the bill differs from the one it
  was compared with.  For every operation but one that is the bill before the operation; starting
  over compares with an empty bill instead, so there the event can be missing or idle.
-/

namespace SolarBill

/-! ### The bill is the compiled one -/

namespace Session

/-- The bill of a reachable session is what its plan, catalogue and coefficients compile to. -/
theorem Reachable.bill_eq {s : Session} (h : Reachable s) :
    s.workspace.bill = s.workspace.compiled := by
  refine h.workspace_induction (P := fun w => w.bill = w.compiled) ?_ ?_
  · intro w
    rfl
  · intro w v hagrees hv
    rw [hagrees.bill, hagrees.compiled, hv]

/-- A reachable session has been compiled. -/
theorem Reachable.revision_pos {s : Session} (h : Reachable s) : 0 < s.workspace.revision := by
  refine h.workspace_induction (P := fun w => 0 < w.revision) ?_ ?_
  · intro w
    exact Nat.succ_pos _
  · intro w v hagrees hv
    rw [hagrees.revision]
    exact hv

/-- A change of the plan leaves catalogue and coefficients alone. -/
theorem updatePlan_workspace (change : Plan → Plan) (s : Session) :
    (s.updatePlan change).1.workspace.plan = change s.workspace.plan ∧
      (s.updatePlan change).1.workspace.catalog = s.workspace.catalog ∧
      (s.updatePlan change).1.workspace.coefficients = s.workspace.coefficients := by
  simp only [updatePlan]
  split_ifs with hsame
  · exact ⟨hsame.symm, rfl, rfl⟩
  · rw [announce_workspace]
    exact ⟨rfl, rfl, rfl⟩

/-- Loading a plan into a new session, also the plan that it starts with, compiles that plan. -/
theorem loaded_bill (catalog : Catalog) (coefficients : Coefficients) (plan : Plan) :
    (((start catalog coefficients).updatePlan fun _ => plan).1).workspace.bill =
      compile plan catalog coefficients := by
  have hreach : Reachable ((start catalog coefficients).updatePlan fun _ => plan).1 :=
    (Reachable.start catalog coefficients {}).step (.updatePlan fun _ => plan)
  obtain ⟨hplan, hcatalog, hcoefficients⟩ :=
    updatePlan_workspace (fun _ => plan) (start catalog coefficients)
  rw [hreach.bill_eq, Workspace.compiled, hplan, hcatalog, hcoefficients, start_workspace]
  rfl

/-! ### The bill and its announcements -/

/-- Announcements of a bill have the numbers of the workspace. -/
def Announces (w : Workspace) (events : List Event) : Prop :=
  ∀ revision lineCount warningCount, .billCompiled revision lineCount warningCount ∈ events →
    revision = w.revision ∧ lineCount = w.bill.lines.length ∧
      warningCount = w.bill.warnings.length

/-- Where no bill is told of, no announcement is wrong. -/
theorem announces_of_quiet {events : List Event} (h : ¬ TellsOfBill events) (w : Workspace) :
    Announces w events := by
  intro revision lineCount warningCount hmem
  exact (h ⟨revision, lineCount, warningCount, hmem⟩).elim

/-- After the first compiler run, compiling announces the new bill exactly when it is not the one
before. -/
theorem announce_tells_iff {changes : List Event} {s : Session} (hchanges : ¬ TellsOfBill changes)
    (hrevision : 0 < s.workspace.revision) :
    Announces (announce changes s).1.workspace (announce changes s).2 ∧
      (TellsOfBill (announce changes s).2 ↔
        (announce changes s).1.workspace.bill ≠ s.workspace.bill) := by
  rw [announce_workspace, announce_events]
  by_cases hsame : s.workspace.compiled = s.workspace.bill
  · rw [if_pos ⟨hsame, hrevision⟩, List.append_nil]
    exact ⟨announces_of_quiet hchanges _, iff_of_false hchanges fun hne => hne hsame⟩
  · rw [if_neg fun h => hsame h.1]
    constructor
    · intro revision lineCount warningCount hmem
      rcases List.mem_append.mp hmem with hmem | hmem
      · exact announces_of_quiet hchanges _ _ _ _ hmem
      · exact Event.billCompiled.inj (List.mem_singleton.mp hmem)
    · have htells : TellsOfBill (changes ++
          [.billCompiled (s.workspace.revision + 1) s.workspace.compiled.lines.length
            s.workspace.compiled.warnings.length]) :=
        ⟨_, _, _, List.mem_append_right _ (List.mem_singleton_self _)⟩
      exact iff_of_true htells hsame

/-- Operations compare the compiled bill with their former one, and announce what differs. -/
theorem Reachable.tells_iff {s : Session} (h : Reachable s) (op : Op) :
    Announces (s.step op).1.workspace (s.step op).2 ∧
      (TellsOfBill (s.step op).2 ↔
        (s.step op).1.workspace.bill ≠ op.formerBill s.workspace.bill) := by
  rcases step_cases s op with ⟨changes, w, hstep, hchanges, hrevision, hformer⟩ |
      ⟨hagrees, hquiet, hformer⟩
  · have hpos : 0 < w.revision := by
      rw [hrevision]
      exact h.revision_pos
    rw [hstep, ← hformer]
    exact announce_tells_iff (s := { s with workspace := w }) hchanges hpos
  · rw [hformer, hagrees.bill]
    exact ⟨announces_of_quiet hquiet _, iff_of_false hquiet fun hne => hne rfl⟩

/-- The bill that starting over leads to. -/
def presetBill (s : Session) : Bill :=
  compile (.preset s.workspace.coefficients) s.workspace.catalog s.workspace.coefficients

/-- Starting over leads to the bill of the preset plan. -/
theorem reset_bill (s : Session) :
    (s.step .reset).1.workspace.bill = s.presetBill := by
  simp only [step, reset, announce_workspace]
  rfl

/-- **When the bill is announced.**  An announcement has the numbers of the session after the
operation.  There is one exactly when the bill differs from the one it was compared with; and so
there is one exactly when the operation changes the bill, except when starting over: that goes by
whether the bill of the preset plan is empty, not by whether it is the bill before. -/
theorem announcement_iff_changed {s : Session} (h : Reachable s) (op : Op) :
    Announces (s.step op).1.workspace (s.step op).2 ∧
    (TellsOfBill (s.step op).2 ↔
      (s.step op).1.workspace.bill ≠ op.formerBill s.workspace.bill) ∧
    ((TellsOfBill (s.step op).2 ↔ (s.step op).1.workspace.bill ≠ s.workspace.bill) ↔
      (op = .reset → (s.presetBill = {} ↔ s.presetBill = s.workspace.bill))) := by
  obtain ⟨hannounces, htells⟩ := h.tells_iff op
  refine ⟨hannounces, htells, ?_⟩
  rw [htells]
  by_cases hreset : op = .reset
  · subst hreset
    rw [reset_bill, Op.formerBill, not_iff_not]
    exact ⟨fun hiff _ => hiff, fun hiff => hiff rfl⟩
  · have hformer : op.formerBill s.workspace.bill = s.workspace.bill := by
      cases op <;> first | rfl | exact absurd rfl hreset
    rw [hformer]
    exact iff_of_true Iff.rfl fun heq => (hreset heq).elim

/-- The built-in coefficients preset a surge arrester. -/
theorem preset_builtin_bill :
    (compile (.preset .builtin) .empty .builtin).lines.map Line.materialId = ["SPD-DC-1000"] := by
  rfl

/-- Starting over right after the start is announced although the bill stays the same. -/
theorem announcement_iff_changed_reset :
    Reachable (start .empty .builtin) ∧
      ¬ (TellsOfBill ((start .empty .builtin).step .reset).2 ↔
        ((start .empty .builtin).step .reset).1.workspace.bill ≠
          (start .empty .builtin).workspace.bill) := by
  have hreach : Reachable (start .empty .builtin) := .start .empty .builtin {}
  refine ⟨hreach, fun hclaim => ?_⟩
  have hiff := (announcement_iff_changed hreach .reset).2.2.mp hclaim rfl
  have hsame : (start .empty .builtin).presetBill = (start .empty .builtin).workspace.bill := by
    rw [presetBill, start_workspace]
    rfl
  have hempty : compile (.preset .builtin) .empty .builtin = {} := by
    have hpreset := hiff.mpr hsame
    rw [presetBill, start_workspace] at hpreset
    exact hpreset
  have hline := preset_builtin_bill
  rw [hempty] at hline
  exact absurd hline (List.cons_ne_nil _ _).symm

/-- Coefficients that preset no surge arrester, so that the preset plan has an empty bill. -/
def bareCoefficients : Coefficients :=
  { Coefficients.builtin with
    presets := { Coefficients.builtinPresets with surgeArrester := none } }

/-- Two modules that no string wires. -/
def unwiredPlan : Plan :=
  { Plan.preset bareCoefficients with module := some "MOD", layout := { portrait := [2] } }

/-- Without it the bill of the preset plan is empty. -/
theorem preset_bare_bill : compile (.preset bareCoefficients) .empty bareCoefficients = {} := by
  rfl

/-- Two modules without a string are warned of. -/
theorem unwired_warnings :
    (compile unwiredPlan .empty bareCoefficients).warnings =
      ["String plan wires 0 modules but the layout contains 2"] := by
  rfl

/-- **A bill that vanishes unannounced.**  Starting over drops the bill with the warning about the
unwired modules, and tells nobody. -/
theorem reset_unannounced :
    ¬ ∀ s : Session, Reachable s → ∀ op : Op,
      (TellsOfBill (s.step op).2 ↔ (s.step op).1.workspace.bill ≠ s.workspace.bill) ∧
        Announces (s.step op).1.workspace (s.step op).2 := by
  intro hall
  let s := ((start .empty bareCoefficients).updatePlan fun _ => unwiredPlan).1
  have hreach : Reachable s :=
    (Reachable.start .empty bareCoefficients {}).step (.updatePlan fun _ => unwiredPlan)
  have hbefore : s.workspace.bill = compile unwiredPlan .empty bareCoefficients :=
    loaded_bill .empty bareCoefficients unwiredPlan
  have hafter : (s.step .reset).1.workspace.bill = {} := by
    obtain ⟨-, hcatalog, hcoefficients⟩ :=
      updatePlan_workspace (fun _ => unwiredPlan) (start .empty bareCoefficients)
    rw [start_workspace] at hcatalog hcoefficients
    rw [reset_bill, presetBill, hcatalog, hcoefficients]
    exact preset_bare_bill
  have hchanged : (s.step .reset).1.workspace.bill ≠ s.workspace.bill := by
    rw [hafter, hbefore]
    intro heq
    have hwarnings := unwired_warnings
    rw [← heq] at hwarnings
    exact absurd hwarnings (List.cons_ne_nil _ _).symm
  have htells := (hall s hreach .reset).1.mpr hchanged
  exact (hreach.tells_iff .reset).2.mp htells hafter

end Session

end SolarBill
