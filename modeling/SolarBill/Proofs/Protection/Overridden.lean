import Mathlib.Data.List.Basic
import Mathlib.Tactic.SplitIfs
import SolarBill.Bill.Compile
import SolarBill.Coefficients.Builtin

/-!
# Overrides

The installer may put devices of his own in the place of the recommended ones.  An override says
something only where it names a device, where that device is not the recommended one, and where
there is anything to protect.

* `Protection.get_choose` — every device is chosen by itself: the override if it names something,
  else the recommendation;
* `recommended_overridden` — no recommendation looks at the overrides;
* `Rules.lines_overridden` — the rules see of the overrides what is chosen for installed subsystems;
* `override_says_something_new` — which overrides leave a bill as it is, and what a single one
  changes.
-/

namespace SolarBill

open Text

/-! ### Device by device -/

namespace Protection

/-- The devices that protect a subsystem. -/
inductive Part where
  | breaker
  | cable
  | rcd
  deriving DecidableEq, Repr

/-- The parts in line order. -/
def Part.all : List Part :=
  [.breaker, .cable, .rcd]

/-- The device of a part. -/
def get (p : Protection) : Part → Option String
  | .breaker => p.breaker
  | .cable => p.cable
  | .rcd => p.rcd

/-- Replace the device of a part. -/
def set (p : Protection) (part : Part) (device : Option String) : Protection :=
  match part with
  | .breaker => { p with breaker := device }
  | .cable => { p with cable := device }
  | .rcd => { p with rcd := device }

variable {p q : Protection}

/-- Setting one part changes this part only. -/
theorem get_set (p : Protection) (part other : Part) (device : Option String) :
    (p.set part device).get other = if other = part then device else p.get other := by
  cases part <;> cases other <;> rfl

/-- An empty override has no part. -/
theorem get_of_isEmpty (h : p.isEmpty = true) (part : Part) : p.get part = none := by
  simp only [isEmpty, Bool.and_eq_true, Option.isNone_iff_eq_none] at h
  obtain ⟨⟨hbreaker, hcable⟩, hrcd⟩ := h
  cases part with
  | breaker => exact hbreaker
  | cable => exact hcable
  | rcd => exact hrcd

/-- The override of a device if it names something, else the recommended device. -/
def pick (own recommended : Option String) : Option String :=
  (nonBlank? own).orElse fun _ => recommended

/-- **Every device is chosen by itself.** -/
theorem get_choose (computed own : Protection) (part : Part) :
    (choose computed own).get part = pick (own.get part) (computed.get part) := by
  cases part <;> rfl

/-- A blank override leaves the recommendation. -/
theorem pick_of_unnamed {own : Option String} (h : nonBlank? own = none)
    (recommended : Option String) : pick own recommended = recommended := by
  rw [pick, h]
  rfl

/-- What is recommended can as well be chosen. -/
theorem pick_self (recommended : Option String) : pick recommended recommended = recommended := by
  rw [pick]
  cases hnamed : nonBlank? recommended with
  | none => rfl
  | some name => exact (nonBlank?_eq_some_iff.mp hnamed).1.symm

end Protection

/-! ### Plans with other overrides -/

/-- The plan under other overrides. -/
def Plan.overridden (p : Plan) (o : Overrides) : Plan :=
  { p with overrides := o }

namespace Protection

variable {p : Plan} {c : Catalog} {k : Coefficients}

/-- Overrides do not change what is counted. -/
theorem deviceCount_overridden (s : Subsystem) (p : Plan) (o : Overrides) :
    deviceCount s (p.overridden o) = deviceCount s p := by
  cases s <;> rfl

/-- **No recommendation looks at the overrides.** -/
theorem recommended_overridden (s : Subsystem) (p : Plan) (o : Overrides) (c : Catalog)
    (k : Coefficients) : recommended s (p.overridden o) c k = recommended s p c k := by
  have hdemand : demand? s (p.overridden o) c = demand? s p c := by
    cases s <;> rfl
  rw [recommended, recommended, hdemand]

/-- The choice goes part by part: the override, or else the recommendation. -/
theorem get_chosen (s : Subsystem) (p : Plan) (c : Catalog) (k : Coefficients) (part : Part) :
    (chosen s p c k).get part =
      pick ((p.overrides.get s).get part) ((recommended s p c k).get part) :=
  get_choose _ _ part

/-- Other overrides leave the recommendation as it is. -/
theorem get_chosen_overridden (s : Subsystem) (p : Plan) (o : Overrides) (c : Catalog)
    (k : Coefficients) (part : Part) :
    (chosen s (p.overridden o) c k).get part =
      pick ((o.get s).get part) ((recommended s p c k).get part) := by
  rw [get_chosen, recommended_overridden]
  rfl

/-- The override of one device decides about this device and about no other one. -/
theorem get_chosen_set (s t : Subsystem) (part other : Part) (device : Option String) (p : Plan)
    (c : Catalog) (k : Coefficients) :
    (chosen t (p.overridden (p.overrides.set s ((p.overrides.get s).set part device))) c k).get
        other =
      if t = s ∧ other = part then pick device ((recommended s p c k).get part)
      else (chosen t p c k).get other := by
  rw [get_chosen_overridden, Overrides.get_set]
  by_cases hsubsystem : t = s
  · subst hsubsystem
    rw [if_pos rfl, get_set]
    by_cases hpart : other = part
    · subst hpart
      rw [if_pos rfl, if_pos ⟨rfl, rfl⟩]
    · rw [if_neg hpart, if_neg fun h => hpart h.2, get_chosen]
  · rw [if_neg hsubsystem, if_neg fun h => hsubsystem h.1, get_chosen]

end Protection

/-! ### Lines of the rules -/

namespace Rules

open Protection

variable {p : Plan} {o : Overrides} {c : Catalog} {k : Coefficients}

/-- Quantity of a part for so many units: cable by the metre, all else by the piece. -/
def partQuantity (k : Coefficients) (units : Float) : Part → Float
  | .cable => units * k.ac.cableLengthPerDevice
  | .breaker | .rcd => units

/-- The line of one device of a subsystem. -/
def partLines (i : Inputs) (s : Subsystem) (part : Part) : List Line :=
  configured i ((chosen s i.plan i.catalog i.coefficients).get part)
    (partQuantity i.coefficients (deviceCount s i.plan).toFloat part)

/-- An installed subsystem has the lines of its devices, one after the other. -/
theorem subsystemLines_eq (i : Inputs) (s : Subsystem) :
    subsystemLines i s =
      if deviceCount s i.plan = 0 then [] else Part.all.flatMap (partLines i s) := by
  simp only [subsystemLines, Part.all, partLines, partQuantity, Protection.get, List.flatMap_cons,
    List.flatMap_nil, List.append_nil, List.append_assoc]

/-- The line of a device is that of the device that is chosen. -/
theorem partLines_overridden {s : Subsystem} {part : Part}
    (h : (chosen s (p.overridden o) c k).get part = (chosen s p c k).get part) :
    partLines ⟨p.overridden o, c, k⟩ s part = partLines ⟨p, c, k⟩ s part := by
  simp only [partLines, deviceCount_overridden, h, configured, emit]

/-- **The rules see of the overrides** what is chosen for the subsystems that are installed. -/
theorem lines_overridden (h : ∀ s, deviceCount s p ≠ 0 → ∀ part,
      (chosen s (p.overridden o) c k).get part = (chosen s p c k).get part) :
    lines ⟨p.overridden o, c, k⟩ = lines ⟨p, c, k⟩ := by
  have hprotection : protectionLines ⟨p.overridden o, c, k⟩ = protectionLines ⟨p, c, k⟩ := by
    apply List.flatMap_congr
    intro s _
    rw [subsystemLines_eq, subsystemLines_eq]
    simp only [deviceCount_overridden]
    split_ifs with hcount
    · rfl
    · apply List.flatMap_congr
      intro part _
      exact partLines_overridden (h s hcount part)
  rw [lines, lines, hprotection]
  rfl

end Rules

/-- Plans with the same protections wherever there is a device compile alike. -/
theorem compile_overridden {p : Plan} {o : Overrides} {c : Catalog} {k : Coefficients}
    (h : ∀ s, Protection.deviceCount s p ≠ 0 → ∀ part,
      (Protection.chosen s (p.overridden o) c k).get part =
        (Protection.chosen s p c k).get part) :
    compile (p.overridden o) c k = compile p c k := by
  simp only [compile, Rules.draft, Rules.lines_overridden h]
  rfl

/-- **Overrides only matter where they say something new.**  A bill stays as it is when blank fields
of the overrides are dropped, when an override without any device is filled in with what is
recommended, and whatever the override of a subsystem is that is not installed.  The override of one
device decides whether this device is the installer's or the recommended one; the identifiers and
the lines of all other devices stay as they are, of the same subsystem and of the others. -/
theorem override_says_something_new (p : Plan) (c : Catalog) (k : Coefficients) :
    (∀ o : Overrides,
      (∀ s part, (o.get s).get part = (p.overrides.get s).get part ∨
        (o.get s).get part = none ∧ nonBlank? ((p.overrides.get s).get part) = none) →
      compile (p.overridden o) c k = compile p c k) ∧
    (∀ s, (p.overrides.get s).isEmpty = true →
      compile (p.overridden (p.overrides.set s (Protection.recommended s p c k))) c k =
        compile p c k) ∧
    (∀ s, Protection.deviceCount s p = 0 → ∀ own : Protection,
      compile (p.overridden (p.overrides.set s own)) c k = compile p c k) ∧
    (∀ s part device,
      let q := p.overridden (p.overrides.set s ((p.overrides.get s).set part device))
      (Protection.chosen s q c k).get part =
          Protection.pick device ((Protection.recommended s p c k).get part) ∧
        ∀ t other, ¬ (t = s ∧ other = part) →
          (Protection.chosen t q c k).get other = (Protection.chosen t p c k).get other ∧
            Rules.partLines ⟨q, c, k⟩ t other = Rules.partLines ⟨p, c, k⟩ t other) := by
  refine ⟨fun o h => ?_, fun s hempty => ?_, fun s hcount own => ?_, fun s part device => ?_⟩
  · apply compile_overridden
    intro s _ part
    rw [Protection.get_chosen_overridden, Protection.get_chosen]
    rcases h s part with hsame | ⟨hnone, hblank⟩
    · rw [hsame]
    · rw [hnone, Protection.pick_of_unnamed hblank, Protection.pick_of_unnamed rfl]
  · apply compile_overridden
    intro t _ part
    rw [Protection.get_chosen_overridden, Protection.get_chosen, Overrides.get_set]
    split_ifs with hsubsystem
    · subst hsubsystem
      rw [Protection.get_of_isEmpty hempty, Protection.pick_self]
      exact (Protection.pick_of_unnamed rfl _).symm
    · rfl
  · apply compile_overridden
    intro t hinstalled part
    have hother : t ≠ s := fun heq => hinstalled (heq ▸ hcount)
    rw [Protection.get_chosen_overridden, Protection.get_chosen, Overrides.get_set, if_neg hother]
  · refine ⟨?_, fun t other hne => ?_⟩
    · rw [Protection.get_chosen_set, if_pos ⟨rfl, rfl⟩]
    · have hchosen := Protection.get_chosen_set s t part other device p c k
      rw [if_neg hne] at hchosen
      exact ⟨hchosen, Rules.partLines_overridden hchosen⟩

/-- The built-in ampacity table is in order and names all its materials. -/
theorem SizingTable.ofCoefficients_builtin :
    SizingTable.ofCoefficients .builtin = ⟨Coefficients.builtin.sizing⟩ := by
  have hnamed : Coefficients.builtin.sizing.map SizingTable.namedOnly =
      Coefficients.builtin.sizing := by
    decide
  rw [SizingTable.ofCoefficients, SizingTable.ofBuckets, hnamed, List.mergeSort_of_pairwise]
  decide

/-- Two inverters and a backup box.  The breaker of the inverters is the installer's own one, their
cable is left blank, and there is a residual-current device for a wallbox that is not installed. -/
def ownBreakerPlan : Plan where
  inverters := [⟨"INV", 2, []⟩]
  options := { backup := some ⟨"BOX", 1⟩ }
  overrides :=
    { inverter := { breaker := some "MCB-C32-4P", cable := some " " }
      wallbox := { rcd := some "RCD-TYPE-B" } }

/-- Dropping the blank cable, accepting what is recommended for the backup box and changing the
override of the wallbox leave the bill as it is; another breaker leaves the cable as it is. -/
theorem override_says_something_new_backup :
    compile (ownBreakerPlan.overridden
        { inverter := { breaker := some "MCB-C32-4P" }, wallbox := { rcd := some "RCD-TYPE-B" } })
      .empty .builtin = compile ownBreakerPlan .empty .builtin ∧
    compile (ownBreakerPlan.overridden (ownBreakerPlan.overrides.set .backup
        { breaker := some "MCB-B16-3P", cable := some "NYM-J-5X1.5" })) .empty .builtin =
      compile ownBreakerPlan .empty .builtin ∧
    compile (ownBreakerPlan.overridden (ownBreakerPlan.overrides.set .wallbox {})) .empty .builtin =
      compile ownBreakerPlan .empty .builtin ∧
    (Protection.chosen .inverter (ownBreakerPlan.overridden (ownBreakerPlan.overrides.set .inverter
        { breaker := some "MCB-B40-3P", cable := some " " })) .empty .builtin).cable =
      some "NYM-J-5X1.5" := by
  obtain ⟨hblank, hempty, huninstalled, hdevice⟩ :=
    override_says_something_new ownBreakerPlan .empty .builtin
  have hbackup : Protection.recommended .backup ownBreakerPlan .empty .builtin =
      { breaker := some "MCB-B16-3P", cable := some "NYM-J-5X1.5" } := by
    rw [Protection.recommended, SizingTable.ofCoefficients_builtin]
    decide
  have hinverter : (Protection.recommended .inverter ownBreakerPlan .empty .builtin).cable =
      some "NYM-J-5X1.5" := by
    rw [Protection.recommended, SizingTable.ofCoefficients_builtin]
    decide
  refine ⟨hblank _ ?_, hbackup ▸ hempty .backup rfl, huninstalled .wallbox (by decide) {}, ?_⟩
  · intro s part
    cases s <;> cases part <;> decide
  · have hcable := (hdevice .inverter .breaker (some "MCB-B40-3P")).2 .inverter .cable (by decide)
    exact hcable.1.trans ((Protection.get_chosen _ _ _ _ .cable).trans hinverter)

end SolarBill
