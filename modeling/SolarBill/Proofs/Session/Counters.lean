import SolarBill.Proofs.Session.Silent

/-!
# What the counters count

The counters are raised in three places: by compiler runs, by refused moves and by sent events.
None of these goes with every operation, and starting over keeps the counters while it replaces the
whole workspace.  Here they are compared with what has happened in the session since it started with
new counters: the bills that were compiled, the events that the operations returned, and those of
them that were returned while there was a subscriber.

* `Recorded` — runs with operations, subscribers that come and go, and bookings, and what has
  happened in them;
* `adds_step` — what one operation adds to the counters;
* `Recorded.tally` — what holds along every run, and `counters_tell_history`, what the counters tell;
* `Recorded.compileMicros_eq` — the time of the compiler runs is their durations, each in whole
  microseconds.
-/

namespace SolarBill

/-- The move forwards is refused. -/
def Event.isRefusal : Event → Bool
  | .advanceBlocked _ _ => true
  | _ => false

/-- A bill has one warning at most. -/
theorem length_warnings_compile_le (plan : Plan) (catalog : Catalog) (coefficients : Coefficients) :
    (compile plan catalog coefficients).warnings.length ≤ 1 := by
  simp only [compile, Rules.draft, Rules.parityWarnings]
  split_ifs <;> simp

/-- What has happened in a session. -/
structure History where
  /-- The bills of all compiler runs. -/
  compiled : List Bill := []
  /-- The events that the operations returned. -/
  returned : List Event := []
  /-- The events that they returned while there was a subscriber. -/
  heard : List Event := []

namespace Session

/-! ### Runs and their history -/

/-- Does the operation run the compiler?  Starting over does, and so does replacing what the
compiler reads, in case of a plan or an override by another one. -/
def compiles (s : Session) : Op → Bool
  | .updatePlan change => change s.workspace.plan ≠ s.workspace.plan
  | .setOverride t own => s.workspace.plan.overrides.get t ≠ own
  | .setCoefficients _ | .setCatalog _ | .reset => true
  | .advance | .back | .editReview _ => false

/-- The bill that an operation compiles, from the plan, the catalogue and the coefficients that the
session has afterwards. -/
def compiledBy (s : Session) (op : Op) : List Bill :=
  if s.compiles op then [(s.step op).1.workspace.compiled] else []

/-- The events that subscribers hear. -/
def heardBy (s : Session) (events : List Event) : List Event :=
  if s.inboxes.isEmpty then [] else events

/-- The history with one more operation. -/
def record (s : Session) (past : History) (op : Op) : History where
  compiled := past.compiled ++ s.compiledBy op
  returned := past.returned ++ (s.step op).2
  heard := past.heard ++ s.heardBy (s.step op).2

/-- A subscriber leaves, with the events that it has yet to read. -/
def unsubscribe (place : Nat) (s : Session) : Session :=
  { s with inboxes := s.inboxes.eraseIdx place }

/-- The sessions that were started with new counters, with what has happened in them. -/
inductive Recorded : Session → History → Prop
  | start (catalog : Catalog) (coefficients : Coefficients) (durations : Nat → Nat := fun _ => 0) :
      Recorded (Session.start catalog coefficients {} durations)
        { compiled := [compile (.preset coefficients) catalog coefficients] }
  | step {s : Session} {past : History} (op : Op) (h : Recorded s past) :
      Recorded (s.step op).1 (s.record past op)
  | subscribe {s : Session} {past : History} (h : Recorded s past) : Recorded s.subscribe past
  | unsubscribe {s : Session} {past : History} (place : Nat) (h : Recorded s past) :
      Recorded (s.unsubscribe place) past
  | drain {s : Session} {past : History} (h : Recorded s past) : Recorded s.drain.2 past
  | commit {s : Session} {past : History} {σ : Type} (store : StockStore σ)
      (request : BookingRequest) (room : σ) (h : Recorded s past) :
      Recorded (s.commit store request room).2.2 past

/-! ### What one operation adds -/

/-- An operation that finds nothing to do does not compile. -/
theorem compiles_of_idle {s : Session} {op : Op} (h : s.Idle op) : ¬ s.compiles op = true := by
  cases op <;> simp_all [Idle, compiles]

/-- One that replaces an input by another one does. -/
theorem compiles_of_replaces {s : Session} {op : Op} (hop : op.replacesInputs = true)
    (hbusy : ¬ s.Idle op) : s.compiles op = true := by
  cases op <;> simp_all [Idle, compiles, Op.replacesInputs]

/-- The warnings of bills. -/
def warningsIn (bills : List Bill) : Nat :=
  (bills.map fun b => b.warnings.length).sum

/-- The time of a number of compiler runs after others, in microseconds.  What a run takes less than
a whole one is not counted. -/
def microsOf (durations : Nat → Nat) (before count : Nat) : Nat :=
  ((List.range' (before + 1) count).map fun run => durations run / 1000).sum

/-- The time of one run. -/
theorem microsOf_one (durations : Nat → Nat) (before : Nat) :
    microsOf durations before 1 = durations (before + 1) / 1000 := by
  simp [microsOf]

/-- The time of runs and of those that follow them. -/
theorem microsOf_add (durations : Nat → Nat) (before count more : Nat) :
    microsOf durations before (count + more) =
      microsOf durations before count + microsOf durations (before + count) more := by
  have hruns : List.range' (before + 1) (count + more) =
      List.range' (before + 1) count ++ List.range' (before + count + 1) more := by
    rw [Nat.add_right_comm, List.range'_append_1]
  rw [microsOf, hruns, List.map_append, List.sum_append, microsOf, microsOf]

/-- Between two sessions bills were compiled and events returned, and the counters tell so. -/
structure Adds (s t : Session) (bills : List Bill) (events : List Event) : Prop where
  durations : t.durations = s.durations
  revision : t.workspace.revision = s.workspace.revision + bills.length
  compilations : t.counters.compilations = s.counters.compilations + bills.length
  micros : t.counters.compileMicros =
    s.counters.compileMicros + microsOf s.durations s.workspace.revision bills.length
  warnings : t.counters.warningsEmitted = s.counters.warningsEmitted + warningsIn bills
  refusals : t.counters.blockedAdvances =
    s.counters.blockedAdvances + events.countP Event.isRefusal
  broadcasts : t.counters.broadcasts = s.counters.broadcasts + (s.heardBy events).length

theorem heardBy_nil (s : Session) : s.heardBy [] = [] := by
  simp [heardBy]

/-- Who hears events is up to the subscribers. -/
theorem heardBy_congr {s t : Session} (h : t.inboxes = s.inboxes) (events : List Event) :
    t.heardBy events = s.heardBy events := by
  rw [heardBy, heardBy, h]

/-- Without a compiler run and without events the counters stay. -/
theorem adds_nothing {s t : Session} (hdurations : t.durations = s.durations)
    (hcounters : t.counters = s.counters)
    (hrevision : t.workspace.revision = s.workspace.revision) : Adds s t [] [] := by
  refine ⟨hdurations, hrevision, ?_, ?_, ?_, ?_, ?_⟩
  · rw [hcounters]
    rfl
  · rw [hcounters]
    rfl
  · rw [hcounters]
    rfl
  · rw [hcounters]
    rfl
  · rw [hcounters, heardBy_nil]
    rfl

/-- All events are heard, or none. -/
theorem length_heardBy (s : Session) (events : List Event) :
    (s.heardBy events).length = if s.inboxes.isEmpty then 0 else events.length := by
  rw [heardBy]
  split_ifs <;> rfl

/-- Publishing counts the events that are heard. -/
theorem publish_counters (s : Session) (events : List Event) :
    (s.publish events).counters = s.counters.broadcast (s.heardBy events).length := by
  rw [length_heardBy]
  rfl

/-- The broadcast events are counted on. -/
theorem broadcasts_publish (s : Session) (events : List Event) :
    (s.publish events).counters.broadcasts =
      s.counters.broadcasts + (s.heardBy events).length := by
  rw [publish_counters, Counters.broadcast]

/-- News of plan, catalogue or coefficients are no refusals. -/
theorem not_isRefusal_of_inputs {e : Event} (h : e.isOfInputs = true) :
    ¬ e.isRefusal = true := by
  cases e <;> simp_all [Event.isOfInputs, Event.isRefusal]

/-- A compiler run is counted with its duration and the warnings of its bill. -/
theorem recompile_counters (s : Session) :
    s.recompile.1.counters = s.counters.compiled (s.durations (s.workspace.revision + 1))
      s.workspace.compiled.warnings.length := by
  simp only [recompile, Workspace.recompile_eq, Workspace.afterCompile]

/-- It tells nobody yet. -/
theorem recompile_inboxes (s : Session) : s.recompile.1.inboxes = s.inboxes := by
  simp only [recompile]

/-- An announcement is counted as a run and as the events that are heard. -/
theorem announce_counters (changes : List Event) (s : Session) :
    (announce changes s).1.counters =
      (s.counters.compiled (s.durations (s.workspace.revision + 1))
        s.workspace.compiled.warnings.length).broadcast
          (s.heardBy (announce changes s).2).length := by
  simp only [announce, publish_counters, recompile_counters, heardBy_congr (recompile_inboxes s)]

/-- Announcements do not change how long runs take. -/
theorem announce_durations (changes : List Event) (s : Session) :
    (announce changes s).1.durations = s.durations := by
  simp only [announce, recompile, publish]

/-- A compiler run and its announcement. -/
theorem adds_announce {changes : List Event} {s u : Session}
    (hquiet : changes.countP Event.isRefusal = 0) (hdurations : u.durations = s.durations)
    (hcounters : u.counters = s.counters) (hinboxes : u.inboxes = s.inboxes)
    (hrevision : u.workspace.revision = s.workspace.revision) :
    Adds s (announce changes u).1 [(announce changes u).1.workspace.compiled]
      (announce changes u).2 := by
  have hcompiled : (announce changes u).1.workspace.compiled = u.workspace.compiled := by
    rw [announce_workspace]
    rfl
  have hrefusals : (announce changes u).2.countP Event.isRefusal = 0 := by
    rw [announce_events, List.countP_append, hquiet]
    split_ifs <;> rfl
  constructor
  · rw [announce_durations, hdurations]
  · rw [announce_workspace, ← hrevision]
    rfl
  · rw [announce_counters, hcounters]
    rfl
  · rw [announce_counters, hcounters, hdurations, hrevision, List.length_singleton, microsOf_one]
    simp only [Counters.broadcast, Counters.compiled]
  · rw [announce_counters, hcounters, hcompiled]
    simp only [Counters.broadcast, Counters.compiled, warningsIn, List.map_cons, List.map_nil,
      List.sum_singleton]
  · rw [announce_counters, hcounters, hrefusals]
    rfl
  · rw [announce_counters, hcounters, heardBy_congr hinboxes]
    rfl

/-- **What one operation adds to the counters.** -/
theorem adds_step (s : Session) (op : Op) :
    Adds s (s.step op).1 (s.compiledBy op) (s.step op).2 := by
  have houtcome := step_outcome s op
  rw [compiledBy]
  generalize hstep : s.step op = result at houtcome ⊢
  -- Every outcome counts what it tells of; only replacing an input and starting over compile.
  cases houtcome with
  | nothing hidle =>
      rw [if_neg (compiles_of_idle hidle)]
      exact adds_nothing rfl rfl rfl
  | replaced hop hinputs hlength hstage hbill hrevision =>
      have hbusy : ¬ s.Idle op := by
        intro hidle
        rw [step_of_idle hidle] at hstep
        exact announce_ne_nil (congrArg Prod.snd hstep).symm
      rw [if_pos (compiles_of_replaces hop hbusy)]
      refine adds_announce ?_ rfl rfl rfl hrevision
      exact List.countP_eq_zero.mpr fun e he => not_isRefusal_of_inputs (hinputs e he)
  | startedOver =>
      have hcompiles : s.compiles .reset = true := rfl
      rw [if_pos hcompiles]
      exact adds_announce rfl rfl rfl rfl rfl
  | advanced hnext hissues => exact ⟨rfl, rfl, rfl, rfl, rfl, rfl, broadcasts_publish _ _⟩
  | refused hnext hissues => exact ⟨rfl, rfl, rfl, rfl, rfl, rfl, broadcasts_publish _ _⟩
  | wentBack hprevious => exact ⟨rfl, rfl, rfl, rfl, rfl, rfl, broadcasts_publish _ _⟩
  | stored hreviewing hafter hsame => exact adds_nothing rfl rfl rfl
  | edited hreviewing hafter hother => exact ⟨rfl, rfl, rfl, rfl, rfl, rfl, broadcasts_publish _ _⟩

/-! ### Whole runs -/

/-- What holds along a run. -/
structure Tally (s : Session) (past : History) : Prop where
  revision : s.workspace.revision = past.compiled.length
  compilations : s.counters.compilations = past.compiled.length
  micros : s.counters.compileMicros = microsOf s.durations 0 past.compiled.length
  warnings : s.counters.warningsEmitted = warningsIn past.compiled
  refusals : s.counters.blockedAdvances = past.returned.countP Event.isRefusal
  broadcasts : s.counters.broadcasts = past.heard.length

/-- A new session has counted its first compiler run. -/
theorem tally_start (catalog : Catalog) (coefficients : Coefficients) (durations : Nat → Nat) :
    Tally (start catalog coefficients {} durations)
      { compiled := [compile (.preset coefficients) catalog coefficients] } := by
  have hcounters : (start catalog coefficients {} durations).counters =
      Counters.compiled {} (durations 1)
        (compile (.preset coefficients) catalog coefficients).warnings.length := by
    rw [start, recompile_counters]
    rfl
  have hdurations : (start catalog coefficients {} durations).durations = durations := by
    simp only [start, recompile]
  constructor
  · rw [start_workspace]
    rfl
  · rw [hcounters]
    rfl
  · rw [hcounters, hdurations, List.length_singleton, microsOf_one]
    simp only [Counters.compiled, Nat.zero_add]
  · rw [hcounters]
    simp only [Counters.compiled, warningsIn, List.map_cons, List.map_nil, List.sum_singleton,
      Nat.zero_add]
  · rw [hcounters]
    rfl
  · rw [hcounters]
    rfl

theorem warningsIn_append (xs ys : List Bill) :
    warningsIn (xs ++ ys) = warningsIn xs + warningsIn ys := by
  simp only [warningsIn, List.map_append, List.sum_append]

/-- What holds along a run holds after one more operation. -/
theorem Tally.step {s : Session} {past : History} (h : Tally s past) (op : Op) :
    Tally (s.step op).1 (s.record past op) := by
  have hadds := adds_step s op
  constructor
  · rw [hadds.revision, h.revision, record, List.length_append]
  · rw [hadds.compilations, h.compilations, record, List.length_append]
  · rw [hadds.micros, h.micros, h.revision, hadds.durations, record, List.length_append,
      microsOf_add, Nat.zero_add]
  · rw [hadds.warnings, h.warnings, record, warningsIn_append]
  · rw [hadds.refusals, h.refusals, record, List.countP_append]
  · rw [hadds.broadcasts, h.broadcasts, record, List.length_append]

/-- A booking is counted as such and not among what the operations count. -/
theorem commit_counters {σ : Type} (store : StockStore σ) (request : BookingRequest) (room : σ)
    (s : Session) :
    ∃ committed rolledBack, (s.commit store request room).2.2 =
      { s with counters :=
        { s.counters with bookingsCommitted := committed, bookingsRolledBack := rolledBack } } := by
  have hcommit : (s.commit store request room).2.2 =
      { s with counters := Booking.counted (s.commit store request room).1 s.counters } := rfl
  rw [hcommit]
  rcases (s.commit store request room).1 with refusal | receipt
  · cases refusal <;> exact ⟨_, _, rfl⟩
  · exact ⟨_, _, rfl⟩

/-- Subscribers may come and go, and bookings are counted apart. -/
theorem Recorded.tally {s : Session} {past : History} (h : Recorded s past) : Tally s past := by
  induction h with
  | start catalog coefficients durations => exact tally_start catalog coefficients durations
  | step op h ih => exact ih.step op
  | subscribe h ih => exact ⟨ih.1, ih.2, ih.3, ih.4, ih.5, ih.6⟩
  | unsubscribe place h ih => exact ⟨ih.1, ih.2, ih.3, ih.4, ih.5, ih.6⟩
  | drain h ih => exact ⟨ih.1, ih.2, ih.3, ih.4, ih.5, ih.6⟩
  | commit store request room h ih =>
      obtain ⟨committed, rolledBack, hcommit⟩ := commit_counters store request room _
      rw [hcommit]
      exact ⟨ih.1, ih.2, ih.3, ih.4, ih.5, ih.6⟩

/-- The bills of the past were compiled from something. -/
theorem Recorded.length_warnings_le {s : Session} {past : History} (h : Recorded s past) :
    ∀ b ∈ past.compiled, b.warnings.length ≤ 1 := by
  induction h with
  | start catalog coefficients durations =>
      intro b hb
      rw [List.mem_singleton.mp hb]
      exact length_warnings_compile_le _ _ _
  | @step s past op h ih =>
      intro b hb
      rcases List.mem_append.mp hb with hpast | hnew
      · exact ih b hpast
      · rw [compiledBy] at hnew
        split_ifs at hnew
        · rw [List.mem_singleton.mp hnew]
          exact length_warnings_compile_le _ _ _
        · exact absurd hnew List.not_mem_nil
  | subscribe h ih => exact ih
  | unsubscribe place h ih => exact ih
  | drain h ih => exact ih
  | commit store request room h ih => exact ih

/-- The time of the compiler runs is what they take, each in whole microseconds. -/
theorem Recorded.compileMicros_eq {s : Session} {past : History} (h : Recorded s past) :
    s.counters.compileMicros = microsOf s.durations 0 s.counters.compilations := by
  rw [h.tally.micros, h.tally.compilations]

/-- Bills with a warning at most have no more warnings than there are bills. -/
theorem warningsIn_le {bills : List Bill} (h : ∀ b ∈ bills, b.warnings.length ≤ 1) :
    warningsIn bills ≤ bills.length := by
  have hsum := List.sum_le_card_nsmul (bills.map fun b => b.warnings.length) 1 (by simpa using h)
  rw [List.length_map, smul_eq_mul, mul_one] at hsum
  exact hsum

/-- **What the counters tell.**  In a session that was started with new counters, whatever has
happened since: the compiler runs are counted as the revision counts them, which starting over does
not take back; the warnings are those of all bills that were compiled, at most one for each; the
refusals are the events that the operations returned of them; and the broadcast events are those
that were returned while there was a subscriber. -/
theorem counters_tell_history {s : Session} {past : History} (h : Recorded s past) :
    s.counters.compilations = s.workspace.revision ∧
    s.counters.compilations = past.compiled.length ∧
    s.counters.warningsEmitted = (past.compiled.map fun b => b.warnings.length).sum ∧
    s.counters.warningsEmitted ≤ s.counters.compilations ∧
    s.counters.blockedAdvances = past.returned.countP Event.isRefusal ∧
    s.counters.broadcasts = past.heard.length := by
  have htally := h.tally
  refine ⟨?_, htally.compilations, htally.warnings, ?_, htally.refusals, htally.broadcasts⟩
  · rw [htally.compilations, htally.revision]
  · rw [htally.warnings, htally.compilations]
    exact warningsIn_le h.length_warnings_le

/-- Nobody listens when the empty plan is refused, but somebody when two modules are left without
a string. -/
def halfHeard : Session × History :=
  let before := start .empty bareCoefficients
  let refused := (before.step .advance).1.subscribe
  let loading := .updatePlan fun _ => unwiredPlan
  ((refused.step loading).1,
    refused.record (before.record
      { compiled := [compile (.preset bareCoefficients) .empty bareCoefficients] } .advance) loading)

/-- Two compiler runs, one warning and one refusal; of the events only those of the plan and the
bill are heard. -/
theorem counters_tell_history_heard :
    Recorded halfHeard.1 halfHeard.2 ∧ halfHeard.1.counters.compilations = 2 ∧
      halfHeard.1.counters.warningsEmitted = 1 ∧ halfHeard.1.counters.blockedAdvances = 1 ∧
      halfHeard.1.counters.broadcasts = 2 := by
  have hrecorded : Recorded halfHeard.1 halfHeard.2 :=
    ((Recorded.start .empty bareCoefficients).step .advance).subscribe.step _
  have hpast : halfHeard.2.compiled.length = 2 ∧
      (halfHeard.2.compiled.map fun b => b.warnings.length).sum = 1 ∧
      halfHeard.2.returned.countP Event.isRefusal = 1 ∧ halfHeard.2.heard.length = 2 := by
    decide
  obtain ⟨-, hcompilations, hwarnings, -, hrefusals, hbroadcasts⟩ :=
    counters_tell_history hrecorded
  rw [hcompilations, hwarnings, hrefusals, hbroadcasts]
  exact ⟨hrecorded, hpast⟩

end Session

end SolarBill
