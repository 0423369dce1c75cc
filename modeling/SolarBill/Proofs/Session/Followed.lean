import SolarBill.Proofs.Session.Review

/-!
# Following a session by its events

A subscriber never reads the session.  All it has are the events that its channel holds until it
reads them, and a channel that is full drops the oldest event for a new one.  A subscriber from the
start that reads in time misses nothing, and can replay the events: a move leads to its target,
starting over leads to the first stage, and no other event is about the stage.

* `Channel.sendAll_of_room` — a channel with room for them keeps all events;
* `tells_step` — what the events of one operation say of the session before and after it;
* `Followed` — the sessions with a subscriber from the start that reads in time, and
  `Followed.keepsUp`, what holds of the events along such a run;
* `subscriber_follows` — the events that are received are those that the operations return, the
  replay ends in the stage of the session, and every event fits the replay.
-/

namespace SolarBill

/-! ### Channels -/

namespace Channel

/-- What a channel holds after an event is sent: the newest events, as many as it has room for. -/
def send (capacity : Nat) (pending : List Event) (e : Event) : List Event :=
  (pending ++ [e]).rtake capacity

/-- What a channel holds after events are sent, one by one. -/
def sendAll (capacity : Nat) (pending events : List Event) : List Event :=
  events.foldl (send capacity) pending

/-- Nothing is dropped from a channel that has room for what is sent. -/
theorem sendAll_of_room {capacity : Nat} {pending events : List Event}
    (h : pending.length + events.length ≤ capacity) :
    sendAll capacity pending events = pending ++ events := by
  induction events generalizing pending with
  | nil => rw [List.append_nil]; rfl
  | cons e rest ih =>
      rw [List.length_cons] at h
      have hsent : send capacity pending e = pending ++ [e] := by
        have hlength : (pending ++ [e]).length ≤ capacity := by
          rw [List.length_append, List.length_singleton]
          omega
        rw [send, List.rtake, Nat.sub_eq_zero_of_le hlength, List.drop_zero]
      have hroom : (pending ++ [e]).length + rest.length ≤ capacity := by
        rw [List.length_append, List.length_singleton]
        omega
      calc sendAll capacity pending (e :: rest)
          = sendAll capacity (pending ++ [e]) rest := by rw [← hsent]; rfl
        _ = pending ++ [e] ++ rest := ih hroom
        _ = pending ++ e :: rest := by rw [List.append_assoc, List.singleton_append]

end Channel

/-! ### Replaying events -/

namespace Stage

/-- The stages stand next to each other in the wizard. -/
def Neighbours (s t : Stage) : Prop :=
  [s, t] <:+: all ∨ [t, s] <:+: all

/-- The next stage is a neighbour. -/
theorem neighbours_of_next? {s t : Stage} (h : s.next? = some t) : s.Neighbours t := by
  cases s <;> cases h <;> exact Or.inl (by decide)

theorem neighbours_of_previous? {s t : Stage} (h : s.previous? = some t) : s.Neighbours t := by
  cases s <;> cases h <;> exact Or.inr (by decide)

end Stage

namespace Event

/-- The stage after an event, for a reader who knows the stage before it. -/
def replayed (stage : Stage) : Event → Stage
  | .stageChanged _ target => target
  | .sessionReset => .moduleAndRoof
  | _ => stage

/-- An event is right about the stage: a move starts there and ends in a neighbour of it, and a
refusal names it. -/
def Fits (stage : Stage) : Event → Prop
  | .stageChanged source target => source = stage ∧ stage.Neighbours target
  | .advanceBlocked refused _ => refused = stage
  | _ => True

/-- The number of the compiler run that an event tells of. -/
def revision? : Event → Option Nat
  | .billCompiled revision _ _ => some revision
  | _ => none

/-- News of plan, catalogue or coefficients move nobody, fit everywhere and have no revision. -/
theorem replayed_of_inputs {e : Event} (h : e.isOfInputs = true) (stage : Stage) :
    e.replayed stage = stage ∧ e.Fits stage ∧ e.revision? = none := by
  cases e <;> first | exact ⟨rfl, trivial, rfl⟩ | exact absurd h Bool.false_ne_true

end Event

/-- The stage after events, for a reader who knows the stage before them. -/
def replay (stage : Stage) (events : List Event) : Stage :=
  events.foldl Event.replayed stage

/-- Every event fits the stage that the events before it lead to. -/
inductive AllFit : Stage → List Event → Prop
  | nil (stage : Stage) : AllFit stage []
  | cons {stage : Stage} {e : Event} {rest : List Event} (hfits : e.Fits stage)
      (hrest : AllFit (e.replayed stage) rest) : AllFit stage (e :: rest)

/-- The numbers of the compiler runs that events tell of, in order. -/
def revisions (events : List Event) : List Nat :=
  events.filterMap Event.revision?

theorem replay_append (stage : Stage) (xs ys : List Event) :
    replay stage (xs ++ ys) = replay (replay stage xs) ys :=
  List.foldl_append

theorem AllFit.singleton {stage : Stage} {e : Event} (h : e.Fits stage) : AllFit stage [e] :=
  .cons h (.nil _)

theorem AllFit.append {stage : Stage} {xs ys : List Event} (hx : AllFit stage xs)
    (hy : AllFit (replay stage xs) ys) : AllFit stage (xs ++ ys) := by
  induction hx with
  | nil stage => exact hy
  | cons hfits hrest ih => exact .cons hfits (ih hy)

theorem revisions_append (xs ys : List Event) :
    revisions (xs ++ ys) = revisions xs ++ revisions ys :=
  List.filterMap_append

/-- Announcements of new inputs say nothing of the stage and of no compiler run. -/
theorem replay_of_inputs {events : List Event} (h : ∀ e ∈ events, e.isOfInputs = true)
    (stage : Stage) :
    replay stage events = stage ∧ AllFit stage events ∧ revisions events = [] := by
  induction events with
  | nil => exact ⟨rfl, .nil _, rfl⟩
  | cons e rest ih =>
      obtain ⟨hreplay, hfit, hrevisions⟩ := ih fun o ho => h o (List.mem_cons_of_mem e ho)
      obtain ⟨hstage, hfits, hrevision⟩ :=
        Event.replayed_of_inputs (h e List.mem_cons_self) stage
      refine ⟨?_, .cons hfits ?_, ?_⟩
      · rw [replay, List.foldl_cons, hstage]
        exact hreplay
      · rw [hstage]
        exact hfit
      · rw [revisions, List.filterMap_cons, hrevision]
        exact hrevisions

/-- A compiler run tells of itself or of nothing. -/
theorem Workspace.replay_recompile (w : Workspace) (stage : Stage) :
    replay stage w.recompile.2 = stage ∧ AllFit stage w.recompile.2 ∧
      (revisions w.recompile.2 = [] ∨ revisions w.recompile.2 = [w.revision + 1]) := by
  rw [recompile_eq]
  dsimp only
  split_ifs
  · exact ⟨rfl, .nil _, Or.inl rfl⟩
  · exact ⟨rfl, .singleton trivial, Or.inr rfl⟩

namespace Session

/-! ### What the events of an operation say -/

/-- Events tell how one session came from another: every subscriber gets them, they lead from stage
to stage, and if they tell of a compiler run, it is a new one, and they tell of one only. -/
structure Tells (s t : Session) (events : List Event) : Prop where
  inboxes : t.inboxes = s.inboxes.map (· ++ events)
  stage : replay s.workspace.stage events = t.workspace.stage
  fit : AllFit s.workspace.stage events
  revision : s.workspace.revision ≤ t.workspace.revision
  revisions : revisions events = [] ∨
    revisions events = [t.workspace.revision] ∧ s.workspace.revision < t.workspace.revision

/-- No events tell of a session with the same stage and revision. -/
theorem tells_nothing {s t : Session} (hinboxes : t.inboxes = s.inboxes)
    (hstage : t.workspace.stage = s.workspace.stage)
    (hrevision : t.workspace.revision = s.workspace.revision) : Tells s t [] where
  inboxes := by simp [hinboxes]
  stage := hstage.symm
  fit := .nil _
  revision := hrevision.ge
  revisions := Or.inl rfl

/-- One event that fits and is about no compiler run. -/
theorem tells_one {s t : Session} {e : Event}
    (hinboxes : t.inboxes = s.inboxes.map (· ++ [e]))
    (hstage : e.replayed s.workspace.stage = t.workspace.stage) (hfits : e.Fits s.workspace.stage)
    (hnone : e.revision? = none) (hrevision : t.workspace.revision = s.workspace.revision) :
    Tells s t [e] where
  inboxes := hinboxes
  stage := hstage
  fit := .singleton hfits
  revision := hrevision.ge
  revisions := Or.inl (List.filterMap_cons_none hnone)

/-- Announcements that lead to the stage of the new workspace, followed by its compiler run. -/
theorem tells_announce {changes : List Event} {s : Session} {w : Workspace}
    (hreplay : replay s.workspace.stage changes = w.stage)
    (hfit : AllFit s.workspace.stage changes) (hnone : SolarBill.revisions changes = [])
    (hrevision : w.revision = s.workspace.revision) :
    Tells s (announce changes { s with workspace := w }).1
      (announce changes { s with workspace := w }).2 := by
  have hevents : (announce changes { s with workspace := w }).2 = changes ++ w.recompile.2 := by
    simp only [announce, recompile]
  have hworkspace : (announce changes { s with workspace := w }).1.workspace = w.afterCompile :=
    announce_workspace changes { s with workspace := w }
  have hafter : w.afterCompile.revision = s.workspace.revision + 1 := by
    rw [← hrevision]
    rfl
  obtain ⟨hstage, hfits, hrevisions⟩ := w.replay_recompile w.stage
  refine ⟨?_, ?_, ?_, ?_, ?_⟩
  · simp only [announce, recompile, publish]
  · rw [hworkspace, hevents, replay_append, hreplay, hstage]
    rfl
  · rw [hevents]
    exact hfit.append (hreplay ▸ hfits)
  · rw [hworkspace, hafter]
    exact Nat.le_succ _
  · rw [hworkspace, hevents, revisions_append, hnone, List.nil_append, hafter, ← hrevision]
    exact hrevisions.imp_right fun hone => ⟨hone, Nat.lt_succ_self _⟩

/-- **What the events of an operation say** of the session before and after it. -/
theorem tells_step (s : Session) (op : Op) : Tells s (s.step op).1 (s.step op).2 := by
  have houtcome := step_outcome s op
  generalize s.step op = result at houtcome ⊢
  cases houtcome with
  | nothing hidle => exact tells_nothing rfl rfl rfl
  | replaced hop hinputs hlength hstage hbill hrevision =>
      obtain ⟨hreplay, hfit, hnone⟩ := replay_of_inputs hinputs s.workspace.stage
      exact tells_announce (hreplay.trans hstage.symm) hfit hnone hrevision
  | startedOver => exact tells_announce rfl (.singleton trivial) rfl rfl
  | advanced hnext hissues =>
      exact tells_one rfl rfl ⟨rfl, Stage.neighbours_of_next? hnext⟩ rfl rfl
  | refused hnext hissues => exact tells_one rfl rfl rfl rfl rfl
  | wentBack hprevious =>
      exact tells_one rfl rfl ⟨rfl, Stage.neighbours_of_previous? hprevious⟩ rfl rfl
  | stored hreviewing hafter hsame => exact tells_nothing rfl rfl rfl
  | edited hreviewing hafter hother => exact tells_one rfl rfl trivial rfl rfl

/-! ### Subscribers from the start -/

/-- Events that the channel of a session has room for. -/
def channelCapacity : Nat := 100

/-- The sessions with a first subscriber from the start, whose channel has always had room for the
events: with the events that the operations returned, those that the subscriber has read, and those
that its channel holds. -/
inductive Followed (capacity : Nat) :
    Session → (returned read pending : List Event) → Prop
  | start (catalog : Catalog) (coefficients : Coefficients) (counters : Counters)
      (durations : Nat → Nat := fun _ => 0) :
      Followed capacity (Session.start catalog coefficients counters durations).subscribe [] [] []
  | step {s : Session} {returned read pending : List Event} (op : Op)
      (h : Followed capacity s returned read pending)
      (hroom : pending.length + (s.step op).2.length ≤ capacity) :
      Followed capacity (s.step op).1 (returned ++ (s.step op).2) read
        (Channel.sendAll capacity pending (s.step op).2)
  | subscribe {s : Session} {returned read pending : List Event}
      (h : Followed capacity s returned read pending) :
      Followed capacity s.subscribe returned read pending
  | drain {s : Session} {returned read pending : List Event}
      (h : Followed capacity s returned read pending) :
      Followed capacity s.drain.2 returned (read ++ pending) []
  | commit {s : Session} {returned read pending : List Event} {σ : Type} (store : StockStore σ)
      (request : BookingRequest) (room : σ) (h : Followed capacity s returned read pending) :
      Followed capacity (s.commit store request room).2.2 returned read pending

/-- What holds along a run that is followed. -/
structure KeepsUp (s : Session) (returned read pending : List Event) : Prop where
  inbox : s.inboxes.head? = some pending
  received : read ++ pending = returned
  stage : replay .moduleAndRoof returned = s.workspace.stage
  fit : AllFit .moduleAndRoof returned
  increasing : (revisions returned).Pairwise (· < ·)
  revisions : ∀ n ∈ revisions returned, n ≤ s.workspace.revision

/-- What a subscriber knows after one more operation. -/
theorem KeepsUp.step {s t : Session} {returned read pending events : List Event}
    (h : KeepsUp s returned read pending) (htells : Tells s t events) :
    KeepsUp t (returned ++ events) read (pending ++ events) where
  inbox := by rw [htells.inboxes, List.head?_map, h.inbox, Option.map_some]
  received := by rw [← List.append_assoc, h.received]
  stage := by rw [replay_append, h.stage, htells.stage]
  fit := h.fit.append (h.stage ▸ htells.fit)
  increasing := by
    rcases htells.revisions with hnone | ⟨hone, hnewer⟩
    · rw [revisions_append, hnone, List.append_nil]
      exact h.increasing
    · rw [revisions_append, hone, List.pairwise_append]
      refine ⟨h.increasing, List.pairwise_singleton _ _, fun n hn m hm => ?_⟩
      rw [List.mem_singleton.mp hm]
      exact (h.revisions n hn).trans_lt hnewer
  revisions := by
    intro n hn
    rw [revisions_append, List.mem_append] at hn
    rcases hn with hn | hn
    · exact (h.revisions n hn).trans htells.revision
    · rcases htells.revisions with hnone | ⟨hone, -⟩
      · exact absurd (hnone ▸ hn) List.not_mem_nil
      · exact (List.mem_singleton.mp (hone ▸ hn)).le

/-- Whoever follows a session keeps up with it. -/
theorem Followed.keepsUp {capacity : Nat} {s : Session} {returned read pending : List Event}
    (h : Followed capacity s returned read pending) : KeepsUp s returned read pending := by
  induction h with
  | start catalog coefficients counters durations =>
      have hinboxes :
          (Session.start catalog coefficients counters durations).subscribe.inboxes = [[]] := by
        simp only [Session.start, recompile, Session.subscribe, List.nil_append]
      have hstage : (Session.start catalog coefficients counters
          durations).subscribe.workspace.stage = .moduleAndRoof := by
        rw [Session.subscribe, start_workspace]
        rfl
      refine ⟨?_, rfl, hstage.symm, .nil _, List.Pairwise.nil,
        fun _ hn => absurd hn List.not_mem_nil⟩
      rw [hinboxes]
      rfl
  | step op h hroom ih =>
      rw [Channel.sendAll_of_room hroom]
      exact ih.step (tells_step _ op)
  | subscribe h ih =>
      refine ⟨?_, ih.received, ih.stage, ih.fit, ih.increasing, ih.revisions⟩
      rw [Session.subscribe, List.head?_append, ih.inbox]
      rfl
  | drain h ih =>
      refine ⟨?_, ?_, ih.stage, ih.fit, ih.increasing, ih.revisions⟩
      · rw [Session.drain, List.head?_map, ih.inbox]
        rfl
      · rw [List.append_nil, ih.received]
  | commit store request room h ih => exact ⟨ih.1, ih.2, ih.3, ih.4, ih.5, ih.6⟩

/-! ### Reading after every operation -/

/-- An operation returns five events at most: the plan has changed, so have all overrides, and the
compiler ran. -/
theorem step_events_length (s : Session) (op : Op) : (s.step op).2.length ≤ 5 := by
  have hcompiled : ∀ (changes : List Event) (t : Session),
      (announce changes t).2.length ≤ changes.length + 1 := by
    intro changes t
    rw [announce_events, List.length_append]
    split_ifs <;> simp
  have houtcome := step_outcome s op
  generalize s.step op = result at houtcome ⊢
  cases houtcome with
  | replaced hop hinputs hlength =>
      refine (hcompiled _ _).trans ?_
      rw [List.length_cons]
      exact Nat.add_le_add_right (Nat.succ_le_succ hlength) 1
  | startedOver => exact (hcompiled _ _).trans (by simp)
  | _ => simp

/-- The session after operations with the events read after each of them. -/
def afterReading (s : Session) (ops : List Op) : Session :=
  ops.foldl (fun s op => (s.step op).1.drain.2) s

/-- The events that operations return when they are read after each of them. -/
def returnedBy (s : Session) : List Op → List Event
  | [] => []
  | op :: rest => (s.step op).2 ++ returnedBy (s.step op).1.drain.2 rest

/-- Every run is followed by whoever reads after each operation. -/
theorem Followed.reading {capacity : Nat} (hcapacity : 5 ≤ capacity) {s : Session}
    {returned : List Event} (h : Followed capacity s returned returned []) (ops : List Op) :
    Followed capacity (s.afterReading ops) (returned ++ s.returnedBy ops)
      (returned ++ s.returnedBy ops) [] := by
  induction ops generalizing s returned with
  | nil =>
      rw [returnedBy, List.append_nil]
      exact h
  | cons op rest ih =>
      have hroom : ([] : List Event).length + (s.step op).2.length ≤ capacity := by
        rw [List.length_nil, Nat.zero_add]
        exact (step_events_length s op).trans hcapacity
      have hread := (h.step op hroom).drain
      rw [Channel.sendAll_of_room hroom, List.nil_append] at hread
      have hrest := ih hread
      rw [List.append_assoc] at hrest
      exact hrest

/-! ### What a subscriber learns -/

/-- **A subscriber follows the session.**  Whoever subscribes at the start and reads before the
channel is full receives the events that the operations return, all of them and in this order.
Replaying them gives the stage of the session; along the replay every move starts at the stage that
was replayed and ends in one of its neighbours, every refusal names that stage, and the compiler
runs that are told of have ever larger numbers. -/
theorem subscriber_follows {s : Session} {returned read pending : List Event}
    (h : Followed channelCapacity s returned read pending) :
    read ++ pending = returned ∧ s.inboxes.head? = some pending ∧
      replay .moduleAndRoof returned = s.workspace.stage ∧
      AllFit .moduleAndRoof returned ∧
      (revisions returned).Pairwise (· < ·) := by
  have hkeeps := h.keepsUp
  exact ⟨hkeeps.received, hkeeps.inbox, hkeeps.stage, hkeeps.fit, hkeeps.increasing⟩

/-- A plan is entered, the first stage is left, the session starts over, and the plan that is left
is refused. -/
def startingOver : List Op :=
  [.updatePlan fun _ => wiredPlan, .advance, .reset, .advance]

/-- The events of a session that starts over. -/
def startingOverEvents : List Event :=
  (start .empty plainCoefficients).subscribe.returnedBy startingOver

/-- Two compiler runs, and a replay that is back in the first stage. -/
theorem subscriber_follows_startingOver :
    Followed channelCapacity
        ((start .empty plainCoefficients).subscribe.afterReading startingOver)
        startingOverEvents startingOverEvents [] ∧
      revisions startingOverEvents = [2, 3] ∧
      AllFit .moduleAndRoof startingOverEvents ∧
      replay .moduleAndRoof startingOverEvents = .moduleAndRoof := by
  have hstart : Followed channelCapacity (start .empty plainCoefficients).subscribe [] [] [] :=
    .start .empty plainCoefficients {}
  have hfollowed := hstart.reading (by decide) startingOver
  rw [List.nil_append] at hfollowed
  obtain ⟨-, -, hstage, hfit, -⟩ := subscriber_follows hfollowed
  refine ⟨hfollowed, by decide +kernel, hfit, hstage.trans ?_⟩
  decide +kernel

end Session

end SolarBill
