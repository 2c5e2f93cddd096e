import PartLib.Encoder.EventQueue

/-!
# Cycles of `init_encoder` and `destroy_encoder`

`init_encoder` clears the descriptor and the position, adds the descriptor, and creates the task;
`destroy_encoder` deletes the task and removes the descriptor. The timer and the queue outlive the
cycle, and nobody empties the queue: the events that the deleted task has left in it, and those that
are raised before the descriptor is removed, are still there when the next task starts.

When the queue is empty as the descriptor is added, every event with which a callback is called, and
every event that moves the position, was raised after that (`ownCycle_of_empty`).
-/

namespace PartLib.Encoder

/-- Where the caller of `init_encoder` and `destroy_encoder` is: outside; in `init_encoder`, with the
callback that is to be set, after the descriptor is cleared, `ctl_d` is zero, and `ctl_q` is zero; in
`rotary_encoder_add` with the mutex, after it, and after the callback is set; between the two calls;
and in `destroy_encoder`, after the task is deleted, and in `rotary_encoder_remove` with the mutex. -/
inductive AppPc
  | out
  | cleared (callback : Bool)
  | zeroing (callback : Bool)
  | zeroed (callback : Bool)
  | adding (callback : Bool)
  | added (callback : Bool)
  | hooked
  | running
  | deleted
  | removing
  deriving DecidableEq

/-- The encoder, and its caller. -/
structure Life where
  enc : MyEncoder := {}
  app : AppPc := .out
  deriving DecidableEq

/-- The moves: one of the encoder; `init_encoder` is called with its pins, and with a callback or
`NULL`; and the caller goes on, in `init_encoder`, to `destroy_encoder`, and in it. -/
inductive LifeInput
  | enc (i : EncInput)
  | initEncoder (pinA pinB pinBtn : ℕ) (callback : Bool)
  | app

/-- The next statement of `init_encoder` or `destroy_encoder`. -/
def appStep (s : MyEncoder) : AppPc → Option (MyEncoder × AppPc × List EncOut)
  | .out => none
  | .cleared callback => some ({ s with ctlD := 0 }, .zeroing callback, [.cleared])
  | .zeroing callback => some ({ s with ctlQ := 0 }, .zeroed callback, [])
  | .zeroed callback =>
    -- A take that times out makes `init_encoder` abort.
    if s.mutex = none then
      some ({ s with mutex := some .app, encs := true, cycle := s.cycle + 1 }, .adding callback, [])
    else none
  | .adding callback =>
    some ({ s with re := { s.re with btnState := .released, btnPressedTimeUs := 0 }, mutex := none },
      .added callback, [])
  | .added callback =>
    some ({ s with eventCallback := if callback then some s.cycle else none }, .hooked, [])
  | .hooked => some ({ s with task := some .receiving }, .running, [])
  | .running => some ({ s with task := none }, .deleted, [])
  | .deleted =>
    if s.mutex = none then some ({ s with mutex := some .app, encs := false }, .removing, [])
    else none
  | .removing => some ({ s with mutex := none }, .out, [])

/-- The encoder over its cycles. -/
def lifecycle (cfg : Config) : Machine Life LifeInput EncOut where
  init := {}
  step s i :=
    match i with
    | .enc i => (s.enc.step cfg i).map fun r => (⟨r.1, s.app⟩, r.2)
    | .initEncoder pinA pinB pinBtn callback =>
      if s.app = .out then
        some (⟨{ s.enc with re := { pinA := pinA, pinB := pinB, pinBtn := pinBtn } },
          .cleared callback⟩, [])
      else none
    | .app => (appStep s.enc s.app).map fun r => (⟨r.1, r.2.1⟩, r.2.2)

/-! ## What a cycle is for -/

/-- The position after an output: `init_encoder` sets it to zero, and an event moves it. -/
def EncOut.position (p : Int32) : EncOut → Int32
  | .cleared => 0
  | .moved e => p + Int32.ofInt e.change
  | _ => p

/-- The position after the given outputs. -/
def positionOf (os : List EncOut) : Int32 := os.foldl EncOut.position 0

/-- The events with which a callback is called were raised in the cycle that has set this callback,
and those that move the position in the current one. -/
structure OwnCycle (s : Life) (o : List EncOut) : Prop where
  called : ∀ callback event e, .called callback event e ∈ o → e.cycle = callback
  moved : ∀ e, .moved e ∈ o → e.cycle = s.enc.cycle

/-- The queue is empty when `rotary_encoder_add` adds the descriptor. -/
def EmptyAtAdd (s : Life) : LifeInput → Prop
  | .app =>
    match s.app with
    | .zeroed _ => s.enc.eventQueue = []
    | _ => True
  | _ => True

instance (s : Life) (i : LifeInput) : Decidable (EmptyAtAdd s i) := by
  unfold EmptyAtAdd
  split
  · split <;> infer_instance
  · infer_instance

/-- The input sets the position from outside the task. -/
def LifeInput.SetsPosition : LifeInput → Prop
  | .enc i => i.SetsPosition
  | _ => False

/-! ## One step -/

/-- From the call of `rotary_encoder_add` to `destroy_encoder`. -/
def AppPc.Live : AppPc → Prop
  | .adding _ | .added _ | .hooked | .running => True
  | _ => False

/-- In `rotary_encoder_add` or `rotary_encoder_remove`, with the mutex. -/
def AppPc.Locked : AppPc → Prop
  | .adding _ | .removing => True
  | _ => False

variable {cfg : Config} {s s' : MyEncoder} {i : EncInput} {o : List EncOut}

/-- The queue holds what it held, and what was sent. -/
theorem mem_sendToBack {queue : List Raised} {e e' : Raised} (h : e ∈ sendToBack queue e') :
    e ∈ queue ∨ e = e' := by
  rw [sendToBack] at h
  split_ifs at h
  · simpa using h
  · exact .inl h

/-- An event is on its way since it was raised. -/
theorem EncMove.mem_onTheWay (hm : EncMove cfg s i s' o) {e : Raised} (he : e ∈ s'.onTheWay) :
    e ∈ s.onTheWay ∨ e.cycle = s.cycle := by
  cases hm with
  | polled levels hmutex hencs =>
    simp only [MyEncoder.onTheWay, MyEncoder.raises, List.mem_append, List.mem_map] at he ⊢
    rcases he with he | ⟨e', _, rfl⟩
    · exact .inl (.inl he)
    · exact .inr rfl
  | @sent e' rest hunsent =>
    simp only [MyEncoder.onTheWay, hunsent, List.mem_append, List.mem_cons] at he ⊢
    rcases he with (he | he) | he
    · exact .inl (.inl (.inl he))
    · rcases mem_sendToBack he with he | rfl
      · exact .inl (.inl (.inr he))
      · exact .inl (.inr (.inl rfl))
    · exact .inl (.inr (.inr he))
  | receive htask hqueue =>
    simp [MyEncoder.onTheWay, TaskPc.inHand, htask, hqueue] at he ⊢
    tauto
  | notTaken | nothingAdded | given | callbackWrite | setCtlD | setCtlQ => exact .inl he
  | button htask _ | readAdd htask _ | add htask | compare htask | compareTo htask
  | call htask _ | noCall htask _ | callbackReturn htask | readStore htask | store htask =>
    simp [MyEncoder.onTheWay, TaskPc.inHand, htask] at he ⊢
    tauto

/-- An event with which the task calls a callback was on its way, and the callback is the one that is
set. -/
theorem EncMove.called (hm : EncMove cfg s i s' o) {callback : ℕ} {event : MyEncoderEvent}
    {e : Raised} (h : .called callback event e ∈ o) :
    s.task ≠ none ∧ e ∈ s.onTheWay ∧ s.eventCallback = some callback := by
  cases hm <;> simp at h
  case call htask hcallback =>
    obtain ⟨rfl, -, rfl⟩ := h
    exact ⟨by simp [htask], by simp [MyEncoder.onTheWay, TaskPc.inHand, htask], hcallback⟩

/-- An event with which the task moves the position was on its way. -/
theorem EncMove.moved (hm : EncMove cfg s i s' o) {e : Raised} (h : .moved e ∈ o) :
    s.task ≠ none ∧ e ∈ s.onTheWay := by
  cases hm <;> simp at h
  case add htask =>
    subst h
    exact ⟨by simp [htask], by simp [MyEncoder.onTheWay, TaskPc.inHand, htask]⟩

/-- What the moves of the encoder leave as it is. -/
theorem EncMove.frame (hm : EncMove cfg s i s' o) :
    s'.cycle = s.cycle ∧ (s.task = none → s'.task = none) ∧
      (s.mutex = some .app → s'.mutex = some .app) := by
  cases hm <;> simp_all

/-- No move of the encoder sets the position to zero. -/
theorem EncMove.not_cleared (hm : EncMove cfg s i s' o) : .cleared ∉ o := by
  cases hm <;> simp

/-- The position after outputs that do not set it to zero. -/
theorem foldl_position {os : List EncOut} (h : .cleared ∉ os) (p : Int32) :
    os.foldl EncOut.position p = p + Int32.ofInt (changes (movedOf os)) := by
  induction os generalizing p with
  | nil => simp [movedOf]
  | cons o os ih =>
    rw [List.foldl_cons, ih (fun hmem => h (List.mem_cons_of_mem _ hmem))]
    cases o with
    | cleared => simp at h
    | moved e =>
      simp [movedOf, EncOut.position, Int32.add_assoc]
    | raised e => simp [movedOf, EncOut.position]
    | called callback event e => simp [movedOf, EncOut.position]

/-! ## Every run -/

/-- What holds of the encoder when the queue is empty as the descriptor is added: from then on, until
the task is deleted, only events of this cycle are on their way, to the callback of this cycle. -/
structure LifeInv (s : Life) : Prop where
  enc : EncInv s.enc
  task : s.app ≠ .running → s.enc.task = none
  mutex : s.app.Locked → s.enc.mutex = some .app
  own : s.app.Live → ∀ e ∈ s.enc.onTheWay, e.cycle = s.enc.cycle
  callback : s.app = .hooked ∨ s.app = .running →
    ∀ callback, s.enc.eventCallback = some callback → callback = s.enc.cycle

/-- A move of the encoder keeps the invariant. -/
theorem LifeInv.encMove {app : AppPc} (hs : LifeInv ⟨s, app⟩) (hm : EncMove cfg s i s' o) :
    LifeInv ⟨s', app⟩ where
  enc := hs.enc.step hm
  task happ := hm.frame.2.1 (hs.task happ)
  mutex happ := hm.frame.2.2 (hs.mutex happ)
  own hlive e he := by
    rw [hm.frame.1]
    exact (hm.mem_onTheWay he).elim (hs.own hlive e) id
  callback happ callback hcallback := by
    rw [hm.eventCallback] at hcallback
    rw [hm.frame.1]
    exact hs.callback happ callback hcallback

/-- The invariant outside the time in which the descriptor is added and the task runs. -/
theorem LifeInv.of_not_live {app : AppPc} (henc : EncInv s) (htask : s.task = none)
    (hlive : ¬ app.Live) (hmutex : app.Locked → s.mutex = some .app) : LifeInv ⟨s, app⟩ where
  enc := henc
  task _ := htask
  mutex := hmutex
  own h := absurd h hlive
  callback h := by
    rcases h with rfl | rfl
    · exact absurd trivial hlive
    · exact absurd trivial hlive

/-- The next statement of the caller keeps the invariant, when the queue is empty as the descriptor
is added. -/
theorem LifeInv.appStep {app app' : AppPc} (hs : LifeInv ⟨s, app⟩)
    (hempty : EmptyAtAdd ⟨s, app⟩ .app) (hstep : appStep s app = some (s', app', o)) :
    LifeInv ⟨s', app'⟩ := by
  cases app with
  | out => cases hstep
  | cleared callback =>
    cases hstep
    exact .of_not_live ⟨hs.enc.idle, hs.enc.task⟩ (hs.task (by simp)) id (fun h => h.elim)
  | zeroing callback =>
    cases hstep
    exact .of_not_live ⟨hs.enc.idle, hs.enc.task⟩ (hs.task (by simp)) id (fun h => h.elim)
  | zeroed callback =>
    simp only [Encoder.appStep] at hstep
    split_ifs at hstep with hmutex
    cases hstep
    have htask : s.task = none := hs.task (by simp)
    have hunsent : s.unsent = [] := hs.enc.idle (by simp [hmutex])
    have hqueue : s.eventQueue = [] := hempty
    refine ⟨⟨fun _ => hunsent, hs.enc.task⟩, fun _ => htask, fun _ => rfl, fun _ e he => ?_,
      by simp⟩
    -- No event is on its way from before.
    simp [MyEncoder.onTheWay, htask, hunsent, hqueue] at he
  | adding callback =>
    cases hstep
    have hmutex : s.mutex = some .app := hs.mutex trivial
    have hunsent : s.unsent = [] := hs.enc.idle (by simp [hmutex])
    exact ⟨⟨fun _ => hunsent, hs.enc.task⟩, fun _ => hs.task (by simp), fun h => h.elim,
      fun _ => hs.own trivial, by simp⟩
  | added callback =>
    cases hstep
    refine ⟨⟨hs.enc.idle, hs.enc.task⟩, fun _ => hs.task (by simp), fun h => h.elim,
      fun _ => hs.own trivial, ?_⟩
    cases callback <;> simp
  | hooked =>
    cases hstep
    have htask : s.task = none := hs.task (by simp)
    refine ⟨⟨hs.enc.idle, by rintro _ ⟨⟩; trivial⟩, fun h => absurd rfl h, fun h => h.elim,
      fun _ e he => ?_, fun _ => hs.callback (.inl rfl)⟩
    refine hs.own trivial e ?_
    simpa [MyEncoder.onTheWay, TaskPc.inHand, htask] using he
  | running =>
    cases hstep
    exact .of_not_live ⟨hs.enc.idle, by simp⟩ rfl id (fun h => h.elim)
  | deleted =>
    simp only [Encoder.appStep] at hstep
    split_ifs at hstep with hmutex
    cases hstep
    have hunsent : s.unsent = [] := hs.enc.idle (by simp [hmutex])
    exact .of_not_live ⟨fun _ => hunsent, hs.enc.task⟩ (hs.task (by simp)) id (fun _ => rfl)
  | removing =>
    cases hstep
    have hmutex : s.mutex = some .app := hs.mutex trivial
    have hunsent : s.unsent = [] := hs.enc.idle (by simp [hmutex])
    exact .of_not_live ⟨fun _ => hunsent, hs.enc.task⟩ (hs.task (by simp)) id (fun h => h.elim)

/-- A step keeps the invariant, when the queue is empty as the descriptor is added. -/
theorem LifeInv.step {t t' : Life} {j : LifeInput} (hs : LifeInv t) (hempty : EmptyAtAdd t j)
    (hstep : (lifecycle cfg).step t j = some (t', o)) : LifeInv t' := by
  obtain ⟨s, app⟩ := t
  cases j with
  | enc i =>
    obtain ⟨⟨s', o'⟩, hmove, heq⟩ := Option.map_eq_some_iff.mp hstep
    cases heq
    exact hs.encMove (MyEncoder.step_move hmove)
  | initEncoder pinA pinB pinBtn callback =>
    simp only [lifecycle] at hstep
    split_ifs at hstep with happ
    cases hstep
    subst happ
    exact .of_not_live ⟨hs.enc.idle, hs.enc.task⟩ (hs.task (by simp)) id (fun h => h.elim)
  | app =>
    obtain ⟨⟨s', app', o'⟩, hmove, heq⟩ := Option.map_eq_some_iff.mp hstep
    cases heq
    exact hs.appStep hempty hmove

/-- The events with which a move calls a callback and moves the position are those of the cycle. -/
theorem LifeInv.ownCycle_encMove {app : AppPc} (hs : LifeInv ⟨s, app⟩) (hm : EncMove cfg s i s' o) :
    OwnCycle ⟨s, app⟩ o := by
  have happ : s.task ≠ none → app = .running := by
    intro htask
    by_contra happ
    exact htask (hs.task happ)
  constructor
  · intro callback event e h
    obtain ⟨htask, he, hcallback⟩ := hm.called h
    obtain rfl := happ htask
    rw [hs.own trivial e he, hs.callback (.inr rfl) callback hcallback]
  · intro e h
    obtain ⟨htask, he⟩ := hm.moved h
    obtain rfl := happ htask
    exact hs.own trivial e he

/-- The caller of `init_encoder` and `destroy_encoder` does not go on with the task, and changes the
position only to zero. -/
theorem appStep_effect {app app' : AppPc} (h : appStep s app = some (s', app', o)) :
    (s'.task = s.task ∨ s'.task = none ∨ s'.task = some .receiving) ∧
      (o = [] ∧ s'.ctlD = s.ctlD ∨ app ≠ .running ∧ o = [.cleared] ∧ s'.ctlD = 0) := by
  cases app with
  | out => cases h
  | cleared | zeroing | adding | added | hooked | running | removing =>
    cases h
    simp
  | zeroed | deleted =>
    simp only [appStep] at h
    split_ifs at h
    cases h
    simp

/-- A step calls callbacks with events of their own cycle, and moves the position by those of the
current one. -/
theorem LifeInv.ownCycle {t t' : Life} {j : LifeInput} (hs : LifeInv t)
    (hstep : (lifecycle cfg).step t j = some (t', o)) : OwnCycle t o := by
  obtain ⟨s, app⟩ := t
  cases j with
  | enc i =>
    obtain ⟨⟨s', o'⟩, hmove, heq⟩ := Option.map_eq_some_iff.mp hstep
    cases heq
    exact hs.ownCycle_encMove (MyEncoder.step_move hmove)
  | initEncoder pinA pinB pinBtn callback =>
    simp only [lifecycle] at hstep
    split_ifs at hstep with happ
    cases hstep
    exact ⟨by simp, by simp⟩
  | app =>
    obtain ⟨⟨s', app', o'⟩, hmove, heq⟩ := Option.map_eq_some_iff.mp hstep
    cases heq
    rcases (appStep_effect hmove).2 with ⟨rfl, -⟩ | ⟨-, rfl, -⟩
    · exact ⟨by simp, by simp⟩
    · exact ⟨by simp, by simp⟩

/-- The position of the encoder is that after the outputs, and the task adds to this position. -/
structure PositionInv (os : List EncOut) (s : MyEncoder) : Prop where
  position : s.ctlD = positionOf os
  adding : ∀ e d, s.task = some (.adding e d) → d = s.ctlD

/-- A step that does not set the position from outside keeps it that after the outputs. -/
theorem PositionInv.step {t t' : Life} {j : LifeInput} {past : List EncOut}
    (hp : PositionInv past t.enc) (hs : LifeInv t) (hj : ¬ j.SetsPosition)
    (hstep : (lifecycle cfg).step t j = some (t', o)) : PositionInv (past ++ o) t'.enc := by
  obtain ⟨s, app⟩ := t
  have hfold : positionOf (past ++ o) = o.foldl EncOut.position s.ctlD := by
    rw [positionOf, List.foldl_append, hp.position]
    rfl
  cases j with
  | enc i =>
    obtain ⟨⟨s', o'⟩, hmove, heq⟩ := Option.map_eq_some_iff.mp hstep
    cases heq
    have hm := MyEncoder.step_move hmove
    obtain ⟨hctl, hadd⟩ := hs.enc.position hm hj hp.adding
    exact ⟨by rw [hctl, hfold, foldl_position hm.not_cleared], hadd⟩
  | initEncoder pinA pinB pinBtn callback =>
    simp only [lifecycle] at hstep
    split_ifs at hstep with happ
    cases hstep
    exact ⟨by simpa using hp.position, hp.adding⟩
  | app =>
    obtain ⟨⟨s', app', o'⟩, hmove, heq⟩ := Option.map_eq_some_iff.mp hstep
    cases heq
    obtain ⟨htask, hctl⟩ := appStep_effect hmove
    constructor
    · rw [hfold]
      rcases hctl with ⟨rfl, hctl⟩ | ⟨-, rfl, hctl⟩
      · exact hctl
      · exact hctl
    · intro e d hadd
      dsimp only at hadd
      rcases htask with htask | htask | htask <;> rw [hadd] at htask
      · -- The task runs, so the position is not set to zero.
        rcases hctl with ⟨-, hctl⟩ | ⟨happ, -, -⟩
        · dsimp only
          rw [hctl]
          exact hp.adding e d htask.symm
        · have hnone := hs.task happ
          dsimp only at hnone
          rw [hnone] at htask
          cases htask
      · cases htask
      · cases htask

/-- In every run in which the queue is empty whenever `rotary_encoder_add` adds the descriptor, the
callback that a call of `init_encoder` has set is called only with events that were raised after the
descriptor was added in this call, and the position is moved only by events that were raised after it
was added last. As long as nothing else sets the position, it is zero after `init_encoder` has cleared
it, and what the movements since have made of it. -/
theorem ownCycle_of_empty (cfg : Config) (inputs : List LifeInput)
    (h : (lifecycle cfg).AllSteps inputs fun _ s i _ _ => EmptyAtAdd s i) :
    ((lifecycle cfg).AllSteps inputs fun _ s _ _ o => OwnCycle s o) ∧
    ∀ hist s past, hist <+: inputs →
      (lifecycle cfg).run (lifecycle cfg).init hist = some (s, past) →
      (∀ i ∈ hist, ¬ i.SetsPosition) → s.enc.ctlD = positionOf past := by
  have hinit : LifeInv (lifecycle cfg).init := by
    refine .of_not_live ⟨fun _ => rfl, ?_⟩ rfl id (fun h => h.elim)
    rintro _ ⟨⟩
  constructor
  · exact h.mono_inv (I := fun _ s => LifeInv s) hinit
      (fun _ _ _ _ _ hs hC hstep => hs.step hC hstep) fun _ _ _ _ _ hs _ hstep => hs.ownCycle hstep
  · intro hist s past hpre hrun hsets
    have hinv := h.inv_outputs (I := fun hist past s => LifeInv s ∧
      ((∀ i ∈ hist, ¬ i.SetsPosition) → PositionInv past s.enc)) ?_ ?_ hpre hrun
    · exact (hinv.2 hsets).position
    · refine ⟨hinit, fun _ => ⟨rfl, ?_⟩⟩
      rintro e d ⟨⟩
    · intro hist past s i s' o hs hC hstep
      refine ⟨hs.1.step hC hstep, fun hsets => ?_⟩
      exact (hs.2 fun j hj => hsets j (List.mem_append_left _ hj)).step hs.1 (hsets i (by simp)) hstep

/-- `init_encoder`, up to its return. -/
def initCall : List LifeInput := .initEncoder 14 5 13 true :: List.replicate 6 .app

/-- `destroy_encoder`, up to its return. -/
def destroyCall : List LifeInput := List.replicate 3 .app

/-- The button is pressed, and the event is in the queue. -/
def press : List LifeInput := [.enc (.poll (buttonLevels true)), .enc .send, .enc .give]

/-- The task goes on to the callback with the next event. -/
def deliver : List LifeInput := List.replicate 3 (.enc .task)

/-- In each of two cycles the button is pressed, and the callback is called. -/
def twoCycles : List LifeInput :=
  initCall ++ press ++ deliver ++ destroyCall ++ initCall ++ press ++ deliver

/-- Each of the two callbacks is called with the press of its own cycle. -/
theorem ownCycle_of_empty_two_cycles :
    ((lifecycle {}).run (lifecycle {}).init twoCycles).map (fun r => calledOf r.2) =
        some [⟨⟨.btnPressed, 0⟩, 1⟩, ⟨⟨.btnPressed, 0⟩, 2⟩] ∧
      (lifecycle {}).AllSteps twoCycles fun _ s _ _ o => OwnCycle s o :=
  ⟨by decide +kernel, (ownCycle_of_empty {} twoCycles (by decide +kernel)).1⟩

/-- The button is pressed before `destroy_encoder`, and the task does not take the event in time. -/
def pressBeforeDestroy : List LifeInput :=
  initCall ++ press ++ destroyCall ++ initCall ++ deliver

/-- The callback of the second cycle is called with the press of the first. -/
theorem press_of_previous_cycle :
    ¬ (lifecycle {}).AllSteps pressBeforeDestroy fun _ s _ _ o => OwnCycle s o := by
  intro h
  have hrun : ∃ s past s',
      (lifecycle {}).run (lifecycle {}).init pressBeforeDestroy.dropLast = some (s, past) ∧
        (lifecycle {}).step s (.enc .task) =
          some (s', [.called 2 .btnPushed ⟨⟨.btnPressed, 0⟩, 1⟩]) := ⟨_, _, _, rfl, rfl⟩
  obtain ⟨s, past, s', hrun, hstep⟩ := hrun
  have hown := h _ s (.enc .task) s' _ ⟨List.prefix_refl _, ⟨past, hrun⟩, hstep⟩
  have hcycle : (1 : ℕ) = 2 := hown.called 2 .btnPushed ⟨⟨.btnPressed, 0⟩, 1⟩ (by simp)
  exact absurd hcycle (by decide)

end PartLib.Encoder
