import PartLib.Encoder.Encoder
import PartLib.Lib.Machine

/-!
# The encoder task and the poll timer

`MyEncoder.step` is one step of what runs between `init_encoder` and `destroy_encoder`: a call of
`timer_handler`, which sends the events that `read_encoder` raises one after another to a queue of
`EV_QUEUE_LEN` entries, without waiting for room and without looking at the result; a step of
`encoder_task`, which takes the events from the queue, moves the position, and calls the user's
callback; and `my_encoder_set_current_encreg`, from any number of tasks. The accesses of `ctl_d` and
`ctl_q` are steps of their own.

An event carries, beside what the source puts in it, how often the encoder had been added when its
levels were sampled (`Raised.cycle`); no step looks at this.
-/

namespace PartLib.Encoder

/-- `EV_QUEUE_LEN`. -/
def evQueueLen : ℕ := 5

/-- `my_encoder_event_t`. -/
inductive MyEncoderEvent
  | posInc
  | posDec
  | btnClicked
  | btnPushed
  | btnReleased
  | btnLong
  deriving DecidableEq, Repr

/-- An event that `read_encoder` has raised in the given cycle of `init_encoder` and
`destroy_encoder`. -/
structure Raised where
  event : Event
  cycle : ℕ
  deriving DecidableEq

/-- Where `encoder_task` is, with its variables: at `xQueueReceive`, in the `switch`, between the
accesses of `ctl_d` and `ctl_q`, before the callback, in it, and after it. -/
inductive TaskPc
  | receiving
  | received (e : Raised)
  | adding (e : Raised) (d : Int32)
  | comparing (e : Raised)
  | comparingTo (e : Raised) (d : Int32)
  | calling (e : Raised) (event : MyEncoderEvent)
  | inCallback
  | storing
  | storingValue (d : Int32)
  deriving DecidableEq

/-- Who holds the mutex of `encoder.c`: `timer_handler`, or a function that adds or removes. -/
inductive Holder
  | timer
  | app
  deriving DecidableEq

/-- `MY_ENC`, the mutex of `encoder.c`, whether the descriptor is in `encs`, and where the tasks are.
A callback is told by the number of the call of `init_encoder` that has set it. `unsent` is what a
`timer_handler` that runs has still to send, and `setting` are the calls of
`my_encoder_set_current_encreg` that have written `ctl_d` and not yet `ctl_q`. -/
structure MyEncoder where
  eventCallback : Option ℕ := none
  eventQueue : List Raised := []
  re : RotaryEncoder := ⟨0, 0, 0, 0, 0, 0, .released⟩
  task : Option TaskPc := none
  ctlD : Int32 := 0
  ctlQ : Int32 := 0
  encs : Bool := false
  mutex : Option Holder := none
  unsent : List Raised := []
  setting : List Int32 := []
  cycle : ℕ := 0
  deriving DecidableEq

/-- The moves: `timer_handler` starts with the levels of its poll, sends an event, and gives the
mutex; `encoder_task` goes on; the callback writes the position through its pointer; and
`my_encoder_set_current_encreg` writes `ctl_d`, and then, as the `k`-th of the calls that have done
so, `ctl_q`. -/
inductive EncInput
  | poll (levels : Levels)
  | send
  | give
  | task
  | callbackWrite (d : Int32)
  | setCtlD (pos : Int32)
  | setCtlQ (k : ℕ)

/-- What is seen: an event that was raised, one that has moved the position, and one with which a
callback was called; and that `init_encoder` has set the position to zero. -/
inductive EncOut
  | raised (e : Raised)
  | moved (e : Raised)
  | called (callback : ℕ) (event : MyEncoderEvent) (e : Raised)
  | cleared
  deriving DecidableEq

/-- `xQueueSendToBack` without a timeout. -/
def sendToBack (queue : List Raised) (e : Raised) : List Raised :=
  if queue.length < evQueueLen then queue ++ [e] else queue

/-- The events that a poll with the given levels raises. -/
def MyEncoder.raises (cfg : Config) (s : MyEncoder) (levels : Levels) : List Raised :=
  (readEncoder cfg s.re levels).2.map fun e => ⟨e, s.cycle⟩

/-- `timer_handler`, up to its first send. The timer does not start it while it runs. -/
def timerHandler (cfg : Config) (s : MyEncoder) (levels : Levels) :
    Option (MyEncoder × List EncOut) :=
  match s.mutex with
  | some .timer => none
  | some .app => some (s, [])
  | none =>
    if s.encs then
      some ({ s with
          re := (readEncoder cfg s.re levels).1
          mutex := some .timer
          unsent := s.raises cfg levels }, (s.raises cfg levels).map .raised)
    else
      some ({ s with mutex := some .timer }, [])

/-- The event of a button, for the callback. -/
def buttonEvent : EventType → Option MyEncoderEvent
  | .changed => none
  | .btnReleased => some .btnReleased
  | .btnPressed => some .btnPushed
  | .btnLongPressed => some .btnLong
  | .btnClicked => some .btnClicked

/-- A step of `encoder_task`. -/
def encoderTask (s : MyEncoder) : TaskPc → Option (MyEncoder × List EncOut)
  | .receiving =>
    match s.eventQueue with
    | [] => none
    | e :: queue => some ({ s with eventQueue := queue, task := some (.received e) }, [])
  | .received e =>
    match buttonEvent e.event.type with
    | some event => some ({ s with task := some (.calling e event) }, [])
    | none => some ({ s with task := some (.adding e s.ctlD) }, [])
  | .adding e d =>
    some ({ s with ctlD := d + e.event.diff, task := some (.comparing e) }, [.moved e])
  | .comparing e => some ({ s with task := some (.comparingTo e s.ctlD) }, [])
  | .comparingTo e d =>
    some ({ s with task := some (.calling e (if d > s.ctlQ then .posInc else .posDec)) }, [])
  | .calling e event =>
    match s.eventCallback with
    | some callback => some ({ s with task := some .inCallback }, [.called callback event e])
    | none => some ({ s with task := some .storing }, [])
  | .inCallback => some ({ s with task := some .storing }, [])
  | .storing => some ({ s with task := some (.storingValue s.ctlD) }, [])
  | .storingValue d => some ({ s with ctlQ := d, task := some .receiving }, [])

/-- One step. -/
def MyEncoder.step (cfg : Config) (s : MyEncoder) : EncInput → Option (MyEncoder × List EncOut)
  | .poll levels => timerHandler cfg s levels
  | .send =>
    match s.unsent with
    | e :: rest =>
      some ({ s with eventQueue := sendToBack s.eventQueue e, unsent := rest }, [])
    | [] => none
  | .give =>
    if s.mutex = some .timer ∧ s.unsent = [] then some ({ s with mutex := none }, []) else none
  | .task => s.task.bind (encoderTask s)
  | .callbackWrite d =>
    if s.task = some .inCallback then some ({ s with ctlD := d }, []) else none
  | .setCtlD pos => some ({ s with ctlD := pos, setting := s.setting ++ [pos] }, [])
  | .setCtlQ k =>
    s.setting[k]?.map fun pos => ({ s with ctlQ := pos, setting := s.setting.eraseIdx k }, [])

/-! ## The moves -/

/-- What a step does. -/
inductive EncMove (cfg : Config) (s : MyEncoder) :
    EncInput → MyEncoder → List EncOut → Prop
  | polled (levels : Levels) (hmutex : s.mutex = none) (hencs : s.encs = true) :
      EncMove cfg s (.poll levels)
        { s with
          re := (readEncoder cfg s.re levels).1
          mutex := some .timer
          unsent := s.raises cfg levels }
        ((s.raises cfg levels).map .raised)
  | notTaken (levels : Levels) (hmutex : s.mutex = some .app) : EncMove cfg s (.poll levels) s []
  | nothingAdded (levels : Levels) (hmutex : s.mutex = none) (hencs : s.encs = false) :
      EncMove cfg s (.poll levels) { s with mutex := some .timer } []
  | sent {e : Raised} {rest : List Raised} (hunsent : s.unsent = e :: rest) :
      EncMove cfg s .send { s with eventQueue := sendToBack s.eventQueue e, unsent := rest } []
  | given (hmutex : s.mutex = some .timer) (hunsent : s.unsent = []) :
      EncMove cfg s .give { s with mutex := none } []
  | receive {e : Raised} {queue : List Raised} (htask : s.task = some .receiving)
      (hqueue : s.eventQueue = e :: queue) :
      EncMove cfg s .task { s with eventQueue := queue, task := some (.received e) } []
  | button {e : Raised} {event : MyEncoderEvent} (htask : s.task = some (.received e))
      (hevent : buttonEvent e.event.type = some event) :
      EncMove cfg s .task { s with task := some (.calling e event) } []
  | readAdd {e : Raised} (htask : s.task = some (.received e))
      (hevent : buttonEvent e.event.type = none) :
      EncMove cfg s .task { s with task := some (.adding e s.ctlD) } []
  | add {e : Raised} {d : Int32} (htask : s.task = some (.adding e d)) :
      EncMove cfg s .task { s with ctlD := d + e.event.diff, task := some (.comparing e) } [.moved e]
  | compare {e : Raised} (htask : s.task = some (.comparing e)) :
      EncMove cfg s .task { s with task := some (.comparingTo e s.ctlD) } []
  | compareTo {e : Raised} {d : Int32} (htask : s.task = some (.comparingTo e d)) :
      EncMove cfg s .task
        { s with task := some (.calling e (if d > s.ctlQ then .posInc else .posDec)) } []
  | call {e : Raised} {event : MyEncoderEvent} {callback : ℕ}
      (htask : s.task = some (.calling e event)) (hcallback : s.eventCallback = some callback) :
      EncMove cfg s .task { s with task := some .inCallback } [.called callback event e]
  | noCall {e : Raised} {event : MyEncoderEvent} (htask : s.task = some (.calling e event))
      (hcallback : s.eventCallback = none) :
      EncMove cfg s .task { s with task := some .storing } []
  | callbackReturn (htask : s.task = some .inCallback) :
      EncMove cfg s .task { s with task := some .storing } []
  | readStore (htask : s.task = some .storing) :
      EncMove cfg s .task { s with task := some (.storingValue s.ctlD) } []
  | store {d : Int32} (htask : s.task = some (.storingValue d)) :
      EncMove cfg s .task { s with ctlQ := d, task := some .receiving } []
  | callbackWrite (d : Int32) (htask : s.task = some .inCallback) :
      EncMove cfg s (.callbackWrite d) { s with ctlD := d } []
  | setCtlD (pos : Int32) :
      EncMove cfg s (.setCtlD pos) { s with ctlD := pos, setting := s.setting ++ [pos] } []
  | setCtlQ {k : ℕ} {pos : Int32} (hsetting : s.setting[k]? = some pos) :
      EncMove cfg s (.setCtlQ k) { s with ctlQ := pos, setting := s.setting.eraseIdx k } []

/-- Every step is one of these. -/
theorem MyEncoder.step_move {cfg : Config} {s s' : MyEncoder} {i : EncInput} {o : List EncOut}
    (h : s.step cfg i = some (s', o)) : EncMove cfg s i s' o := by
  cases i with
  | poll levels =>
    simp only [step, timerHandler] at h
    split at h
    · cases h
    · cases h
      exact .notTaken levels ‹_›
    · split_ifs at h with hencs <;> cases h
      · exact .polled levels ‹_› hencs
      · exact .nothingAdded levels ‹_› (by simpa using hencs)
  | send =>
    simp only [step] at h
    split at h <;> cases h
    exact .sent ‹_›
  | give =>
    simp only [step] at h
    split_ifs at h with hgive
    cases h
    exact .given hgive.1 hgive.2
  | task =>
    obtain ⟨pc, htask, h⟩ := Option.bind_eq_some_iff.mp h
    cases pc with
    | receiving =>
      simp only [encoderTask] at h
      split at h <;> cases h
      exact .receive htask ‹_›
    | received e =>
      simp only [encoderTask] at h
      split at h <;> cases h
      · exact .button htask ‹_›
      · exact .readAdd htask ‹_›
    | adding e d =>
      cases h
      exact .add htask
    | comparing e =>
      cases h
      exact .compare htask
    | comparingTo e d =>
      cases h
      exact .compareTo htask
    | calling e event =>
      simp only [encoderTask] at h
      split at h <;> cases h
      · exact .call htask ‹_›
      · exact .noCall htask ‹_›
    | inCallback =>
      cases h
      exact .callbackReturn htask
    | storing =>
      cases h
      exact .readStore htask
    | storingValue d =>
      cases h
      exact .store htask
  | callbackWrite d =>
    simp only [step] at h
    split_ifs at h with htask
    cases h
    exact .callbackWrite d htask
  | setCtlD pos =>
    cases h
    exact .setCtlD pos
  | setCtlQ k =>
    obtain ⟨pos, hsetting, h⟩ := Option.map_eq_some_iff.mp h
    cases h
    exact .setCtlQ hsetting

end PartLib.Encoder
