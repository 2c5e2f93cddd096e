import PartLib.Encoder.MyEncoder
import Mathlib.Algebra.Ring.Int.Defs

/-!
# The events between the timer and the callback

Every event that `read_encoder` raises is sent to a queue of five entries, and a send that finds it
full drops the event without a word. As long as every send finds room, the events with which the
callback has been called, those in hand of `encoder_task`, those in the queue and those that are still
to be sent are, in this order, the events that were raised; and when all of them have moved the
position, it is the initial one and the sum of the changes that were raised. A single send without
room breaks the first of these for good (`kept_iff`).
-/

namespace PartLib.Encoder

/-- What runs once `init_encoder` has returned, with the position `d`. -/
def started (re : RotaryEncoder) (d : Int32) : MyEncoder :=
  { eventCallback := some 1, re := re, task := some .receiving, ctlD := d, ctlQ := d, encs := true,
    cycle := 1 }

/-- The encoder, from the return of `init_encoder` on. -/
def encoder (cfg : Config) (re : RotaryEncoder) (d : Int32) : Machine MyEncoder EncInput EncOut :=
  ⟨started re d, MyEncoder.step cfg⟩

/-! ## Where an event is -/

/-- The events that were raised. -/
def raisedOf (os : List EncOut) : List Raised :=
  os.filterMap fun o => match o with
    | .raised e => some e
    | _ => none

/-- The events that have moved the position. -/
def movedOf (os : List EncOut) : List Raised :=
  os.filterMap fun o => match o with
    | .moved e => some e
    | _ => none

/-- The events with which a callback was called. -/
def calledOf (os : List EncOut) : List Raised :=
  os.filterMap fun o => match o with
    | .called _ _ e => some e
    | _ => none

/-- The event that the task has received and not called the callback with. -/
def TaskPc.inHand : TaskPc → List Raised
  | .received e | .adding e _ | .comparing e | .comparingTo e _ | .calling e _ => [e]
  | _ => []

/-- The event that the task has received and that has not moved the position. -/
def TaskPc.unmoved : TaskPc → List Raised
  | .received e | .adding e _ => [e]
  | _ => []

/-- The events on their way from `read_encoder` to the callback. -/
def MyEncoder.onTheWay (s : MyEncoder) : List Raised :=
  s.task.elim [] TaskPc.inHand ++ s.eventQueue ++ s.unsent

/-- The events on their way from `read_encoder` to the position. -/
def MyEncoder.unmoved (s : MyEncoder) : List Raised :=
  s.task.elim [] TaskPc.unmoved ++ s.eventQueue ++ s.unsent

/-- The change of the position that an event reports. -/
def Raised.change (e : Raised) : ℤ := if e.event.type = .changed then e.event.diff.toInt else 0

/-- The sum of the changes. -/
def changes (es : List Raised) : ℤ := (es.map Raised.change).sum

/-- The event of the callback tells the event that was raised. -/
def Reports (event : MyEncoderEvent) (e : Raised) : Prop :=
  match buttonEvent e.event.type with
  | some button => event = button
  | none => event = .posInc ∨ event = .posDec

/-- The input changes the position from outside `encoder_task`. -/
def EncInput.SetsPosition : EncInput → Prop
  | .callbackWrite _ | .setCtlD _ | .setCtlQ _ => True
  | _ => False

/-- A send finds room in the queue. -/
def Room (s : MyEncoder) : EncInput → Prop
  | .send => s.eventQueue.length < evQueueLen
  | _ => True

/-- Nothing is lost: the callback has been called with the events that were raised, each once and in
their order, but for those that are on their way, and of each with what it is; and once all have moved
the position, and nothing else has, it is the initial one and the sum of the changes raised, when this
is an `int32_t`. -/
structure Kept (d₀ : Int32) (inputs : List EncInput) (os : List EncOut) (s : MyEncoder) : Prop where
  order : raisedOf os = calledOf os ++ s.onTheWay
  reports : ∀ callback event e, .called callback event e ∈ os → Reports event e
  position : s.unmoved = [] → (∀ i ∈ inputs, ¬ i.SetsPosition) →
    -2 ^ 31 ≤ d₀.toInt + changes (raisedOf os) → d₀.toInt + changes (raisedOf os) < 2 ^ 31 →
    s.ctlD.toInt = d₀.toInt + changes (raisedOf os)

/-! ## One step -/

@[simp]
theorem raisedOf_append (os₁ os₂ : List EncOut) :
    raisedOf (os₁ ++ os₂) = raisedOf os₁ ++ raisedOf os₂ := List.filterMap_append

@[simp]
theorem movedOf_append (os₁ os₂ : List EncOut) :
    movedOf (os₁ ++ os₂) = movedOf os₁ ++ movedOf os₂ := List.filterMap_append

@[simp]
theorem calledOf_append (os₁ os₂ : List EncOut) :
    calledOf (os₁ ++ os₂) = calledOf os₁ ++ calledOf os₂ := List.filterMap_append

/-- What holds of the calls so far and of those of a step holds of all of them. -/
theorem forall_called_append {P : MyEncoderEvent → Raised → Prop} {os₁ os₂ : List EncOut}
    (h₁ : ∀ callback event e, .called callback event e ∈ os₁ → P event e)
    (h₂ : ∀ callback event e, .called callback event e ∈ os₂ → P event e) :
    ∀ callback event e, .called callback event e ∈ os₁ ++ os₂ → P event e := by
  intro callback event e h
  rcases List.mem_append.mp h with h | h
  · exact h₁ callback event e h
  · exact h₂ callback event e h

@[simp]
theorem changes_append (es₁ es₂ : List Raised) :
    changes (es₁ ++ es₂) = changes es₁ + changes es₂ := by
  rw [changes, List.map_append, List.sum_append]
  rfl

@[simp]
theorem changes_nil : changes [] = 0 := rfl

@[simp]
theorem changes_cons (e : Raised) (es : List Raised) :
    changes (e :: es) = e.change + changes es := by
  rw [changes, List.map_cons, List.sum_cons]
  rfl

@[simp]
theorem raisedOf_raised (es : List Raised) : raisedOf (es.map .raised) = es := by
  simp [raisedOf, List.filterMap_map]

@[simp]
theorem movedOf_raised (es : List Raised) : movedOf (es.map .raised) = [] := by
  simp [movedOf, List.filterMap_map]

@[simp]
theorem calledOf_raised (es : List Raised) : calledOf (es.map .raised) = [] := by
  simp [calledOf, List.filterMap_map]

variable {cfg : Config} {s s' : MyEncoder} {i : EncInput} {o : List EncOut}

/-- A send that finds room leaves the event at the end of the queue. -/
theorem sendToBack_of_room {queue : List Raised} (h : queue.length < evQueueLen) (e : Raised) :
    sendToBack queue e = queue ++ [e] := if_pos h

/-- When a send finds room, an event that was on its way to the callback still is, or the callback has
been called with it. -/
theorem EncMove.onTheWay (hm : EncMove cfg s i s' o)
    (hidle : s.mutex ≠ some .timer → s.unsent = []) (hcallback : s.eventCallback ≠ none)
    (hroom : Room s i) : calledOf o ++ s'.onTheWay = s.onTheWay ++ raisedOf o := by
  cases hm with
  | polled levels hmutex hencs =>
    -- The events raised are still to be sent, and no others are.
    have hunsent := hidle (by simp [hmutex])
    simp [MyEncoder.onTheWay, hunsent]
  | sent hunsent =>
    simp [MyEncoder.onTheWay, calledOf, raisedOf, hunsent, sendToBack_of_room hroom]
  | receive htask hqueue => simp [MyEncoder.onTheWay, TaskPc.inHand, calledOf, raisedOf, htask, hqueue]
  | call htask hevent => simp [MyEncoder.onTheWay, TaskPc.inHand, calledOf, raisedOf, htask]
  | noCall htask hnone => exact absurd hnone hcallback
  | notTaken | nothingAdded | given | callbackWrite | setCtlD | setCtlQ =>
    simp [MyEncoder.onTheWay, calledOf, raisedOf]
  | button htask _ | readAdd htask _ | add htask | compare htask | compareTo htask
  | callbackReturn htask | readStore htask | store htask =>
    simp [MyEncoder.onTheWay, TaskPc.inHand, calledOf, raisedOf, htask]

/-- When a send finds room, an event that was on its way to the position still is, or it has moved it;
but for the events of the button, which change nothing. -/
theorem EncMove.unmoved (hm : EncMove cfg s i s' o)
    (hidle : s.mutex ≠ some .timer → s.unsent = []) (hroom : Room s i) :
    changes (movedOf o) + changes s'.unmoved = changes s.unmoved + changes (raisedOf o) := by
  cases hm with
  | polled levels hmutex hencs =>
    have hunsent := hidle (by simp [hmutex])
    simp only [MyEncoder.unmoved, hunsent, changes_append, changes_nil, movedOf_raised,
      raisedOf_raised]
    omega
  | sent hunsent =>
    simp [MyEncoder.unmoved, movedOf, raisedOf, hunsent, sendToBack_of_room hroom]
  | receive htask hqueue =>
    simp [MyEncoder.unmoved, TaskPc.unmoved, movedOf, raisedOf, htask, hqueue]
  | @button e event htask hevent =>
    -- An event of the button is no change.
    have hchange : e.change = 0 := if_neg (by rintro h; simp [h, buttonEvent] at hevent)
    simp [MyEncoder.unmoved, TaskPc.unmoved, movedOf, raisedOf, htask, changes, hchange]
  | notTaken | nothingAdded | given | callbackWrite | setCtlD | setCtlQ =>
    simp [MyEncoder.unmoved, movedOf, raisedOf]
  | call htask _ | noCall htask _ | readAdd htask _ | add htask | compare htask | compareTo htask
  | callbackReturn htask | readStore htask | store htask =>
    simp [MyEncoder.unmoved, TaskPc.unmoved, movedOf, raisedOf, htask]

/-- What holds of the event that the task has in hand: only a change moves the position, and the
callback is called with what the event is. -/
def TaskPc.Ok : TaskPc → Prop
  | .adding e _ | .comparing e | .comparingTo e _ => buttonEvent e.event.type = none
  | .calling e event => Reports event e
  | _ => True

/-- The timer has something to send only while it holds the mutex, and the task knows the event that
it has in hand. -/
structure EncInv (s : MyEncoder) : Prop where
  idle : s.mutex ≠ some .timer → s.unsent = []
  task : ∀ pc, s.task = some pc → pc.Ok

/-- A step keeps the invariant. -/
theorem EncInv.step (hs : EncInv s) (hm : EncMove cfg s i s' o) : EncInv s' := by
  have hidle := hs.idle
  have hnext : ∀ pc : TaskPc, pc.Ok → ∀ pc', some pc = some pc' → pc'.Ok := by
    rintro pc hpc _ ⟨⟩
    exact hpc
  cases hm with
  | polled | nothingAdded => exact ⟨by simp, hs.task⟩
  | notTaken | callbackWrite | setCtlD | setCtlQ => exact ⟨hidle, hs.task⟩
  | sent hunsent => exact ⟨fun hmutex => by simp [hidle hmutex] at hunsent, hs.task⟩
  | given hmutex hunsent => exact ⟨fun _ => hunsent, hs.task⟩
  | receive | callbackReturn | readStore | store | noCall | call =>
    exact ⟨hidle, hnext _ trivial⟩
  | @button e event htask hevent =>
    refine ⟨hidle, hnext _ ?_⟩
    simp [TaskPc.Ok, Reports, hevent]
  | readAdd htask hevent => exact ⟨hidle, hnext _ hevent⟩
  | @add e d htask => exact ⟨hidle, hnext (.comparing e) (hs.task (.adding e d) htask)⟩
  | @compare e htask => exact ⟨hidle, hnext (.comparingTo e s.ctlD) (hs.task (.comparing e) htask)⟩
  | @compareTo e d htask =>
    have hevent : buttonEvent e.event.type = none := hs.task _ htask
    refine ⟨hidle, hnext _ ?_⟩
    by_cases hd : d > s.ctlQ <;> simp [TaskPc.Ok, Reports, hevent, hd]

/-- The callback is called with what the event is. -/
theorem EncInv.reports (hs : EncInv s) (hm : EncMove cfg s i s' o) {callback : ℕ}
    {event : MyEncoderEvent} {e : Raised} (h : .called callback event e ∈ o) : Reports event e := by
  cases hm <;> simp at h
  case call htask _ =>
    obtain ⟨-, rfl, rfl⟩ := h
    exact hs.task _ htask

/-- An event that is none of the button is a change. -/
theorem type_of_buttonEvent_eq_none {e : Raised} (h : buttonEvent e.event.type = none) :
    e.event.type = .changed := by
  cases htype : e.event.type <;> simp [buttonEvent, htype] at h
  rfl

/-- A change that stays in the range of `int32_t` is added as a number. -/
theorem toInt_add_ofInt {d : Int32} {c : ℤ} (hmin : -2 ^ 31 ≤ d.toInt + c)
    (hmax : d.toInt + c < 2 ^ 31) : (d + Int32.ofInt c).toInt = d.toInt + c := by
  have hsum : d + Int32.ofInt c = Int32.ofInt (d.toInt + c) := by
    rw [Int32.ofInt_add, Int32.ofInt_toInt]
  rw [hsum, Int32.toInt_ofInt_of_le hmin hmax]

/-- The position after a step that does not set it from outside, when the task has not read it before
it was set. -/
theorem EncInv.position (hs : EncInv s) (hm : EncMove cfg s i s' o) (hi : ¬ i.SetsPosition)
    (hadd : ∀ e d, s.task = some (.adding e d) → d = s.ctlD) :
    s'.ctlD = s.ctlD + Int32.ofInt (changes (movedOf o)) ∧
      ∀ e d, s'.task = some (.adding e d) → d = s'.ctlD := by
  cases hm with
  | @add e d htask =>
    obtain rfl := hadd e d htask
    have htype : e.event.type = .changed := type_of_buttonEvent_eq_none (hs.task _ htask)
    simp [movedOf, Raised.change, htype]
  | callbackWrite | setCtlD | setCtlQ => exact absurd trivial hi
  | readAdd htask =>
    simp [movedOf]
  | polled | notTaken | nothingAdded | sent | given =>
    simpa [movedOf] using hadd
  | receive | button | compare | compareTo | call | noCall | callbackReturn | readStore | store =>
    simp [movedOf]

/-! ## Every run -/

section

variable {re : RotaryEncoder} {d₀ : Int32} {inputs : List EncInput} {past : List EncOut}

/-- What holds as long as every send finds room. -/
structure KeptInv (d₀ : Int32) (inputs : List EncInput) (os : List EncOut) (s : MyEncoder) :
    Prop where
  enc : EncInv s
  callback : s.eventCallback ≠ none
  order : raisedOf os = calledOf os ++ s.onTheWay
  reports : ∀ callback event e, .called callback event e ∈ os → Reports event e
  sum : changes (movedOf os) + changes s.unmoved = changes (raisedOf os)
  position : (∀ i ∈ inputs, ¬ i.SetsPosition) →
    s.ctlD = d₀ + Int32.ofInt (changes (movedOf os)) ∧
      ∀ e d, s.task = some (.adding e d) → d = s.ctlD

theorem keptInv_started : KeptInv d₀ [] [] (started re d₀) where
  enc := ⟨fun _ => rfl, by rintro _ ⟨⟩; trivial⟩
  callback := by simp [started]
  order := rfl
  reports := by simp
  sum := rfl
  position := fun _ => ⟨by simp [started, movedOf], by simp [started]⟩

/-- The callback stays the same. -/
theorem EncMove.eventCallback (hm : EncMove cfg s i s' o) : s'.eventCallback = s.eventCallback := by
  cases hm <;> rfl

/-- A step whose send finds room loses nothing. -/
theorem KeptInv.step (hs : KeptInv d₀ inputs past s) (hm : EncMove cfg s i s' o)
    (hroom : Room s i) : KeptInv d₀ (inputs ++ [i]) (past ++ o) s' where
  enc := hs.enc.step hm
  callback := by
    rw [hm.eventCallback]
    exact hs.callback
  order := by
    rw [raisedOf_append, calledOf_append, List.append_assoc,
      hm.onTheWay hs.enc.idle hs.callback hroom, hs.order, List.append_assoc]
  reports := forall_called_append hs.reports fun _ _ _ => hs.enc.reports hm
  sum := by
    have hstep := hm.unmoved hs.enc.idle hroom
    rw [movedOf_append, raisedOf_append, changes_append, changes_append, ← hs.sum]
    omega
  position := by
    intro hsets
    obtain ⟨hctl, hadd⟩ := hs.position fun j hj => hsets j (List.mem_append_left _ hj)
    obtain ⟨hctl', hadd'⟩ := hs.enc.position hm (hsets i (by simp)) hadd
    refine ⟨?_, hadd'⟩
    rw [hctl', hctl, movedOf_append, changes_append, Int32.ofInt_add, Int32.add_assoc]

/-- What is kept, from the invariant. -/
theorem KeptInv.kept (hs : KeptInv d₀ inputs past s) : Kept d₀ inputs past s := by
  refine ⟨hs.order, hs.reports, fun hnil hsets hmin hmax => ?_⟩
  have hsum := hs.sum
  rw [hnil, changes_nil, Int.add_zero] at hsum
  rw [(hs.position hsets).1, hsum]
  exact toInt_add_ofInt hmin hmax

/-- A send without room drops an event that was on its way. -/
theorem EncMove.length_onTheWay_of_full (hm : EncMove cfg s .send s' o)
    (hfull : ¬ Room s .send) : o = [] ∧ s'.onTheWay.length + 1 = s.onTheWay.length := by
  cases hm with
  | @sent e rest hunsent =>
    have hqueue : sendToBack s.eventQueue e = s.eventQueue := if_neg hfull
    simp [MyEncoder.onTheWay, hunsent, hqueue]
    omega

end

/-- In every run, nothing is lost in any state that is reached if and only if every send finds room
in the queue. -/
theorem kept_iff (cfg : Config) (re : RotaryEncoder) (d₀ : Int32) (inputs : List EncInput) :
    (∀ h s past, h <+: inputs → (encoder cfg re d₀).run (encoder cfg re d₀).init h = some (s, past) →
      Kept d₀ h past s) ↔
    (encoder cfg re d₀).AllSteps inputs fun _ s i _ _ => Room s i := by
  constructor
  · rintro hkept h s i s' o ⟨hpre, ⟨past, hrun⟩, hstep⟩
    by_contra hfull
    obtain rfl : i = .send := by
      cases i with
      | send => rfl
      | _ => exact absurd trivial hfull
    -- The event that is dropped is missing from what was raised.
    have hmove : EncMove cfg s .send s' o := MyEncoder.step_move hstep
    obtain ⟨rfl, hlen⟩ := hmove.length_onTheWay_of_full hfull
    have hbefore := (hkept h s past ((List.prefix_append h [.send]).trans hpre) hrun).order
    have hafter := (hkept (h ++ [.send]) s' (past ++ []) hpre
      ((encoder cfg re d₀).run_snoc_eq_some.mpr ⟨s, past, [], hrun, hstep, rfl⟩)).order
    rw [List.append_nil, hbefore, List.append_cancel_left_eq] at hafter
    rw [hafter] at hlen
    omega
  · intro hroom h s past hpre hrun
    exact (hroom.inv_outputs (I := KeptInv d₀) keptInv_started
      (fun _ _ _ _ _ _ hs hC hstep => hs.step (MyEncoder.step_move hstep) hC) hpre hrun).kept

/-- An encoder with its button on pin 13. -/
def encoderWithButton : RotaryEncoder := { pinA := 14, pinB := 5, pinBtn := 13 }

/-- The levels while the button is pressed, which makes its pin low, and while it is released. -/
def buttonLevels (pressed : Bool) : Levels := fun pin => !(pressed && pin == 13)

/-- The polls up to the end of the dead time of the button, which raise nothing. -/
def deadTime : List EncInput :=
  (List.replicate 10 [.poll (buttonLevels true), .give]).flatten

/-- The button is clicked twice and pressed once more, while the callback is called with the first
press. -/
def clicksInCallback : List EncInput :=
  [.poll (buttonLevels true), .send, .give, .task, .task, .task] ++ deadTime ++
    [.poll (buttonLevels false), .send, .send, .give, .poll (buttonLevels true), .send, .give] ++
    deadTime ++
    [.poll (buttonLevels false), .send, .send, .give, .poll (buttonLevels true), .send, .give]

/-- The last press is lost. -/
theorem press_lost_in_callback :
    ¬ ∀ h s past, h <+: clicksInCallback →
      (encoder {} encoderWithButton 0).run (encoder {} encoderWithButton 0).init h =
        some (s, past) → Kept 0 h past s := by
  intro hkept
  have hlost : ((encoder {} encoderWithButton 0).run (encoder {} encoderWithButton 0).init
      clicksInCallback).map (fun r => decide (raisedOf r.2 = calledOf r.2 ++ r.1.onTheWay)) =
        some false := by
    decide +kernel
  obtain ⟨⟨s, past⟩, hrun, hfalse⟩ := Option.map_eq_some_iff.mp hlost
  exact of_decide_eq_false hfalse (hkept _ s past (List.prefix_refl _) hrun).order

end PartLib.Encoder
