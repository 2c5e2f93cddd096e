import PartLib.Encoder.EventQueue

/-!
# Setting the position beside the task

`encoder_task` does not take the direction of a change from the event: it adds the change to `ctl_d`,
compares `ctl_d` with the copy that `ctl_q` keeps of the position before, and copies `ctl_d` to `ctl_q`
once the callback has returned. `my_encoder_set_current_encreg` writes both from another task, without
a lock.

An observer keeps the position as it is meant: an event adds its change to it, and whoever sets it
replaces it. While no call of `my_encoder_set_current_encreg` overlaps a read of `ctl_d` that the task
goes on from, up to the comparison or to the copy, and no addition leaves the range of `int32_t`, the
encoder follows this position and tells each direction rightly (`position_follows`).
-/

namespace PartLib.Encoder

/-- An event of the callback tells the direction of the change. -/
def Directs (event : MyEncoderEvent) (e : Raised) : Prop :=
  e.event.type = .changed →
    (e.event.diff = 1 → event = .posInc) ∧ (e.event.diff = -1 → event = .posDec)

/-- The position as it is meant, after a step. -/
def notePosition (position : Int32) (s : MyEncoder) : EncInput → Int32
  | .setCtlD pos => pos
  | .callbackWrite d => d
  | .task =>
    match s.task with
    | some (.adding e _) => position + e.event.diff
    | _ => position
  | _ => position

/-- The changes among some events. -/
def changedIn (es : List Raised) : List Raised := es.filter fun e => e.event.type = .changed

/-- The change that has moved the position, and with which the callback has not been called. -/
def TaskPc.untold : TaskPc → List Raised
  | .comparing e | .comparingTo e _ => [e]
  | .calling e _ => changedIn [e]
  | _ => []

/-- The encoder follows the position: the callback is called with each change, which tells its
direction; no position is lost; and `ctl_q` is the position between two events, when no call that sets
it is under way. -/
structure Follows (os : List EncOut) (s : MyEncoder) (position : Int32) : Prop where
  told : changedIn (calledOf os) ++ s.task.elim [] TaskPc.untold = movedOf os
  directs : ∀ callback event e, .called callback event e ∈ os → Directs event e
  position : s.ctlD = position
  copied : s.task = some .receiving → s.setting = [] → s.ctlQ = s.ctlD

/-- The task goes on from what it has read of `ctl_d`: up to the comparison with `ctl_q`, or up to the
copy. -/
def TaskPc.Reading : TaskPc → Prop
  | .adding .. | .comparing _ | .comparingTo .. | .storingValue _ => True
  | _ => False

/-- The sum is one of `int32_t`. -/
def Fits (a b : Int32) : Prop := -2 ^ 31 ≤ a.toInt + b.toInt ∧ a.toInt + b.toInt < 2 ^ 31

/-- No call of `my_encoder_set_current_encreg` is under way when the task reads `ctl_d` to go on from
it, and an addition fits. -/
def TaskPc.Apart (s : MyEncoder) : TaskPc → Prop
  | .received e => e.event.type = .changed → s.setting = []
  | .adding e d => Fits d e.event.diff
  | .storing => s.setting = []
  | _ => True

/-- The calls of `my_encoder_set_current_encreg` keep apart from each other and from what the task has
read, and an addition fits. -/
def Apart (s : MyEncoder) : EncInput → Prop
  | .setCtlD _ => s.setting = [] ∧ ∀ pc ∈ s.task, ¬ pc.Reading
  | .setCtlQ _ => ∀ pc ∈ s.task, ¬ pc.Reading
  | .task => ∀ pc ∈ s.task, pc.Apart s
  | _ => True

instance : DecidablePred TaskPc.Reading
  | .adding .. | .comparing _ | .comparingTo .. | .storingValue _ => inferInstanceAs (Decidable True)
  | .receiving | .received _ | .calling .. | .inCallback | .storing =>
    inferInstanceAs (Decidable False)

instance (a b : Int32) : Decidable (Fits a b) := inferInstanceAs (Decidable (_ ∧ _))

instance (s : MyEncoder) : DecidablePred (TaskPc.Apart s)
  | .received e => inferInstanceAs (Decidable (e.event.type = .changed → s.setting = []))
  | .adding e d => inferInstanceAs (Decidable (Fits d e.event.diff))
  | .storing => inferInstanceAs (Decidable (s.setting = []))
  | .receiving | .comparing _ | .comparingTo .. | .calling .. | .inCallback | .storingValue _ =>
    inferInstanceAs (Decidable True)

instance (s : MyEncoder) : DecidablePred (Apart s)
  | .setCtlD _ => inferInstanceAs (Decidable (s.setting = [] ∧ ∀ pc ∈ s.task, ¬ pc.Reading))
  | .setCtlQ _ => inferInstanceAs (Decidable (∀ pc ∈ s.task, ¬ pc.Reading))
  | .task => inferInstanceAs (Decidable (∀ pc ∈ s.task, pc.Apart s))
  | .poll _ | .send | .give | .callbackWrite _ => inferInstanceAs (Decidable True)

/-! ## One step -/

/-- Where the task is, the position and its copy are as they are meant. -/
def TaskPc.Follows (s : MyEncoder) : TaskPc → Prop
  | .receiving | .received _ => (s.setting = [] → s.ctlQ = s.ctlD) ∧ ∀ pos ∈ s.setting, pos = s.ctlD
  | .adding _ d => s.setting = [] ∧ d = s.ctlD ∧ s.ctlQ = s.ctlD
  | .comparing e => s.setting = [] ∧ s.ctlD.toInt = s.ctlQ.toInt + e.event.diff.toInt
  | .comparingTo e d => s.setting = [] ∧ d.toInt = s.ctlQ.toInt + e.event.diff.toInt
  | .calling e event => Directs event e
  | .inCallback | .storing => True
  | .storingValue d => s.setting = [] ∧ d = s.ctlD

variable {cfg : Config} {s s' : MyEncoder} {i : EncInput} {o : List EncOut}

@[simp]
theorem changedIn_append (es₁ es₂ : List Raised) :
    changedIn (es₁ ++ es₂) = changedIn es₁ ++ changedIn es₂ := List.filter_append ..

/-- A change with which the callback was to be called still is, or the callback has been called with
it. -/
theorem EncMove.untold (hm : EncMove cfg s i s' o) (hs : EncInv s)
    (hcallback : s.eventCallback ≠ none) :
    changedIn (calledOf o) ++ s'.task.elim [] TaskPc.untold =
      s.task.elim [] TaskPc.untold ++ movedOf o := by
  cases hm with
  | polled => simp [changedIn]
  | @button e event htask hevent =>
    have htype : e.event.type ≠ .changed := by
      intro htype
      rw [htype] at hevent
      cases hevent
    simp [htask, TaskPc.untold, changedIn, calledOf, movedOf, htype]
  | @compareTo e d htask =>
    have htype : e.event.type = .changed := type_of_buttonEvent_eq_none (hs.task _ htask)
    simp [htask, TaskPc.untold, changedIn, calledOf, movedOf, htype]
  | noCall htask hnone => exact absurd hnone hcallback
  | notTaken | nothingAdded | sent | given | callbackWrite | setCtlD | setCtlQ =>
    simp [changedIn, calledOf, movedOf]
  | receive htask | readAdd htask | add htask | compare htask | call htask
  | callbackReturn htask | readStore htask | store htask =>
    simp [htask, TaskPc.untold, changedIn, calledOf, movedOf]

/-- A sum that fits is the sum of the numbers. -/
theorem toInt_add_of_fits {a b : Int32} (h : Fits a b) : (a + b).toInt = a.toInt + b.toInt := by
  obtain ⟨hmin, hmax⟩ := h
  rw [Int32.toInt_add]
  exact Int.bmod_eq_of_le (by omega) (by omega)

/-- The comparison tells the direction of a change by one. -/
theorem directs_of_compare {e : Raised} {d q : Int32}
    (h : d.toInt = q.toInt + e.event.diff.toInt) :
    Directs (if d > q then .posInc else .posDec) e := by
  intro _
  constructor
  · intro hdiff
    have hone : e.event.diff.toInt = 1 := by rw [hdiff]; rfl
    exact if_pos (Int32.lt_iff_toInt_lt.mpr (by omega))
  · intro hdiff
    have hone : e.event.diff.toInt = -1 := by rw [hdiff]; rfl
    exact if_neg fun hgt => by have := Int32.lt_iff_toInt_lt.mp hgt; omega

/-- A step that keeps apart leaves the position and its copy as they are meant. -/
theorem EncMove.follows (hm : EncMove cfg s i s' o) (hs : ∀ pc, s.task = some pc → pc.Follows s)
    (happart : Apart s i) : ∀ pc, s'.task = some pc → pc.Follows s' := by
  have hnext : ∀ {pc : TaskPc}, pc.Follows s' → ∀ pc', some pc = some pc' → pc'.Follows s' := by
    rintro pc hpc _ ⟨⟩
    exact hpc
  cases hm with
  | polled | notTaken | nothingAdded | sent | given => exact fun pc hpc => hs pc hpc
  | receive htask hqueue => exact hnext (hs _ htask)
  | @button e event htask hevent =>
    -- An event of the button is no change, and has no direction.
    refine hnext ?_
    intro htype
    rw [htype] at hevent
    cases hevent
  | @readAdd e htask hevent =>
    have hsetting : s.setting = [] := happart _ htask (type_of_buttonEvent_eq_none hevent)
    exact hnext ⟨hsetting, rfl, (hs _ htask).1 hsetting⟩
  | @add e d htask =>
    obtain ⟨hsetting, hd, hq⟩ := hs _ htask
    have hfits : Fits d e.event.diff := happart _ htask
    refine hnext ⟨hsetting, ?_⟩
    -- `ctl_q` is still the position before the change.
    rw [toInt_add_of_fits hfits, hd, hq]
  | compare htask => exact hnext (hs _ htask)
  | compareTo htask => exact hnext (directs_of_compare (hs _ htask).2)
  | call | noCall | callbackReturn => exact hnext trivial
  | readStore htask => exact hnext ⟨happart _ htask, rfl⟩
  | store htask =>
    obtain ⟨hsetting, hd⟩ := hs _ htask
    refine hnext ⟨fun _ => hd, ?_⟩
    dsimp only
    simp [hsetting]
  | callbackWrite d htask =>
    dsimp only
    rw [htask]
    exact hnext trivial
  | setCtlD pos =>
    -- Where the task goes on from what it has read, no call may write.
    obtain ⟨hsetting, hreading⟩ := happart
    intro pc hpc
    cases pc with
    | receiving | received => simp [TaskPc.Follows, hsetting]
    | calling e event => exact hs (.calling e event) hpc
    | inCallback | storing => trivial
    | adding | comparing | comparingTo | storingValue => exact absurd trivial (hreading _ hpc)
  | @setCtlQ k pos hpos =>
    intro pc hpc
    cases pc with
    | receiving | received =>
      -- The call has written the same value to `ctl_d` before.
      obtain ⟨-, hall⟩ := hs _ hpc
      exact ⟨fun _ => hall pos (List.mem_of_getElem? hpos), fun p hp =>
        hall p (List.mem_of_mem_eraseIdx hp)⟩
    | calling e event => exact hs (.calling e event) hpc
    | inCallback | storing => trivial
    | adding | comparing | comparingTo | storingValue => exact absurd trivial (happart _ hpc)

/-- The position after a step is the one that is meant, when the task adds to the one that was. -/
theorem EncMove.notePosition (hm : EncMove cfg s i s' o)
    (hs : ∀ pc, s.task = some pc → pc.Follows s) : s'.ctlD = notePosition s.ctlD s i := by
  cases hm with
  | @add e d htask =>
    obtain ⟨-, hd, -⟩ := hs _ htask
    simp [Encoder.notePosition, htask, hd]
  | receive htask | button htask | readAdd htask | compare htask | compareTo htask | call htask
  | noCall htask | callbackReturn htask | readStore htask | store htask =>
    simp [Encoder.notePosition, htask]
  | polled | notTaken | nothingAdded | sent | given | callbackWrite | setCtlD | setCtlQ => rfl

/-- The callback is called with the direction. -/
theorem EncMove.directs (hm : EncMove cfg s i s' o) (hs : ∀ pc, s.task = some pc → pc.Follows s)
    {callback : ℕ} {event : MyEncoderEvent} {e : Raised} (h : .called callback event e ∈ o) :
    Directs event e := by
  cases hm <;> simp at h
  case call htask _ =>
    obtain ⟨-, rfl, rfl⟩ := h
    exact hs _ htask

/-! ## Every run -/

/-- What holds as long as the steps keep apart. -/
structure FollowsInv (os : List EncOut) (s : MyEncoder) (position : Int32) : Prop where
  enc : EncInv s
  callback : s.eventCallback ≠ none
  told : changedIn (calledOf os) ++ s.task.elim [] TaskPc.untold = movedOf os
  task : ∀ pc, s.task = some pc → pc.Follows s
  directs : ∀ callback event e, .called callback event e ∈ os → Directs event e
  position : s.ctlD = position

/-- Between two events, with the same value in `ctl_d` and `ctl_q`. -/
theorem FollowsInv.of_receiving (hidle : s.mutex ≠ some .timer → s.unsent = [])
    (hcallback : s.eventCallback ≠ none) (htask : s.task = some .receiving) (hsetting : s.setting = [])
    (hq : s.ctlQ = s.ctlD) : FollowsInv [] s s.ctlD where
  enc := by
    refine ⟨hidle, fun pc hpc => ?_⟩
    obtain rfl : TaskPc.receiving = pc := by simpa [htask] using hpc
    trivial
  callback := hcallback
  told := by simp [htask, TaskPc.untold, changedIn, calledOf, movedOf]
  task := by
    intro pc hpc
    obtain rfl : TaskPc.receiving = pc := by simpa [htask] using hpc
    exact ⟨fun _ => hq, by simp [hsetting]⟩
  directs := by simp
  position := rfl

/-- A step that keeps apart follows the position. -/
theorem FollowsInv.step {past : List EncOut} {position : Int32} (hs : FollowsInv past s position)
    (hm : EncMove cfg s i s' o) (happart : Apart s i) :
    FollowsInv (past ++ o) s' (notePosition position s i) where
  enc := hs.enc.step hm
  callback := by
    rw [hm.eventCallback]
    exact hs.callback
  told := by
    rw [calledOf_append, movedOf_append, changedIn_append, List.append_assoc,
      hm.untold hs.enc hs.callback, ← List.append_assoc, hs.told]
  task := hm.follows hs.task happart
  directs := forall_called_append hs.directs fun _ _ _ => hm.directs hs.task
  position := by rw [hm.notePosition hs.task, hs.position]

/-- The position is followed. -/
theorem FollowsInv.follows {past : List EncOut} {position : Int32}
    (hs : FollowsInv past s position) : Follows past s position where
  told := hs.told
  directs := hs.directs
  position := hs.position
  copied := fun htask => (hs.task _ htask).1

/-- The encoder beside the observer that keeps the position as it is meant. -/
def observed (cfg : Config) (re : RotaryEncoder) (d₀ : Int32) :
    Machine (MyEncoder × Int32) EncInput EncOut :=
  (encoder cfg re d₀).observe d₀ notePosition

/-- The encoder follows the position in every state that the run of the inputs reaches. -/
def AlwaysFollows (cfg : Config) (re : RotaryEncoder) (d₀ : Int32) (inputs : List EncInput) : Prop :=
  ∀ hist t past, hist <+: inputs →
    (observed cfg re d₀).run (observed cfg re d₀).init hist = some (t, past) → Follows past t.1 t.2

/-- In every run in which no call that sets the position overlaps another or what the task has read,
and every addition fits, the encoder follows the position. -/
theorem position_follows (cfg : Config) (re : RotaryEncoder) (d₀ : Int32) (inputs : List EncInput)
    (h : (encoder cfg re d₀).AllSteps inputs fun _ s i _ _ => Apart s i) :
    AlwaysFollows cfg re d₀ inputs := by
  have hobs : (observed cfg re d₀).AllSteps inputs fun _ t i _ _ => Apart t.1 i :=
    Machine.allSteps_observe.mpr h
  intro hist t past hpre hrun
  have hinv := hobs.inv_outputs (I := fun _ past t => FollowsInv past t.1 t.2)
    (.of_receiving (fun _ => rfl) (by rintro ⟨⟩) rfl rfl rfl) ?_ hpre hrun
  · exact hinv.follows
  · intro _ past t i t' o hs happart hstep
    obtain ⟨⟨s', o'⟩, hmove, heq⟩ := Option.map_eq_some_iff.mp hstep
    cases heq
    exact hs.step (MyEncoder.step_move hmove) happart

/-- An encoder without a button. -/
def encoderWithoutButton : RotaryEncoder := { pinA := 14, pinB := 5, pinBtn := 40, code := 3 }

/-- The levels of the two pins. -/
def pinLevels (a b : Bool) : Levels := fun pin => if pin = 14 then a else b

/-- The knob is turned forward, and the event is in the queue. -/
def turnForward : List EncInput :=
  [.poll (pinLevels false true), .give, .poll (pinLevels false false), .give,
    .poll (pinLevels true false), .give, .poll (pinLevels true true), .send, .give]

/-- The task goes on by some steps. -/
def taskSteps (n : ℕ) : List EncInput := List.replicate n .task

/-- The position is set to 5 before the knob is turned, and to 9 in the callback, from where the task
comes back to the queue. -/
def setAndTurned : List EncInput :=
  [.setCtlD 5, .setCtlQ 0] ++ turnForward ++ taskSteps 6 ++ [.setCtlD 9, .setCtlQ 0] ++ taskSteps 3

/-- The change is told as an increment, and the position is 9 at the end. -/
theorem position_follows_set_and_turned :
    ((observed {} encoderWithoutButton 0).run (observed {} encoderWithoutButton 0).init
        setAndTurned).map (fun r => (r.1.1.ctlD, r.1.1.ctlQ, r.2)) =
      some (9, 9, [.raised ⟨⟨.changed, 1⟩, 1⟩, .moved ⟨⟨.changed, 1⟩, 1⟩,
        .called 1 .posInc ⟨⟨.changed, 1⟩, 1⟩]) ∧
    AlwaysFollows {} encoderWithoutButton 0 setAndTurned :=
  ⟨by decide +kernel,
    position_follows {} encoderWithoutButton 0 setAndTurned (by decide +kernel)⟩

/-- The position is set to 5 after the task has gone on by some steps with a turn forward, and then
the task goes on. -/
def setAfter (before after : ℕ) : List EncInput :=
  turnForward ++ taskSteps before ++ [.setCtlD 5, .setCtlQ 0] ++ taskSteps after

/-- What is wrong at the end of a run: a change forward was told as a decrement, the position is not the
one that is meant, or its copy is older. -/
def wrongAtEnd (d₀ : Int32) (inputs : List EncInput) : Option (Bool × Bool × Bool) :=
  ((observed {} encoderWithoutButton d₀).run (observed {} encoderWithoutButton d₀).init inputs).map
    fun r =>
      (decide (.called 1 .posDec ⟨⟨.changed, 1⟩, 1⟩ ∈ r.2), decide (r.1.1.ctlD ≠ r.1.2),
        decide (r.1.1.task = some .receiving ∧ r.1.1.setting = [] ∧ r.1.1.ctlQ ≠ r.1.1.ctlD))

/-- A run at the end of which something is wrong does not follow the position. -/
theorem not_alwaysFollows {d₀ : Int32} {inputs : List EncInput} {direction position copy : Bool}
    (h : wrongAtEnd d₀ inputs = some (direction, position, copy))
    (hwrong : direction ∨ position ∨ copy) :
    ¬ AlwaysFollows {} encoderWithoutButton d₀ inputs := by
  intro hfollows
  obtain ⟨⟨t, past⟩, hrun, heq⟩ := Option.map_eq_some_iff.mp h
  have hend := hfollows _ t past (List.prefix_refl _) hrun
  simp only [Prod.mk.injEq] at heq
  obtain ⟨rfl, rfl, rfl⟩ := heq
  simp only [decide_eq_true_eq] at hwrong
  rcases hwrong with hmem | hne | ⟨htask, hsetting, hne⟩
  · cases (hend.directs _ _ _ hmem rfl).1 rfl
  · exact hne hend.position
  · exact hne (hend.copied htask hsetting)

/-- A position that is set between the addition and the comparison turns the direction around, as
does the upper limit; and one that is set between the read and the write of the addition, or of the
copy, is overwritten. -/
theorem setter_overtaken :
    ¬ AlwaysFollows {} encoderWithoutButton 0 (setAfter 3 3) ∧
    ¬ AlwaysFollows {} encoderWithoutButton Int32.maxValue (turnForward ++ taskSteps 6) ∧
    ¬ AlwaysFollows {} encoderWithoutButton 0 (setAfter 2 1) ∧
    ¬ AlwaysFollows {} encoderWithoutButton 0 (setAfter 8 1) := by
  have hdirection : wrongAtEnd 0 (setAfter 3 3) = some (true, false, false) := by
    decide +kernel
  have hlimit : wrongAtEnd Int32.maxValue (turnForward ++ taskSteps 6) =
      some (true, false, false) := by
    decide +kernel
  have hposition : wrongAtEnd 0 (setAfter 2 1) = some (false, true, false) := by
    decide +kernel
  have hcopy : wrongAtEnd 0 (setAfter 8 1) = some (false, false, true) := by
    decide +kernel
  exact ⟨not_alwaysFollows hdirection (.inl rfl), not_alwaysFollows hlimit (.inl rfl),
    not_alwaysFollows hposition (.inr (.inl rfl)), not_alwaysFollows hcopy (.inr (.inr rfl))⟩

end PartLib.Encoder
