import PartLib.Encoder.Quadrature
import PartLib.Encoder.PositionSetter

/-!
# Clean turns of the knob

From one detent to the next the pins make four steps in the same order, and each level is sampled as
long as it lasts. Whatever was sampled before, `read_encoder` raises one event for each such turn, and
`encoder_task` tells its direction and moves the position by one (`detents_told`).
-/

namespace PartLib.Encoder

/-! ## The samples of a turn -/

/-- A turn of the knob from detent to detent: forward or backward, and how often each of its four
levels is sampled again. -/
structure Detent where
  forward : Bool
  first : ℕ := 0
  second : ℕ := 0
  third : ℕ := 0
  fourth : ℕ := 0

/-- Forward, `A` falls, `B` falls, `A` rises, and `B` rises; backward, the pins change places. -/
def Detent.samples (m : Detent) : List Pins :=
  List.replicate (m.first + 1) (!m.forward, m.forward) ++
    List.replicate (m.second + 1) (false, false) ++
    List.replicate (m.third + 1) (m.forward, !m.forward) ++
    List.replicate (m.fourth + 1) rest

/-- The change of the position. -/
def Detent.diff (m : Detent) : Int32 := if m.forward then 1 else -1

/-- The event that `read_encoder` is to raise. -/
def Detent.event (m : Detent) : Event := ⟨.changed, m.diff⟩

/-- The event that the callback is to be told. -/
def Detent.told (m : Detent) : MyEncoderEvent := if m.forward then .posInc else .posDec

/-- How far the knob has been turned. -/
def turned (ms : List Detent) : ℤ := (ms.map fun m => m.diff.toInt).sum

/-- The direction of the four steps. -/
def Detent.sign (m : Detent) : ℤ := if m.forward then 1 else -1

variable {p q : Pins} {later : List Pins}

/-- A level that lasts is one step. -/
theorem moves_replicate (hmove : move p q ≠ 0) (n : ℕ) :
    moves p (List.replicate (n + 1) q ++ later) = move p q :: moves q later := by
  have hstay : ∀ n, moves q (List.replicate n q ++ later) = moves q later := by
    intro n
    induction n with
    | zero => rfl
    | succ n ih =>
      rw [List.replicate_succ, List.cons_append, moves, if_pos (move_self q), ih]
  rw [List.replicate_succ, List.cons_append, moves, if_neg hmove, hstay]

/-- A level that lasts misses no step. -/
theorem noneMissed_replicate (hone : OnePin p q) (hlater : NoneMissed q later) (n : ℕ) :
    NoneMissed p (List.replicate (n + 1) q ++ later) := by
  have hstay : ∀ n, NoneMissed q (List.replicate n q ++ later) := by
    intro n
    induction n with
    | zero => exact hlater
    | succ n ih => exact List.isChain_cons_cons.mpr ⟨.inl rfl, ih⟩
  exact List.isChain_cons_cons.mpr ⟨hone, hstay n⟩

/-- A turn is four steps in its direction. -/
theorem Detent.moves_samples (m : Detent) (later : List Pins) :
    moves rest (m.samples ++ later) =
      m.sign :: m.sign :: m.sign :: m.sign :: moves rest later := by
  obtain ⟨forward, first, second, third, fourth⟩ := m
  cases forward <;>
    simp only [Detent.samples, List.append_assoc] <;>
    rw [moves_replicate (by decide), moves_replicate (by decide), moves_replicate (by decide),
      moves_replicate (by decide)] <;>
    rfl

/-- A turn misses no step. -/
theorem Detent.noneMissed_samples (m : Detent) (h : NoneMissed rest later) :
    NoneMissed rest (m.samples ++ later) := by
  obtain ⟨forward, first, second, third, fourth⟩ := m
  simp only [Detent.samples, List.append_assoc]
  refine noneMissed_replicate ?_ (noneMissed_replicate ?_ (noneMissed_replicate ?_
    (noneMissed_replicate ?_ h _) _) _) _ <;>
    cases forward <;> decide

/-- A turn is an excursion. -/
theorem excursions_turn {sign : ℤ} (hsign : sign = 1 ∨ sign = -1) (steps : List ℤ) :
    excursions 4 (sign :: sign :: sign :: sign :: steps) =
      [sign, sign, sign, sign] :: excursions 4 steps := by
  rcases hsign with rfl | rfl
  all_goals
    rw [excursions, excursionsFrom_of_not_dvd (by decide), excursionsFrom_of_not_dvd (by decide),
      excursionsFrom_of_not_dvd (by decide), excursionsFrom_of_dvd (by decide)]
    rfl

/-- Turns one after another miss no step, and their events are those of their excursions. -/
theorem turnEvents_samples (ms : List Detent) :
    NoneMissed rest (ms.flatMap Detent.samples) ∧
      (excursions 4 (moves rest (ms.flatMap Detent.samples))).flatMap turnEvents =
        ms.map Detent.event := by
  induction ms with
  | nil => exact ⟨List.isChain_singleton _, rfl⟩
  | cons m ms ih =>
    have hsign : m.sign = 1 ∨ m.sign = -1 := by
      cases hforward : m.forward <;> simp [Detent.sign, hforward]
    have hevent : turnEvents [m.sign, m.sign, m.sign, m.sign] = [m.event] := by
      cases hforward : m.forward <;>
        simp [Detent.sign, Detent.event, Detent.diff, turnEvents, hforward]
    refine ⟨m.noneMissed_samples ih.1, ?_⟩
    rw [List.flatMap_cons, m.moves_samples, excursions_turn hsign, List.flatMap_cons, hevent, ih.2]
    rfl

/-! ## The polls -/

variable {cfg : Config} {re : RotaryEncoder}

/-- After some polls the code ends with the last sample. -/
theorem readPolls_code (cfg : Config) (re : RotaryEncoder) {polls : List Levels} {p : Pins}
    (hlast : (polls.map re.pins).getLast? = some p) :
    (readPolls cfg re polls).1.code &&& 3 = levelsOf p := by
  rw [List.getLast?_map] at hlast
  obtain ⟨levels, hlevels, rfl⟩ := Option.map_eq_some_iff.mp hlast
  obtain ⟨before, rfl⟩ := List.getLast?_eq_some_iff.mp hlevels
  rw [readPolls_append, ← readPolls_pins cfg re before]
  exact readEncoder_code cfg _ levels

/-! ## The task -/

/-- The task waits for an event, with the position in `ctl_d` and `ctl_q`; a callback is set, and no
call that sets the position is under way. -/
structure Ready (s : MyEncoder) : Prop where
  idle : s.mutex ≠ some .timer → s.unsent = []
  callback : s.eventCallback ≠ none
  task : s.task = some .receiving
  setting : s.setting = []
  copied : s.ctlQ = s.ctlD

/-- The encoder is ready when `init_encoder` has returned. -/
theorem ready_started (re : RotaryEncoder) (d : Int32) : Ready (started re d) where
  idle := fun _ => rfl
  callback := by rintro ⟨⟩
  task := rfl
  setting := rfl
  copied := rfl

/-- The encoder, from a given state on. -/
def encoderFrom (cfg : Config) (s : MyEncoder) : Machine MyEncoder EncInput EncOut :=
  ⟨s, MyEncoder.step cfg⟩

/-- What the callback was told about the changes. -/
def toldOf (os : List EncOut) : List MyEncoderEvent :=
  os.filterMap fun o => match o with
    | .called _ event e => if e.event.type = .changed then some event else none
    | _ => none

/-- As the changes are added one after another, the position stays in the range of `int32_t`. -/
def InRange (d₀ : Int32) (es : List Raised) : Prop :=
  ∀ done, done <+: es →
    -2 ^ 31 ≤ d₀.toInt + changes done ∧ d₀.toInt + changes done < 2 ^ 31

variable {s s' s₀ : MyEncoder} {i : EncInput} {inputs : List EncInput} {o past os : List EncOut}

/-- What holds when nothing but the task sets the position. -/
structure UnsetInv (s₀ : MyEncoder) (past : List EncOut) (s : MyEncoder) : Prop where
  enc : EncInv s
  position : s.ctlD = s₀.ctlD + Int32.ofInt (changes (movedOf past))
  adding : ∀ e d, s.task = some (.adding e d) → d = s.ctlD
  follows : InRange s₀.ctlD (movedOf past) → FollowsInv past s s.ctlD ∧ s.setting = []

/-- While nothing sets the position, no call that sets it begins or ends. -/
theorem EncMove.setting (hm : EncMove cfg s i s' o) (hi : ¬ i.SetsPosition) :
    s'.setting = s.setting := by
  cases hm with
  | callbackWrite | setCtlD | setCtlQ => exact absurd trivial hi
  | _ => rfl

/-- A step of the task keeps apart when no call that sets the position is under way, and the position
stays in range. -/
theorem UnsetInv.apart (hs : UnsetInv s₀ past s) (hm : EncMove cfg s i s' o)
    (hi : ¬ i.SetsPosition) (hsetting : s.setting = [])
    (hrange : InRange s₀.ctlD (movedOf (past ++ o))) : Apart s i := by
  cases hm with
  | callbackWrite | setCtlD | setCtlQ => exact absurd trivial hi
  | polled | notTaken | nothingAdded | sent | given => trivial
  | @add e d htask =>
    intro pc hpc
    obtain rfl : TaskPc.adding e d = pc := by simpa [htask] using hpc
    -- The positions before and after the change are sums of the first changes.
    have hchange : e.change = e.event.diff.toInt :=
      if_pos (type_of_buttonEvent_eq_none (hs.enc.task _ htask))
    have hmoved : movedOf (past ++ [EncOut.moved e]) = movedOf past ++ [e] := by
      rw [movedOf_append]
      rfl
    rw [hmoved] at hrange
    have hbefore := hrange _ (List.prefix_append _ _)
    have hafter := hrange _ (List.prefix_refl _)
    rw [changes_append, changes_cons, changes_nil, hchange] at hafter
    have hd : d.toInt = s₀.ctlD.toInt + changes (movedOf past) := by
      rw [hs.adding e d htask, hs.position]
      exact toInt_add_ofInt hbefore.1 hbefore.2
    rw [TaskPc.Apart, Fits, hd]
    exact ⟨by omega, by omega⟩
  | receive htask | button htask | readAdd htask | compare htask | compareTo htask | call htask
  | noCall htask | callbackReturn htask | readStore htask | store htask =>
    intro pc hpc
    obtain rfl := Option.some.inj (htask.symm.trans hpc)
    first
      | exact hsetting
      | exact fun _ => hsetting
      | trivial

/-- A step keeps the invariant when it does not set the position from outside. -/
theorem UnsetInv.step (hs : UnsetInv s₀ past s) (hm : EncMove cfg s i s' o)
    (hi : ¬ i.SetsPosition) : UnsetInv s₀ (past ++ o) s' := by
  obtain ⟨hctl, hadd⟩ := hs.enc.position hm hi hs.adding
  refine ⟨hs.enc.step hm, ?_, hadd, fun hrange => ?_⟩
  · rw [hctl, hs.position, movedOf_append, changes_append, Int32.ofInt_add, Int32.add_assoc]
  · have hpast : InRange s₀.ctlD (movedOf past) := by
      intro done hdone
      refine hrange done (hdone.trans ?_)
      rw [movedOf_append]
      exact List.prefix_append _ _
    obtain ⟨hfollows, hsetting⟩ := hs.follows hpast
    have hnext := hfollows.step hm (hs.apart hm hi hsetting hrange)
    rw [← hnext.position] at hnext
    exact ⟨hnext, by rw [hm.setting hi, hsetting]⟩

/-- The invariant holds after every run in which nothing sets the position from outside. -/
theorem Ready.unsetInv (hs : Ready s₀) (hset : ∀ i ∈ inputs, ¬ i.SetsPosition)
    (hrun : (encoderFrom cfg s₀).run s₀ inputs = some (s, os)) : UnsetInv s₀ os s := by
  have hall : (encoderFrom cfg s₀).AllSteps inputs fun _ _ i _ _ => ¬ i.SetsPosition :=
    fun h _ i _ _ ho => hset i (ho.isPrefix.subset (by simp))
  refine hall.inv_outputs (I := fun _ past s => UnsetInv s₀ past s) ?_ ?_ (List.prefix_refl _) hrun
  · have hfollows := FollowsInv.of_receiving hs.idle hs.callback hs.task hs.setting hs.copied
    refine ⟨hfollows.enc, by simp [encoderFrom, movedOf], fun e d hadd => ?_,
      fun _ => ⟨hfollows, hs.setting⟩⟩
    rw [encoderFrom, hs.task] at hadd
    cases hadd
  · intro _ past s i s' o hinv hi hstep
    exact hinv.step (MyEncoder.step_move hstep) hi

/-- What the callback was told of the changes, when it was told the directions. -/
theorem toldOf_eq (hdirects : ∀ callback event e, .called callback event e ∈ os → Directs event e)
    (hdiff : ∀ e ∈ changedIn (calledOf os), e.event.diff = 1 ∨ e.event.diff = -1) :
    toldOf os = (changedIn (calledOf os)).map fun e =>
      if e.event.diff = 1 then .posInc else .posDec := by
  -- Only a call with a change counts, and it tells the direction.
  induction os with
  | nil => rfl
  | cons o os ih =>
    have hlater := ih fun callback event e h => hdirects callback event e (List.mem_cons_of_mem _ h)
    cases o with
    | raised | moved | cleared => exact hlater hdiff
    | called callback event e =>
      have hsplit : calledOf (.called callback event e :: os) = e :: calledOf os := rfl
      have htold : toldOf (.called callback event e :: os) =
          (if e.event.type = .changed then [event] else []) ++ toldOf os := by
        by_cases htype : e.event.type = .changed <;> simp [toldOf, htype]
      rw [hsplit] at hdiff ⊢
      by_cases htype : e.event.type = .changed
      · have hcons : changedIn (e :: calledOf os) = e :: changedIn (calledOf os) := by
          simp [changedIn, htype]
        rw [hcons] at hdiff ⊢
        obtain ⟨hinc, hdec⟩ := hdirects callback event e (by simp) htype
        rw [htold, if_pos htype, List.map_cons,
          hlater fun e he => hdiff e (List.mem_cons_of_mem _ he)]
        rcases hdiff e (by simp) with hone | hone
        · rw [hinc hone, if_pos hone]
          rfl
        · rw [hdec hone, hone]
          rfl
      · have hsame : changedIn (e :: calledOf os) = changedIn (calledOf os) := by
          simp [changedIn, htype]
        rw [hsame] at hdiff ⊢
        rw [htold, if_neg htype, List.nil_append, hlater hdiff]

/-- The sum of the changes of some events. -/
def diffs (es : List Event) : ℤ := (es.map fun e => e.diff.toInt).sum

/-- What changes add to the position. -/
theorem changes_eq_diffs {es : List Raised} (h : ∀ e ∈ es, e.event.type = .changed) :
    changes es = diffs (es.map Raised.event) := by
  rw [changes, diffs, List.map_map]
  exact congrArg List.sum (List.map_congr_left fun e he => if_pos (h e he))

@[simp]
theorem diffs_append (es₁ es₂ : List Event) : diffs (es₁ ++ es₂) = diffs es₁ + diffs es₂ := by
  simp [diffs]

/-- An event of some turns is that of one of them. -/
theorem exists_turn {es : List Raised} {ms : List Detent}
    (h : es.map Raised.event = ms.map Detent.event) {e : Raised} (he : e ∈ es) :
    ∃ m ∈ ms, m.event = e.event :=
  List.mem_map.mp (h ▸ List.mem_map_of_mem he)

/-- The changes of the events that turns raise sum up to how far the knob has been turned. -/
theorem changes_of_turns {es : List Raised} {ms : List Detent}
    (h : es.map Raised.event = ms.map Detent.event) : changes es = turned ms := by
  have htype : ∀ e ∈ es, e.event.type = .changed := by
    intro e he
    obtain ⟨m, -, hm⟩ := exists_turn h he
    rw [← hm]
    rfl
  rw [changes_eq_diffs htype, h, diffs, List.map_map]
  rfl

/-- While nothing sets the position from outside, it moves by the changes that the task adds. -/
theorem Ready.ctlD (hs : Ready s₀) (hset : ∀ i ∈ inputs, ¬ i.SetsPosition)
    (hrun : (encoderFrom cfg s₀).run s₀ inputs = some (s, os)) :
    s.ctlD = s₀.ctlD + Int32.ofInt (changes (movedOf os)) := (hs.unsetInv hset hrun).position

/-- When the task has added the changes of some turns, in range, the callback was told each
direction. -/
theorem Ready.told {ms : List Detent} (hs : Ready s₀) (hset : ∀ i ∈ inputs, ¬ i.SetsPosition)
    (hrun : (encoderFrom cfg s₀).run s₀ inputs = some (s, os)) (htask : s.task = some .receiving)
    (hmoved : (movedOf os).map Raised.event = ms.map Detent.event)
    (hrange : InRange s₀.ctlD (movedOf os)) : toldOf os = ms.map Detent.told := by
  have hfollows := ((hs.unsetInv hset hrun).follows hrange).1.follows
  have hcalled : changedIn (calledOf os) = movedOf os := by
    simpa [htask, TaskPc.untold] using hfollows.told
  have hone : ∀ e ∈ changedIn (calledOf os), e.event.diff = 1 ∨ e.event.diff = -1 := by
    intro e he
    rw [hcalled] at he
    obtain ⟨m, -, hm⟩ := exists_turn hmoved he
    rw [← hm]
    cases hforward : m.forward <;> simp [Detent.event, Detent.diff, hforward]
  have hmap : toldOf os = ((movedOf os).map Raised.event).map fun e =>
      if e.diff = 1 then .posInc else .posDec := by
    rw [toldOf_eq hfollows.directs hone, hcalled, List.map_map]
    rfl
  rw [hmap, hmoved, List.map_map]
  refine List.map_congr_left fun m _ => ?_
  cases hforward : m.forward <;> simp [Detent.event, Detent.diff, Detent.told, hforward]

/-- The task, left alone, calls the callback with the next event of the queue, and waits again. -/
theorem task_processes (cfg : Config) (s₀ : MyEncoder) {e : Raised} {queue : List Raised}
    (htask : s.task = some .receiving) (hqueue : s.eventQueue = e :: queue)
    (hcallback : s.eventCallback ≠ none) :
    ∃ k s' os, (encoderFrom cfg s₀).run s (taskSteps k) = some (s', os) ∧
      s'.task = some .receiving ∧ s'.eventQueue = queue ∧ s'.eventCallback ≠ none ∧
      movedOf os = changedIn [e] := by
  obtain ⟨callback, eventQueue, re, task, ctlD, ctlQ, encs, mutex, unsent, setting, cycle⟩ := s
  obtain rfl : task = some .receiving := htask
  obtain rfl : eventQueue = e :: queue := hqueue
  obtain ⟨callback, rfl⟩ := Option.ne_none_iff_exists'.mp hcallback
  obtain ⟨⟨type, diff⟩, eventCycle⟩ := e
  cases type with
  | changed => exact ⟨9, _, _, rfl, rfl, rfl, hcallback, rfl⟩
  | btnReleased | btnPressed | btnLongPressed | btnClicked =>
    exact ⟨6, _, _, rfl, rfl, rfl, hcallback, rfl⟩

/-- The task, left alone, processes all events of the queue. -/
theorem task_processes_all (cfg : Config) (s₀ : MyEncoder) (htask : s.task = some .receiving)
    (hcallback : s.eventCallback ≠ none) :
    ∃ k s' os, (encoderFrom cfg s₀).run s (taskSteps k) = some (s', os) ∧
      s'.task = some .receiving ∧ s'.eventQueue = [] ∧ movedOf os = changedIn s.eventQueue := by
  generalize hqueue : s.eventQueue = queue
  induction queue generalizing s with
  | nil => exact ⟨0, s, [], rfl, htask, hqueue, rfl⟩
  | cons e queue ih =>
    obtain ⟨k₁, s₁, os₁, hrun₁, htask₁, hqueue₁, hcallback₁, hmoved₁⟩ :=
      task_processes cfg s₀ htask hqueue hcallback
    obtain ⟨k₂, s₂, os₂, hrun₂, htask₂, hqueue₂, hmoved₂⟩ := ih htask₁ hcallback₁ hqueue₁
    refine ⟨k₁ + k₂, s₂, os₁ ++ os₂, ?_, htask₂, hqueue₂, ?_⟩
    · rw [taskSteps, List.replicate_add]
      exact (Machine.run_append_eq_some _).mpr ⟨s₁, os₁, os₂, hrun₁, hrun₂, rfl⟩
    · rw [movedOf_append, hmoved₁, hmoved₂, ← changedIn_append]
      rfl

/-- Whatever was sampled before, as long as it ends at rest, `read_encoder` raises one event for each
turn of the knob, with its change. And when the task, from where it waits with the position in `ctl_d`
and `ctl_q`, has processed events with these changes, in range and with nothing else that sets the
position, the callback was told each direction, and the position has moved as far as the knob was
turned. Left alone, the task does process all events of its queue. -/
theorem detents_told (cfg : Config) (re : RotaryEncoder) (before polls : List Levels)
    (ms : List Detent) (hrest : (before.map re.pins).getLast? = some rest)
    (hpolls : polls.map re.pins = ms.flatMap Detent.samples) :
    changedOf (readPolls cfg (readPolls cfg re before).1 polls).2 = ms.map Detent.event ∧
    (∀ s₀ inputs s os, Ready s₀ → (∀ i ∈ inputs, ¬ i.SetsPosition) →
      (encoderFrom cfg s₀).run s₀ inputs = some (s, os) → s.task = some .receiving →
      (movedOf os).map Raised.event =
        changedOf (readPolls cfg (readPolls cfg re before).1 polls).2 →
      (∀ done, done <+: ms →
        -2 ^ 31 ≤ s₀.ctlD.toInt + turned done ∧ s₀.ctlD.toInt + turned done < 2 ^ 31) →
      toldOf os = ms.map Detent.told ∧ s.ctlD.toInt = s₀.ctlD.toInt + turned ms) ∧
    ∀ s₀, Ready s₀ → ∃ k s os, (encoderFrom cfg s₀).run s₀ (taskSteps k) = some (s, os) ∧
      s.task = some .receiving ∧ s.eventQueue = [] ∧ movedOf os = changedIn s₀.eventQueue := by
  have hpins := readPolls_pins cfg re before
  obtain ⟨hmissed, hevents⟩ := turnEvents_samples ms
  have hraised : changedOf (readPolls cfg (readPolls cfg re before).1 polls).2 =
      ms.map Detent.event := by
    rw [← hevents, ← hpolls, ← hpins]
    exact changedOf_readPolls cfg (readPolls_code cfg re hrest) polls (by rwa [hpins, hpolls])
  refine ⟨hraised, fun s₀ inputs s os hready hset hrun htask hmoved hrange => ?_,
    fun s₀ hready => task_processes_all cfg s₀ hready.task hready.callback⟩
  rw [hraised] at hmoved
  have hinrange : InRange s₀.ctlD (movedOf os) := by
    rintro done ⟨later, hlater⟩
    -- The first changes are those of the first turns.
    have hsplit : done.map Raised.event = (ms.take done.length).map Detent.event := by
      rw [List.map_take, ← hmoved, ← hlater, List.map_append, List.take_left' (by simp)]
    rw [changes_of_turns hsplit]
    exact hrange _ (List.take_prefix _ _)
  refine ⟨hready.told hset hrun htask hmoved hinrange, ?_⟩
  have hend := hrange ms (List.prefix_refl _)
  rw [hready.ctlD hset hrun, changes_of_turns hmoved]
  exact toInt_add_ofInt hend.1 hend.2

/-- Two turns, each level of which is sampled once. -/
def forthAndBack : List Detent := [{ forward := true }, { forward := false }]

/-- The levels of the two turns. -/
def forthAndBackLevels : List Levels :=
  [pinLevels false true, pinLevels false false, pinLevels true false, pinLevels true true,
    pinLevels true false, pinLevels false false, pinLevels false true, pinLevels true true]

/-- The knob is turned backward, and the event is in the queue. -/
def turnBackward : List EncInput :=
  [.poll (pinLevels true false), .give, .poll (pinLevels false false), .give,
    .poll (pinLevels false true), .give, .poll (pinLevels true true), .send, .give]

/-- Both turns are polled, and the task processes both events. -/
def forthAndBackRun : List EncInput := turnForward ++ turnBackward ++ taskSteps 18

/-- From position 7, the callback is told an increment and a decrement, and the position is 7 again. -/
theorem detents_told_forth_and_back :
    changedOf (readPolls {} (readPolls {} encoderWithoutButton [pinLevels true true]).1
        forthAndBackLevels).2 = [⟨.changed, 1⟩, ⟨.changed, -1⟩] ∧
    ∃ s os, (encoder {} encoderWithoutButton 7).run (started encoderWithoutButton 7) forthAndBackRun =
        some (s, os) ∧ toldOf os = [.posInc, .posDec] ∧ s.ctlD.toInt = 7 := by
  obtain ⟨hraised, htold, -⟩ := detents_told {} encoderWithoutButton [pinLevels true true]
    forthAndBackLevels forthAndBack rfl rfl
  have hrun : ((encoder {} encoderWithoutButton 7).run (started encoderWithoutButton 7)
      forthAndBackRun).map (fun r => (r.1.task, (movedOf r.2).map Raised.event)) =
        some (some .receiving, [⟨.changed, 1⟩, ⟨.changed, -1⟩]) := by
    decide +kernel
  obtain ⟨⟨s, os⟩, hrun, hend⟩ := Option.map_eq_some_iff.mp hrun
  simp only [Prod.mk.injEq] at hend
  have hset : ∀ i ∈ forthAndBackRun, ¬ i.SetsPosition := by
    simp [forthAndBackRun, turnForward, turnBackward, taskSteps, EncInput.SetsPosition]
  have hrange : ∀ done, done <+: forthAndBack →
      -2 ^ 31 ≤ (7 : Int32).toInt + turned done ∧ (7 : Int32).toInt + turned done < 2 ^ 31 := by
    have hinits : ∀ done ∈ forthAndBack.inits,
        -2 ^ 31 ≤ (7 : Int32).toInt + turned done ∧ (7 : Int32).toInt + turned done < 2 ^ 31 := by
      decide
    exact fun done hdone => hinits done (List.mem_inits _ _ |>.mpr hdone)
  have hmoved : (movedOf os).map Raised.event = changedOf (readPolls {} (readPolls {}
      encoderWithoutButton [pinLevels true true]).1 forthAndBackLevels).2 := by
    rw [hraised, hend.2]
    rfl
  obtain ⟨hdirections, hposition⟩ := htold (started encoderWithoutButton 7) forthAndBackRun s os
    (ready_started _ _) hset hrun hend.1 hmoved hrange
  exact ⟨hraised, s, os, hrun, hdirections, hposition⟩

end PartLib.Encoder
