import PartLib.Encoder.EventQueue
import Mathlib.Computability.RegularExpressions
import Mathlib.Order.Bounds.Basic

/-!
# The events of the button

`read_encoder` looks at the button once in a poll. After a press it does not look again until the dead
time is over, and the counter of the dead time goes on as the timer of the long press.

Whatever the levels, the events are the beginning of a word of presses and releases, each press with
a click or a long press between (`button_events`), and the times at which they are raised are those of
`PressTiming`. `encoder_task` calls the callback once for each event that it receives.
-/

namespace PartLib.Encoder

open scoped Computability

/-! ## A poll -/

/-- A poll of a button in a given state, after a given time, which is pressed or not: the next state
and time, and the events. -/
inductive ButtonMove (cfg : Config) :
    BtnState → ℕ → Bool → BtnState → ℕ → List EventType → Prop
  | idle {time : ℕ} : ButtonMove cfg .released time false .released time []
  | press {time : ℕ} : ButtonMove cfg .released time true .pressed 0 [.btnPressed]
  | dead {time : ℕ} {pressed : Bool} (hdead : time < cfg.deadTimeUs) :
      ButtonMove cfg .pressed time pressed .pressed (time + cfg.intervalUs) []
  | hold {time : ℕ} (hdead : cfg.deadTimeUs ≤ time)
      (hlong : time + cfg.intervalUs < cfg.longPressTimeUs) :
      ButtonMove cfg .pressed time true .pressed (time + cfg.intervalUs) []
  | long {time : ℕ} (hdead : cfg.deadTimeUs ≤ time)
      (hlong : cfg.longPressTimeUs ≤ time + cfg.intervalUs) :
      ButtonMove cfg .pressed time true .longPressed (time + cfg.intervalUs) [.btnLongPressed]
  | click {time : ℕ} (hdead : cfg.deadTimeUs ≤ time) :
      ButtonMove cfg .pressed time false .released time [.btnReleased, .btnClicked]
  | holdLong {time : ℕ} :
      ButtonMove cfg .longPressed time true .longPressed (time + cfg.intervalUs) []
  | release {time : ℕ} : ButtonMove cfg .longPressed time false .released time [.btnReleased]

/-- The types of the events of the button. -/
def buttonTypes (es : List Event) : List EventType :=
  (es.filter fun e => e.type ≠ .changed).map Event.type

/-- The part of `read_encoder` for the button makes one of these moves. -/
theorem readButton_move (cfg : Config) (re : RotaryEncoder) (level : Bool) :
    let r := readButton cfg re level
    ButtonMove cfg re.btnState re.btnPressedTimeUs (level == cfg.pressedLevel) r.1.btnState
      r.1.btnPressedTimeUs (buttonTypes r.2) := by
  obtain ⟨pinA, pinB, pinBtn, code, store, time, state⟩ := re
  cases hlevel : level == cfg.pressedLevel <;> cases state <;>
    simp only [beq_iff_eq, beq_eq_false_iff_ne, ne_eq] at hlevel
  case false.released =>
    simp only [readButton, hlevel]
    exact .idle
  case false.pressed =>
    by_cases hdead : time < cfg.deadTimeUs
    · simp only [readButton, hdead]
      exact .dead hdead
    · simp only [readButton, hdead, hlevel]
      exact .click (not_lt.mp hdead)
  case false.longPressed =>
    simp only [readButton, hlevel]
    exact .release
  case true.released =>
    simp only [readButton, hlevel]
    exact .press
  case true.pressed =>
    by_cases hdead : time < cfg.deadTimeUs
    · simp only [readButton, hdead]
      exact .dead hdead
    · by_cases hlong : cfg.longPressTimeUs ≤ time + cfg.intervalUs
      · simp only [readButton, hdead, hlevel, hlong]
        exact .long (not_lt.mp hdead) hlong
      · simp only [readButton, hdead, hlevel, hlong]
        exact .hold (not_lt.mp hdead) (not_le.mp hlong)
  case true.longPressed =>
    simp only [readButton, hlevel]
    exact .holdLong

/-- `read_encoder` makes one of these moves, when there is a button. -/
theorem readEncoder_button {cfg : Config} {re : RotaryEncoder} (hpin : re.pinBtn < cfg.gpioNumMax)
    (levels : Levels) :
    let r := readEncoder cfg re levels
    ButtonMove cfg re.btnState re.btnPressedTimeUs (levels re.pinBtn == cfg.pressedLevel)
      r.1.btnState r.1.btnPressedTimeUs (buttonTypes r.2) ∧ r.1.pinBtn = re.pinBtn := by
  have hbtn : (readButton cfg re (levels re.pinBtn)).1.pinBtn = re.pinBtn := by
    simp only [readButton]
    split_ifs <;> rfl
  have hpos : ∀ (re : RotaryEncoder) a b, buttonTypes (readPosition re a b).2 = [] ∧
      (readPosition re a b).1.btnState = re.btnState ∧
      (readPosition re a b).1.btnPressedTimeUs = re.btnPressedTimeUs ∧
      (readPosition re a b).1.pinBtn = re.pinBtn := by
    intro re a b
    simp only [readPosition]
    split_ifs <;> simp [buttonTypes]
  -- The position raises no event of the button and leaves its state alone.
  obtain ⟨hnone, hstate, htime, hsame⟩ :=
    hpos (readButton cfg re (levels re.pinBtn)).1 (levels re.pinA) (levels re.pinB)
  have htypes : buttonTypes (readEncoder cfg re levels).2 =
      buttonTypes (readButton cfg re (levels re.pinBtn)).2 := by
    simp only [readEncoder, if_pos hpin]
    rw [buttonTypes, List.filter_append, List.map_append]
    change _ ++ buttonTypes _ = _
    rw [hnone, List.append_nil, buttonTypes]
  simp only [htypes]
  simp only [readEncoder, if_pos hpin, hstate, htime, hsame, hbtn, and_true]
  exact readButton_move cfg re (levels re.pinBtn)

/-! ## The polls of a button -/

/-- The descriptor before the poll with the given number, when a poll samples the given levels. -/
def beforePoll (cfg : Config) (re : RotaryEncoder) (levels : ℕ → Levels) : ℕ → RotaryEncoder
  | 0 => re
  | n + 1 => (readEncoder cfg (beforePoll cfg re levels n) (levels n)).1

/-- The events of the button that a poll raises. -/
def buttonEventsAt (cfg : Config) (re : RotaryEncoder) (levels : ℕ → Levels) (n : ℕ) :
    List EventType :=
  buttonTypes (readEncoder cfg (beforePoll cfg re levels n) (levels n)).2

/-- The events of the button that the first polls raise. -/
def buttonEventsBefore (cfg : Config) (re : RotaryEncoder) (levels : ℕ → Levels) (n : ℕ) :
    List EventType :=
  (List.range n).flatMap (buttonEventsAt cfg re levels)

/-- The level of the button at a poll is the one of a pressed button. -/
def pressedAt (cfg : Config) (re : RotaryEncoder) (levels : ℕ → Levels) (n : ℕ) : Bool :=
  levels n re.pinBtn == cfg.pressedLevel

/-- The button is pressed, and clicked or pressed for long. -/
def buttonPress : RegularExpression EventType :=
  .char .btnPressed *
    (.char .btnReleased * .char .btnClicked + .char .btnLongPressed * .char .btnReleased)

/-- The button is pressed any number of times. -/
def buttonLanguage : Language EventType := buttonPress.star.matches'

/-- The times of the events, in polls after the one that raised the press: nothing in the dead time;
the release at the first later poll that finds the button released; and, when no poll has found it
released until then, the long press when its time has come. -/
structure PressTiming (cfg : Config) (pressed : ℕ → Bool) (events : ℕ → List EventType) (n : ℕ) :
    Prop where
  dead : ∀ k, 1 ≤ k → (k - 1) * cfg.intervalUs < cfg.deadTimeUs → events (n + k) = []
  released : ∀ k,
    IsLeast {k | 1 ≤ k ∧ .btnReleased ∈ events (n + k)} k ↔
      IsLeast {k | 1 ≤ k ∧ cfg.deadTimeUs ≤ (k - 1) * cfg.intervalUs ∧ pressed (n + k) = false} k
  long : ∀ k, 1 ≤ k →
    (∀ j, 1 ≤ j → j ≤ k → cfg.deadTimeUs ≤ (j - 1) * cfg.intervalUs → pressed (n + j) = true) →
    (.btnLongPressed ∈ events (n + k) ↔
      IsLeast {k | 1 ≤ k ∧ cfg.deadTimeUs ≤ (k - 1) * cfg.intervalUs ∧
        cfg.longPressTimeUs ≤ k * cfg.intervalUs} k)

variable {cfg : Config} {re : RotaryEncoder} {levels : ℕ → Levels} {state state' : BtnState}
  {time time' : ℕ} {pressed : Bool} {es : List EventType}

/-- Every poll makes one of the moves of the button. -/
theorem beforePoll_move (hpin : re.pinBtn < cfg.gpioNumMax) (levels : ℕ → Levels) (n : ℕ) :
    let before := beforePoll cfg re levels n
    let after := beforePoll cfg re levels (n + 1)
    ButtonMove cfg before.btnState before.btnPressedTimeUs (pressedAt cfg re levels n)
      after.btnState after.btnPressedTimeUs (buttonEventsAt cfg re levels n) := by
  have hsame : ∀ n, (beforePoll cfg re levels n).pinBtn = re.pinBtn := by
    intro n
    induction n with
    | zero => rfl
    | succ n ih => exact (readEncoder_button (ih ▸ hpin) (levels n)).2.trans ih
  have hmove := (readEncoder_button (hsame n ▸ hpin) (levels n)).1
  rw [hsame n] at hmove
  exact hmove

/-! ## The word of the events -/

/-- What the button has raised since it was released. -/
def pending : BtnState → List EventType
  | .released => []
  | .pressed => [.btnPressed]
  | .longPressed => [.btnPressed, .btnLongPressed]

theorem nil_mem_buttonLanguage : [] ∈ buttonLanguage := Language.nil_mem_kstar _

/-- A click is a press. -/
theorem click_mem : [.btnPressed, .btnReleased, .btnClicked] ∈ buttonPress.matches' := by decide

/-- A long press and its release are a press. -/
theorem release_mem : [.btnPressed, .btnLongPressed, .btnReleased] ∈ buttonPress.matches' := by
  decide

/-- A word may be followed by one more press. -/
theorem append_mem_buttonLanguage {word press : List EventType} (hword : word ∈ buttonLanguage)
    (hpress : press ∈ buttonPress.matches') : word ++ press ∈ buttonLanguage :=
  kstar_mul_le_kstar (a := buttonPress.matches') (Language.append_mem_mul hword hpress)

/-- A move keeps the events a word and what is pending. -/
theorem ButtonMove.word (hm : ButtonMove cfg state time pressed state' time' es)
    {word : List EventType} (hword : word ∈ buttonLanguage) :
    ∃ word' ∈ buttonLanguage, word ++ pending state ++ es = word' ++ pending state' := by
  cases hm with
  | click => exact ⟨_, append_mem_buttonLanguage hword click_mem, by simp [pending]⟩
  | release => exact ⟨_, append_mem_buttonLanguage hword release_mem, by simp [pending]⟩
  | idle | press | dead | hold | long | holdLong => exact ⟨word, hword, by simp [pending]⟩

/-- What is pending can be completed to a word. -/
theorem pending_begins (state : BtnState) : ∃ press ∈ buttonLanguage, pending state <+: press := by
  cases state with
  | released => exact ⟨[], nil_mem_buttonLanguage, List.prefix_refl _⟩
  | pressed => exact ⟨_, append_mem_buttonLanguage nil_mem_buttonLanguage click_mem, by decide⟩
  | longPressed => exact ⟨_, append_mem_buttonLanguage nil_mem_buttonLanguage release_mem, by decide⟩

/-- The events are a word and what is pending. -/
theorem buttonEventsBefore_eq (hpin : re.pinBtn < cfg.gpioNumMax) (hreleased : re.btnState = .released)
    (n : ℕ) : ∃ word ∈ buttonLanguage,
      buttonEventsBefore cfg re levels n = word ++ pending (beforePoll cfg re levels n).btnState := by
  induction n with
  | zero =>
    exact ⟨[], nil_mem_buttonLanguage, by simp [buttonEventsBefore, beforePoll, hreleased, pending]⟩
  | succ n ih =>
    obtain ⟨word, hword, hevents⟩ := ih
    obtain ⟨word', hword', hnext⟩ := (beforePoll_move hpin levels n).word hword
    refine ⟨word', hword', ?_⟩
    rw [buttonEventsBefore, List.range_succ, List.flatMap_append, ← hnext, ← hevents]
    simp [buttonEventsBefore]

/-- The events are the beginning of a word. -/
theorem buttonEventsBefore_begins (hpin : re.pinBtn < cfg.gpioNumMax)
    (hreleased : re.btnState = .released) (n : ℕ) :
    ∃ word ∈ buttonLanguage, buttonEventsBefore cfg re levels n <+: word := by
  obtain ⟨word, hword, hevents⟩ := buttonEventsBefore_eq hpin hreleased n
  obtain ⟨press, hpress, hprefix⟩ := pending_begins (beforePoll cfg re levels n).btnState
  refine ⟨word ++ press, ?_, ?_⟩
  · have hmul := Language.append_mem_mul hword hpress
    rw [buttonLanguage, RegularExpression.matches'_star, kstar_mul_kstar] at hmul
    exact hmul
  · rw [hevents]
    exact (List.prefix_append_right_inj word).mpr hprefix

/-! ## The times of the events -/

/-- Some polls after a press, the time of the long press comes. -/
def LongTime (cfg : Config) (m : ℕ) : Prop :=
  cfg.deadTimeUs ≤ m * cfg.intervalUs ∧ cfg.longPressTimeUs ≤ (m + 1) * cfg.intervalUs

/-- The button is held since the given number of polls. -/
structure Held (cfg : Config) (state : BtnState) (time m : ℕ) : Prop where
  time : time = m * cfg.intervalUs
  state : state = .pressed ∧ (∀ j < m, ¬ LongTime cfg j) ∨
    state = .longPressed ∧ ∃ j < m, LongTime cfg j

variable {m n : ℕ}

/-- Until the dead time is over, a poll raises nothing. -/
theorem ButtonMove.dead_time (hm : ButtonMove cfg state time pressed state' time' es)
    (hheld : Held cfg state time m) (hdead : m * cfg.intervalUs < cfg.deadTimeUs) : es = [] := by
  have hpressed : state = .pressed := by
    rcases hheld.state with ⟨hstate, -⟩ | ⟨-, j, hj, hlong⟩
    · exact hstate
    · have hle := Nat.mul_le_mul_right cfg.intervalUs hj.le
      exact absurd hlong.1 (by omega)
  rw [← hheld.time] at hdead
  cases hm with
  | dead => rfl
  | hold | long | click => omega
  | idle | press | holdLong | release => cases hpressed

/-- After the dead time, a poll that finds the button released raises the release. -/
theorem ButtonMove.released (hm : ButtonMove cfg state time pressed state' time' es)
    (hheld : Held cfg state time m) (hdead : cfg.deadTimeUs ≤ m * cfg.intervalUs)
    (hpressed : pressed = false) : .btnReleased ∈ es := by
  rw [← hheld.time] at hdead
  cases hm with
  | click | release => simp
  | dead => omega
  | hold | long | holdLong | press => cases hpressed
  | idle => rcases hheld.state with ⟨⟨⟩, -⟩ | ⟨⟨⟩, -⟩

/-- A poll that does not find the button released leaves it held, and raises the long press when its
time comes for the first time. -/
theorem ButtonMove.held (hm : ButtonMove cfg state time pressed state' time' es)
    (hheld : Held cfg state time m)
    (hpressed : cfg.deadTimeUs ≤ m * cfg.intervalUs → pressed = true) :
    Held cfg state' time' (m + 1) ∧ .btnReleased ∉ es ∧
      (.btnLongPressed ∈ es ↔ LongTime cfg m ∧ ∀ j < m, ¬ LongTime cfg j) := by
  obtain ⟨rfl, hstate⟩ := hheld
  have htime : m * cfg.intervalUs + cfg.intervalUs = (m + 1) * cfg.intervalUs :=
    (Nat.succ_mul m cfg.intervalUs).symm
  -- The polls before the next one are those before this one, and this one.
  have hnone : (∀ j < m, ¬ LongTime cfg j) → ¬ LongTime cfg m → ∀ j < m + 1, ¬ LongTime cfg j := by
    intro hbefore hnow j hj
    rcases Nat.lt_succ_iff_lt_or_eq.mp hj with hj | rfl
    · exact hbefore j hj
    · exact hnow
  cases hm with
  | idle | press => simp at hstate
  | dead hdead =>
    -- The long press waits for the end of the dead time.
    have hnow : ¬ LongTime cfg m := fun h => absurd h.1 (not_le.mpr hdead)
    rcases hstate with ⟨-, hbefore⟩ | ⟨⟨⟩, -⟩
    exact ⟨⟨htime, .inl ⟨rfl, hnone hbefore hnow⟩⟩, by simp, by simp [hnow]⟩
  | hold hdead hlong =>
    have hnow : ¬ LongTime cfg m := fun h => absurd h.2 (by omega)
    rcases hstate with ⟨-, hbefore⟩ | ⟨⟨⟩, -⟩
    exact ⟨⟨htime, .inl ⟨rfl, hnone hbefore hnow⟩⟩, by simp, by simp [hnow]⟩
  | long hdead hlong =>
    have hnow : LongTime cfg m := ⟨hdead, by omega⟩
    rcases hstate with ⟨-, hbefore⟩ | ⟨⟨⟩, -⟩
    exact ⟨⟨htime, .inr ⟨rfl, m, by omega, hnow⟩⟩, by simp, by simpa [hnow] using hbefore⟩
  | click hdead => cases hpressed hdead
  | holdLong =>
    -- The long press has been raised, and is not raised again.
    rcases hstate with ⟨⟨⟩, -⟩ | ⟨-, j, hj, hlong⟩
    refine ⟨⟨htime, .inr ⟨rfl, j, by omega, hlong⟩⟩, by simp, ?_⟩
    simp only [List.not_mem_nil, false_iff, not_and]
    exact fun _ hbefore => hbefore j hj hlong
  | release =>
    -- The dead time was over at the long press already, so the button was not found released.
    rcases hstate with ⟨⟨⟩, -⟩ | ⟨-, j, hj, hlong⟩
    have hle := Nat.mul_le_mul_right cfg.intervalUs hj.le
    cases hpressed (hlong.1.trans hle)

/-- A poll that raises the press leaves the button held. -/
theorem ButtonMove.held_of_press (hm : ButtonMove cfg state time pressed state' time' es)
    (hpress : .btnPressed ∈ es) : Held cfg state' time' 0 := by
  cases hm <;> simp at hpress
  exact ⟨by simp, .inl ⟨rfl, by simp⟩⟩

/-- As long as no poll after the dead time has found the button released, it is held. -/
theorem held_of_pressed (hpin : re.pinBtn < cfg.gpioNumMax)
    (hpress : .btnPressed ∈ buttonEventsAt cfg re levels n) (m : ℕ)
    (hpressed : ∀ j < m, cfg.deadTimeUs ≤ j * cfg.intervalUs →
      pressedAt cfg re levels (n + (j + 1)) = true) :
    Held cfg (beforePoll cfg re levels (n + (m + 1))).btnState
      (beforePoll cfg re levels (n + (m + 1))).btnPressedTimeUs m := by
  induction m with
  | zero => exact (beforePoll_move hpin levels n).held_of_press hpress
  | succ m ih =>
    have hheld := ih fun j hj => hpressed j (by omega)
    exact ((beforePoll_move hpin levels (n + (m + 1))).held hheld (hpressed m (by omega))).1

/-- Two sets of numbers have the same least element when they agree on every number before which the
second has none. -/
theorem isLeast_congr {A B : Set ℕ} (h : ∀ k, (∀ j < k, j ∉ B) → (k ∈ A ↔ k ∈ B)) (k : ℕ) :
    IsLeast A k ↔ IsLeast B k := by
  constructor
  · rintro ⟨hk, hleast⟩
    have hbefore : ∀ j < k, j ∉ B := by
      intro j
      induction j using Nat.strong_induction_on with
      | _ j ih =>
        intro hj hB
        have hA : j ∈ A := (h j fun i hi => ih i hi (hi.trans hj)).mpr hB
        exact absurd (hleast hA) (not_le.mpr hj)
    exact ⟨(h k hbefore).mp hk, fun j hj => not_lt.mp fun hlt => hbefore j hlt hj⟩
  · rintro ⟨hk, hleast⟩
    have hbefore : ∀ j < k, j ∉ B := fun j hlt hj => absurd (hleast hj) (not_le.mpr hlt)
    refine ⟨(h k hbefore).mpr hk, fun j hj => not_lt.mp fun hlt => ?_⟩
    exact hbefore j hlt ((h j fun i hi => hbefore i (hi.trans hlt)).mp hj)

/-- The times of the events of a press. -/
theorem pressTiming (hpin : re.pinBtn < cfg.gpioNumMax)
    (hpress : .btnPressed ∈ buttonEventsAt cfg re levels n) :
    PressTiming cfg (pressedAt cfg re levels) (buttonEventsAt cfg re levels) n where
  dead := by
    intro k hk hdead
    obtain ⟨m, rfl⟩ := Nat.exists_eq_add_of_le' hk
    rw [Nat.add_sub_cancel] at hdead
    refine (beforePoll_move hpin levels (n + (m + 1))).dead_time (held_of_pressed hpin hpress m ?_) hdead
    intro j hj hover
    have hle := Nat.mul_le_mul_right cfg.intervalUs hj.le
    omega
  released := by
    refine isLeast_congr fun k hbefore => ?_
    match k with
    | 0 => simp
    | m + 1 =>
      -- No poll before has found the button released after the dead time.
      have hpressed : ∀ j < m, cfg.deadTimeUs ≤ j * cfg.intervalUs →
          pressedAt cfg re levels (n + (j + 1)) = true := by
        intro j hj hover
        have hnot := hbefore (j + 1) (by omega)
        simpa [hover] using hnot
      have hheld := held_of_pressed hpin hpress m hpressed
      have hmove := beforePoll_move hpin levels (n + (m + 1))
      constructor
      · rintro ⟨hk, hmem⟩
        by_contra hnot
        have hpressed' : cfg.deadTimeUs ≤ m * cfg.intervalUs →
            pressedAt cfg re levels (n + (m + 1)) = true := by
          intro hover
          by_contra hfalse
          exact hnot ⟨hk, hover, by simpa using hfalse⟩
        exact (hmove.held hheld hpressed').2.1 hmem
      · rintro ⟨hk, hover, hfalse⟩
        exact ⟨hk, hmove.released hheld hover hfalse⟩
  long := by
    intro k hk hpressed
    obtain ⟨m, rfl⟩ := Nat.exists_eq_add_of_le' hk
    have hheld := held_of_pressed hpin hpress m fun j hj hover =>
      hpressed (j + 1) (by omega) (by omega) (by simpa using hover)
    have hmove := beforePoll_move hpin levels (n + (m + 1))
    rw [(hmove.held hheld fun hover => hpressed (m + 1) hk le_rfl (by simpa using hover)).2.2]
    constructor
    · rintro ⟨⟨hover, hlong⟩, hbefore⟩
      refine ⟨⟨hk, by simpa using hover, hlong⟩, ?_⟩
      rintro j ⟨hj, hover', hlong'⟩
      obtain ⟨i, rfl⟩ := Nat.exists_eq_add_of_le' hj
      rw [Nat.add_sub_cancel] at hover'
      by_contra hlt
      exact hbefore i (by omega) ⟨hover', hlong'⟩
    · rintro ⟨⟨-, hover, hlong⟩, hleast⟩
      refine ⟨⟨by simpa using hover, hlong⟩, fun j hj hbefore => ?_⟩
      have hle := hleast ⟨Nat.le_add_left 1 j, by simpa using hbefore.1, hbefore.2⟩
      omega

/-! ## The task -/

/-- The events that the task has received, after a step. -/
def noteReceived (received : List Raised) (s : MyEncoder) : EncInput → List Raised
  | .task =>
    match s.task, s.eventQueue with
    | some .receiving, e :: _ => received ++ [e]
    | _, _ => received
  | _ => received

/-- The encoder beside the observer that notes the events that the task receives. -/
def receiving (cfg : Config) (re : RotaryEncoder) (d₀ : Int32) :
    Machine (MyEncoder × List Raised) EncInput EncOut :=
  (encoder cfg re d₀).observe [] noteReceived

/-- The callback has been called once for each event that was received, in order and with what the
event is, but for the one in hand. -/
structure CalledOnce (received : List Raised) (os : List EncOut) (s : MyEncoder) : Prop where
  order : received = calledOf os ++ s.task.elim [] TaskPc.inHand
  reports : ∀ callback event e, .called callback event e ∈ os → Reports event e

variable {s s' : MyEncoder} {i : EncInput} {o : List EncOut}

/-- An event that was received is in hand until the callback is called with it. -/
theorem EncMove.received (hm : EncMove cfg s i s' o) (hcallback : s.eventCallback ≠ none)
    (called : List Raised) :
    noteReceived (called ++ s.task.elim [] TaskPc.inHand) s i =
      called ++ calledOf o ++ s'.task.elim [] TaskPc.inHand := by
  cases hm with
  | receive htask hqueue => simp [noteReceived, htask, hqueue, TaskPc.inHand, calledOf]
  | noCall htask hnone => exact absurd hnone hcallback
  | call htask _ | button htask _ | readAdd htask _ | add htask | compare htask | compareTo htask
  | callbackReturn htask | readStore htask | store htask =>
    simp [noteReceived, htask, TaskPc.inHand, calledOf]
  | polled => simp [noteReceived]
  | notTaken | nothingAdded | sent | given | callbackWrite | setCtlD | setCtlQ =>
    simp [noteReceived, calledOf]

/-- In every run, the callback is called once for each event that the task has received. -/
theorem calledOnce (cfg : Config) (re : RotaryEncoder) (d₀ : Int32) {inputs : List EncInput}
    {t : MyEncoder × List Raised} {os : List EncOut}
    (hrun : (receiving cfg re d₀).run (receiving cfg re d₀).init inputs = some (t, os)) :
    CalledOnce t.2 os t.1 := by
  have hinv := Machine.run_inv (fun os t => EncInv t.1 ∧ t.1.eventCallback ≠ none ∧
    CalledOnce t.2 os t.1) ?_ ?_ hrun
  · exact hinv.2.2
  · refine ⟨⟨fun _ => rfl, ?_⟩, by rintro ⟨⟩, rfl, by simp⟩
    rintro _ ⟨⟩
    trivial
  · rintro past ⟨s, received⟩ i t o ⟨henc, hcallback, horder, hreports⟩ hstep
    obtain ⟨⟨s', o'⟩, hmove, heq⟩ := Option.map_eq_some_iff.mp hstep
    cases heq
    have hm := MyEncoder.step_move hmove
    refine ⟨henc.step hm, by rw [hm.eventCallback]; exact hcallback, ?_,
      forall_called_append hreports fun _ _ _ => henc.reports hm⟩
    dsimp only at horder ⊢
    rw [horder, hm.received hcallback, calledOf_append]

/-- No two kinds of events of the button are reported alike. -/
theorem buttonEvent_injective {type₁ type₂ : EventType} {event : MyEncoderEvent}
    (h₁ : buttonEvent type₁ = some event) (h₂ : buttonEvent type₂ = some event) : type₁ = type₂ := by
  cases type₁ <;> cases h₁ <;> cases type₂ <;> cases h₂ <;> rfl

/-- A long press and a click, with a dead time of two polls and a long press of four. -/
def shortTimes : Config := { intervalUs := 1, deadTimeUs := 2, longPressTimeUs := 4 }

/-- The button is pressed from poll 1 to 6, and from 8 to 9. -/
def twoPresses (n : ℕ) : Levels :=
  buttonLevels (decide (1 ≤ n ∧ n ≤ 6 ∨ 8 ≤ n ∧ n ≤ 9))

end PartLib.Encoder
