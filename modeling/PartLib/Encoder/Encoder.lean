import Mathlib.Data.List.Basic

/-!
# One poll of a rotary encoder

`read_encoder` of `encoder.c`, as a function of the descriptor and of the levels of the pins, with
the events that it raises in the order in which it sends them. Its two halves, for the button and for
the position, share nothing but the event that is sent.
-/

namespace PartLib.Encoder

/-- The options of the component, and `GPIO_NUM_MAX`. -/
structure Config where
  intervalUs : ℕ := 1000
  deadTimeUs : ℕ := 10000
  longPressTimeUs : ℕ := 500000
  pressedLevel : Bool := false
  gpioNumMax : ℕ := 40

/-- `rotary_encoder_btn_state_t`. -/
inductive BtnState
  | released
  | pressed
  | longPressed
  deriving DecidableEq, Repr

/-- `rotary_encoder_event_type_t`. -/
inductive EventType
  | changed
  | btnReleased
  | btnPressed
  | btnLongPressed
  | btnClicked
  deriving DecidableEq, Repr

/-- `rotary_encoder_event_t`, but for the sender, which is always the one descriptor that the
repository adds. -/
structure Event where
  type : EventType
  diff : Int32 := 0
  deriving DecidableEq

/-- `rotary_encoder_t`, but for the index. The time of a press is a `uint64_t` there: at one interval a
poll it does not come to its end while a button is held. -/
structure RotaryEncoder where
  pinA : ℕ
  pinB : ℕ
  pinBtn : ℕ
  code : UInt8 := 0
  store : UInt16 := 0
  btnPressedTimeUs : ℕ := 0
  btnState : BtnState := .released
  deriving DecidableEq

/-- The levels that `gpio_get_level` returns during a poll. -/
abbrev Levels := ℕ → Bool

/-- `valid_states`. -/
def validStates : List ℕ := [0, 1, 1, 0, 1, 0, 0, 1, 1, 0, 0, 1, 0, 1, 1, 0]

/-- The button in `read_encoder`. -/
def readButton (cfg : Config) (re : RotaryEncoder) (level : Bool) : RotaryEncoder × List Event :=
  if re.btnState = .pressed ∧ re.btnPressedTimeUs < cfg.deadTimeUs then
    ({ re with btnPressedTimeUs := re.btnPressedTimeUs + cfg.intervalUs }, [])
  else if level = cfg.pressedLevel then
    if re.btnState = .released then
      ({ re with btnState := .pressed, btnPressedTimeUs := 0 }, [⟨.btnPressed, 0⟩])
    else if re.btnState = .pressed ∧
        re.btnPressedTimeUs + cfg.intervalUs ≥ cfg.longPressTimeUs then
      ({ re with
          btnState := .longPressed, btnPressedTimeUs := re.btnPressedTimeUs + cfg.intervalUs },
        [⟨.btnLongPressed, 0⟩])
    else
      ({ re with btnPressedTimeUs := re.btnPressedTimeUs + cfg.intervalUs }, [])
  else if re.btnState ≠ .released then
    ({ re with btnState := .released },
      if re.btnState = .pressed then [⟨.btnReleased, 0⟩, ⟨.btnClicked, 0⟩] else [⟨.btnReleased, 0⟩])
  else
    (re, [])

/-- The code after the levels of the two pins: the last two levels of each. -/
def nextCode (code : UInt8) (a b : Bool) : UInt8 :=
  ((code <<< 2) ||| a.toUInt8 ||| (b.toUInt8 <<< 1)) &&& 0xf

/-- The position in `read_encoder`. -/
def readPosition (re : RotaryEncoder) (a b : Bool) : RotaryEncoder × List Event :=
  let code := nextCode re.code a b
  if validStates.getD code.toNat 0 = 0 then
    ({ re with code := code }, [])
  else
    let store := (re.store <<< 4) ||| code.toUInt16
    ({ re with code := code, store := store },
      if store = 0xe817 then [⟨.changed, 1⟩] else if store = 0xd42b then [⟨.changed, -1⟩] else [])

/-- `read_encoder`. -/
def readEncoder (cfg : Config) (re : RotaryEncoder) (levels : Levels) :
    RotaryEncoder × List Event :=
  let btn := if re.pinBtn < cfg.gpioNumMax then readButton cfg re (levels re.pinBtn) else (re, [])
  let pos := readPosition btn.1 (levels re.pinA) (levels re.pinB)
  (pos.1, btn.2 ++ pos.2)

end PartLib.Encoder
