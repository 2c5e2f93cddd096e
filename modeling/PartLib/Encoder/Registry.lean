import PartLib.EspErr
import PartLib.Encoder.MyEncoder
import Mathlib.Data.List.ReduceOption

/-!
# The table of encoders

`encoder.c` keeps the encoders that `timer_handler` polls in a table of `CONFIG_RE_MAX` slots, under a
mutex. `rotary_encoder_add` takes the mutex, fills a slot, and then sets the pins up with `gpio_config`;
each exit gives the mutex by hand, but for the one after a failed `gpio_config`.

As long as no `gpio_config` fails, each call gives the mutex and changes one slot when it succeeds and
none when it fails, and each poll polls every encoder (`calls_keep_table_iff`).
-/

namespace PartLib.Encoder

/-- `rotary_encoder_t`, with its index. -/
structure Descriptor where
  re : RotaryEncoder
  index : ℕ := 0

/-- `gpio_config_t`, as `rotary_encoder_add` fills it: inputs, pulled up, without an interrupt. -/
structure GpioConfig where
  pinBitMask : UInt64
  input : Bool := true
  pullUpEn : Bool := true
  interrupt : Bool := false

/-- `GPIO_BIT`. The shift of a pin from 64 on is undefined in C. -/
def gpioBit (pin : ℕ) : UInt64 :=
  if pin < 32 then ((1 : UInt32) <<< UInt32.ofNat pin).toUInt64 else (1 : UInt64) <<< UInt64.ofNat pin

/-- `encs`, whether the mutex is held, and what the descriptors are at their addresses. -/
structure Registry where
  encs : List (Option ℕ)
  mutex : Bool := false
  desc : ℕ → Descriptor

/-- The moves: a call with a descriptor or `NULL`, with whether a free mutex is taken in time, and what
`gpio_config` returns; and a call of `timer_handler`, with the levels that the pins have when it comes to
each slot. -/
inductive RegInput
  | add (re : Option ℕ) (taken : Bool) (gpio : EspErr)
  | remove (re : Option ℕ) (taken : Bool)
  | poll (levels : ℕ → Levels)

/-- What is seen: the call of `gpio_config`, the return of a call, and an encoder that is polled, with
the levels of this poll and the events that it raises. -/
inductive RegOut
  | configured (conf : GpioConfig)
  | returned (e : EspErr)
  | polled (re : ℕ) (levels : Levels) (events : List Event)

/-- The pins that `rotary_encoder_add` sets up. -/
def pinBitMask (cfg : Config) (re : RotaryEncoder) : UInt64 :=
  let mask := gpioBit re.pinA ||| gpioBit re.pinB
  if re.pinBtn < cfg.gpioNumMax then mask ||| gpioBit re.pinBtn else mask

/-- `rotary_encoder_add`. -/
def rotaryEncoderAdd (cfg : Config) (s : Registry) (re : Option ℕ) (taken : Bool) (gpio : EspErr) :
    Registry × List RegOut :=
  match re with
  | none => (s, [.returned espErrInvalidArg])
  | some re =>
    if ¬ (taken ∧ s.mutex = false) then (s, [.returned espErrInvalidState])
    else
      let s := { s with mutex := true }
      match s.encs.findIdx? (· = none) with
      | none => ({ s with mutex := false }, [.returned espErrNoMem])
      | some i =>
        let s := { s with
          encs := s.encs.set i (some re)
          desc := Function.update s.desc re { s.desc re with index := i } }
        let conf : GpioConfig := { pinBitMask := pinBitMask cfg (s.desc re).re }
        -- `CHECK` returns without giving the mutex, and the slot stays filled.
        if gpio ≠ espOk then (s, [.configured conf, .returned gpio])
        else
          let cleared := { (s.desc re).re with btnState := .released, btnPressedTimeUs := 0 }
          ({ s with
              desc := Function.update s.desc re { s.desc re with re := cleared }
              mutex := false },
            [.configured conf, .returned espOk])

/-- `rotary_encoder_remove`. -/
def rotaryEncoderRemove (s : Registry) (re : Option ℕ) (taken : Bool) : Registry × List RegOut :=
  match re with
  | none => (s, [.returned espErrInvalidArg])
  | some re =>
    if ¬ (taken ∧ s.mutex = false) then (s, [.returned espErrInvalidState])
    else
      let s := { s with mutex := true }
      match s.encs.findIdx? (· = some re) with
      | some i => ({ s with encs := s.encs.set i none, mutex := false }, [.returned espOk])
      | none => ({ s with mutex := false }, [.returned espErrNotFound])

/-- The loop of `timer_handler`, from the slot `i` on. Each `read_encoder` reads the pins anew. -/
def pollEncs (cfg : Config) (levels : ℕ → Levels) :
    ℕ → List (Option ℕ) → (ℕ → Descriptor) → (ℕ → Descriptor) × List RegOut
  | _, [], desc => (desc, [])
  | i, none :: encs, desc => pollEncs cfg levels (i + 1) encs desc
  | i, some re :: encs, desc =>
    let r := readEncoder cfg (desc re).re (levels i)
    let later := pollEncs cfg levels (i + 1) encs (Function.update desc re { desc re with re := r.1 })
    (later.1, .polled re (levels i) r.2 :: later.2)

/-- `timer_handler`. -/
def timerHandlerAll (cfg : Config) (s : Registry) (levels : ℕ → Levels) : Registry × List RegOut :=
  if s.mutex then (s, [])
  else
    let r := pollEncs cfg levels 0 s.encs s.desc
    ({ s with desc := r.1 }, r.2)

/-- The table of encoders, from `rotary_encoder_init` on. -/
def registry (cfg : Config) (reMax : ℕ) (desc : ℕ → Descriptor) :
    Machine Registry RegInput RegOut where
  init := { encs := List.replicate reMax none, desc := desc }
  step s
    | .add re taken gpio => some (rotaryEncoderAdd cfg s re taken gpio)
    | .remove re taken => some (rotaryEncoderRemove s re taken)
    | .poll levels => some (timerHandlerAll cfg s levels)

/-! ## The encoder of the repository -/

/-- The table with the one encoder that `my_encoder.c` adds. -/
def MyEncoder.table (s : MyEncoder) : Registry where
  encs := [if s.encs then some 0 else none]
  mutex := s.mutex.isSome
  desc := fun _ => ⟨s.re, 0⟩

/-- The events that an output tells. -/
def RegOut.events : RegOut → List Event
  | .polled _ _ events => events
  | _ => []

/-- For one encoder, `timer_handler` polls as it does for the table, and raises the same events. -/
theorem timerHandler_eq (cfg : Config) {s s' : MyEncoder} {levels : Levels} {o : List EncOut}
    (h : timerHandler cfg s levels = some (s', o)) :
    ((timerHandlerAll cfg s.table fun _ => levels).1.desc 0).re = s'.re ∧
      o = ((timerHandlerAll cfg s.table fun _ => levels).2.flatMap RegOut.events).map
        fun e => .raised ⟨e, s.cycle⟩ := by
  unfold timerHandler at h
  cases hmutex : s.mutex with
  | some holder =>
    have hheld : timerHandlerAll cfg s.table (fun _ => levels) = (s.table, []) := by
      simp [timerHandlerAll, MyEncoder.table, hmutex]
    rw [hheld]
    cases holder with
    | timer => simp [hmutex] at h
    | app =>
      simp only [hmutex, Option.some.injEq, Prod.mk.injEq] at h
      obtain ⟨rfl, rfl⟩ := h
      exact ⟨rfl, rfl⟩
  | none =>
    simp only [hmutex] at h
    by_cases hencs : s.encs = true
    · rw [if_pos hencs] at h
      cases h
      simp [timerHandlerAll, MyEncoder.table, hmutex, hencs, pollEncs, MyEncoder.raises, RegOut.events]
    · rw [if_neg hencs] at h
      cases h
      simp [timerHandlerAll, MyEncoder.table, hmutex, hencs, pollEncs]

/-! ## What a call and a poll are to do -/

/-- Exactly one slot is changed. -/
def OneSlot (encs encs' : List (Option ℕ)) : Prop :=
  ∃ i re, i < encs.length ∧ encs[i]? ≠ some re ∧ encs' = encs.set i re

/-- A call returns, with the mutex free; it has changed one slot when it succeeds, and none when it
fails. -/
def KeepsTable (s s' : Registry) (o : List RegOut) : Prop :=
  ∃ e, o.getLast? = some (.returned e) ∧ s'.mutex = false ∧
    (e = espOk → OneSlot s.encs s'.encs) ∧ (e ≠ espOk → s'.encs = s.encs)

/-- The encoders that are polled. -/
def polledOf (o : List RegOut) : List ℕ :=
  o.filterMap fun r => match r with
    | .polled re .. => some re
    | _ => none

/-- A call keeps the table, and a poll polls every encoder in it. -/
def RegLaw (s : Registry) (i : RegInput) (s' : Registry) (o : List RegOut) : Prop :=
  match i with
  | .add .. | .remove .. => KeepsTable s s' o
  | .poll _ => polledOf o = s.encs.reduceOption

/-- The call does not come to a `gpio_config` that fails. -/
def NoGpioFailure (s : Registry) : RegInput → Prop
  | .add (some _) taken gpio => taken = true → s.mutex = false → none ∈ s.encs → gpio = espOk
  | _ => True

/-! ## One step -/

variable {s : Registry}

/-- A call that fails before it fills a slot, or finds none, keeps the table. -/
theorem keepsTable_of_error {s' : Registry} {e : EspErr} (he : e ≠ espOk) (hmutex : s'.mutex = false)
    (hencs : s'.encs = s.encs) : KeepsTable s s' [.returned e] :=
  ⟨e, rfl, hmutex, fun h => absurd h he, fun _ => hencs⟩

/-- With a free mutex, an addition keeps the table if and only if `gpio_config` does not fail in it. -/
theorem rotaryEncoderAdd_keepsTable_iff (cfg : Config) (re : Option ℕ) (taken : Bool) (gpio : EspErr)
    (hmutex : s.mutex = false) :
    KeepsTable s (rotaryEncoderAdd cfg s re taken gpio).1 (rotaryEncoderAdd cfg s re taken gpio).2 ↔
      NoGpioFailure s (.add re taken gpio) := by
  cases re with
  | none => exact iff_of_true (keepsTable_of_error (by decide) hmutex rfl) trivial
  | some re =>
    simp only [rotaryEncoderAdd, NoGpioFailure, hmutex, and_true]
    cases taken with
    | false =>
      simp only [Bool.false_eq_true, not_false_eq_true, if_true, false_implies, iff_true]
      exact keepsTable_of_error (by decide) hmutex rfl
    | true =>
      simp only [not_true_eq_false, if_false, true_implies]
      cases hslot : s.encs.findIdx? (· = none) with
      | none =>
        have hfull : none ∉ s.encs := by
          intro hmem
          have hne := List.findIdx?_eq_none_iff.mp hslot none hmem
          simp at hne
        exact iff_of_true (keepsTable_of_error (by decide) rfl rfl) fun h => absurd h hfull
      | some i =>
        obtain ⟨hi, hfree, -⟩ := List.findIdx?_eq_some_iff_getElem.mp hslot
        have hnone : s.encs[i] = none := by simpa using hfree
        have hmem : none ∈ s.encs := hnone ▸ List.getElem_mem hi
        by_cases hgpio : gpio = espOk
        · -- The first free slot is filled, and the last statement gives the mutex.
          simp only [hgpio, ne_eq, not_true_eq_false, if_false, implies_true, iff_true]
          refine ⟨espOk, rfl, rfl, fun _ => ⟨i, some re, hi, ?_, rfl⟩, fun h => absurd rfl h⟩
          rw [List.getElem?_eq_getElem hi, hnone]
          simp
        · simp only [hgpio, ne_eq, not_false_eq_true, if_true, imp_false, not_true_eq_false, hmem,
            iff_false]
          -- The mutex is still held.
          rintro ⟨e, -, hheld, -⟩
          cases hheld

/-- With a free mutex, a removal keeps the table. -/
theorem rotaryEncoderRemove_keepsTable (re : Option ℕ) (taken : Bool) (hmutex : s.mutex = false) :
    KeepsTable s (rotaryEncoderRemove s re taken).1 (rotaryEncoderRemove s re taken).2 := by
  cases re with
  | none => exact keepsTable_of_error (by decide) hmutex rfl
  | some re =>
    simp only [rotaryEncoderRemove, hmutex, and_true]
    cases taken with
    | false =>
      simp only [Bool.false_eq_true, not_false_eq_true, if_true]
      exact keepsTable_of_error (by decide) hmutex rfl
    | true =>
      simp only [not_true_eq_false, if_false]
      cases hslot : s.encs.findIdx? (· = some re) with
      | none => exact keepsTable_of_error (by decide) rfl rfl
      | some i =>
        obtain ⟨hi, hfound, -⟩ := List.findIdx?_eq_some_iff_getElem.mp hslot
        have hsome : s.encs[i] = some re := by simpa using hfound
        refine ⟨espOk, rfl, rfl, fun _ => ⟨i, none, hi, ?_, rfl⟩, fun h => absurd rfl h⟩
        rw [List.getElem?_eq_getElem hi, hsome]
        simp

/-- The loop polls every encoder of the table, in the order of the slots. -/
theorem polledOf_pollEncs (cfg : Config) (levels : ℕ → Levels) (i : ℕ) (encs : List (Option ℕ))
    (desc : ℕ → Descriptor) : polledOf (pollEncs cfg levels i encs desc).2 = encs.reduceOption := by
  induction encs generalizing i desc with
  | nil => rfl
  | cons slot encs ih =>
    cases slot with
    | none => exact ih (i + 1) desc
    | some re =>
      rw [List.reduceOption_cons_of_some]
      exact congrArg (List.cons re) (ih (i + 1) _)

/-- With a free mutex, a poll leaves it free, and polls every encoder of the table. -/
theorem timerHandlerAll_polled (cfg : Config) (levels : ℕ → Levels) (hmutex : s.mutex = false) :
    (timerHandlerAll cfg s levels).1.mutex = false ∧
      polledOf (timerHandlerAll cfg s levels).2 = s.encs.reduceOption := by
  simp only [timerHandlerAll, hmutex, Bool.false_eq_true, if_false, true_and]
  exact polledOf_pollEncs cfg levels 0 s.encs s.desc

/-! ## Every run -/

/-- In every run of calls and polls, each call returns with the mutex free and changes one slot when
it succeeds and none when it fails, and each poll polls every encoder of the table, if and only if no
call comes to a `gpio_config` that fails. -/
theorem calls_keep_table_iff (cfg : Config) (reMax : ℕ) (desc : ℕ → Descriptor)
    (inputs : List RegInput) :
    ((registry cfg reMax desc).AllSteps inputs fun _ s i s' o => RegLaw s i s' o) ↔
      (registry cfg reMax desc).AllSteps inputs fun _ s i _ _ => NoGpioFailure s i := by
  have hiff : ∀ s i s' o, s.mutex = false → (registry cfg reMax desc).step s i = some (s', o) →
      (RegLaw s i s' o ↔ NoGpioFailure s i) := by
    intro s i s' o hmutex hstep
    cases i with
    | add re taken gpio =>
      have hkeeps := rotaryEncoderAdd_keepsTable_iff cfg re taken gpio hmutex
      rwa [Option.some.inj hstep] at hkeeps
    | remove re taken =>
      have hkeeps := rotaryEncoderRemove_keepsTable re taken hmutex
      rw [Option.some.inj hstep] at hkeeps
      exact iff_of_true hkeeps trivial
    | poll levels =>
      have hpolled := timerHandlerAll_polled cfg levels hmutex
      rw [Option.some.inj hstep] at hpolled
      exact iff_of_true hpolled.2 trivial
  refine Machine.allSteps_congr_of (fun _ s => s.mutex = false) rfl ?_ fun _ => hiff
  intro _ s i s' o hmutex hno hstep
  have hlaw := (hiff s i s' o hmutex hstep).mpr hno
  cases i with
  | add | remove =>
    obtain ⟨_, -, hfree, -⟩ := hlaw
    exact hfree
  | poll levels =>
    have hfree := (timerHandlerAll_polled cfg levels hmutex).1
    rwa [Option.some.inj hstep] at hfree

/-- Two encoders. -/
def twoEncoders (re : ℕ) : Descriptor := ⟨if re = 0 then ⟨14, 5, 13, 0, 0, 0, .released⟩ else
  ⟨34, 35, 40, 0, 0, 0, .released⟩, 0⟩

/-- An encoder is added; `gpio_config` fails for the second, whose pins cannot be pulled up; and the
timer polls. -/
def secondFails : List RegInput :=
  [.add (some 0) true espOk, .add (some 1) true espErrInvalidArg, .poll fun _ _ => true]

/-- The mutex is kept, the slot stays filled, and the first encoder is not polled any more. -/
theorem poll_stopped_by_failed_add :
    ((registry {} 2 twoEncoders).run (registry {} 2 twoEncoders).init secondFails).map
        (fun r => (r.1.encs, r.1.mutex, polledOf r.2)) = some ([some 0, some 1], true, []) ∧
    ¬ (registry {} 2 twoEncoders).AllSteps secondFails fun _ s i s' o => RegLaw s i s' o := by
  refine ⟨by decide, fun hlaw => ?_⟩
  have hrun : ∃ s past s',
      (registry {} 2 twoEncoders).run (registry {} 2 twoEncoders).init secondFails.dropLast =
        some (s, past) ∧
      (registry {} 2 twoEncoders).step s (.poll fun _ _ => true) = some (s', []) ∧
      s.encs.reduceOption = [0, 1] := ⟨_, _, _, rfl, rfl, rfl⟩
  obtain ⟨s, past, s', hrun, hstep, hencs⟩ := hrun
  have hpolled : polledOf [] = s.encs.reduceOption :=
    hlaw _ s _ s' [] ⟨List.prefix_refl _, ⟨past, hrun⟩, hstep⟩
  rw [hencs] at hpolled
  cases hpolled

end PartLib.Encoder
