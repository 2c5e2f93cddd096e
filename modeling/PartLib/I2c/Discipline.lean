import PartLib.I2c.Mcp4728
import PartLib.I2c.Tca9534

/-!
# The mutex and the errors of the drivers

Every function of the two drivers takes the mutex of the descriptor before it uses the bus, gives it
as often as it has taken it, stops at the first step that fails, and returns the error of this step.
`Disciplined` says so of any part of a function, with the mutex held or not before the part and after
it; the parts are put together by `Disciplined.bind`, so a function is checked statement by
statement. The functions of the drivers then keep to this in any number of tasks, on whatever answers
of the bus and the mutex (`driverPool_law`).
-/

namespace PartLib.I2c

/-- The error of a step that failed: a take that timed out, or the error of a transaction. -/
def stepError : DevStep → Option EspError
  | ⟨.take, ok⟩ => if ok then none else some .timeout
  | ⟨.give, _⟩ => none
  | ⟨.access (.read _ _), .ok _⟩ => none
  | ⟨.access (.read _ _), .error e⟩ => some e
  | ⟨.access (.write _ _), .ok _⟩ => none
  | ⟨.access (.write _ _), .error e⟩ => some e

/-- The step is a transaction on the bus. -/
def isBus : DevStep → Bool
  | ⟨.access _, _⟩ => true
  | _ => false

/-- The step took the mutex. -/
def isTaken : DevStep → Bool
  | ⟨.take, ok⟩ => ok
  | _ => false

/-- The step gave the mutex. -/
def isGiven : DevStep → Bool
  | ⟨.give, ok⟩ => ok
  | _ => false

/-- The steps of a part of a function that leaves with the error `err`: the first step that fails
gives this error, and no transaction comes after it; and the mutex is taken as often as it is given,
but for the states `h` and `h'` of it before and after. -/
structure Steps (h : Bool) (steps : List DevStep) (h' : Bool) (err : Option EspError) : Prop where
  error : steps.findSome? stepError = err
  stops : steps.Pairwise fun e x => (stepError e).isSome → isBus x = false
  balance : h.toNat + steps.countP isTaken = h'.toNat + steps.countP isGiven

/-- Steps without an error, and then others. -/
theorem Steps.append {h₀ h₁ h₂ : Bool} {xs ys : List DevStep} {err : Option EspError}
    (hx : Steps h₀ xs h₁ none) (hy : Steps h₁ ys h₂ err) : Steps h₀ (xs ++ ys) h₂ err := by
  constructor
  · rw [List.findSome?_append, hx.error, hy.error]
    rfl
  · refine List.pairwise_append.mpr ⟨hx.stops, hy.stops, fun e he x _ hsome => ?_⟩
    rw [List.findSome?_eq_none_iff.mp hx.error e he] at hsome
    cases hsome
  · have hxb := hx.balance
    have hyb := hy.balance
    rw [List.countP_append, List.countP_append]
    omega

section

variable {δ χ α β : Type} {access : δ → (r : BusReq) → χ → δ × r.Ans}
  {ok : ServedLog BusReq.Ans → δ → BusReq → χ → Prop}

/-- The part `x` of a function, with the mutex held before it as `h` says and after it as `h'` says,
when it does not leave with an error; when it does, the mutex is given. -/
def Disciplined (access : δ → (r : BusReq) → χ → δ × r.Ans) (h : Bool) (x : Dev α) (h' : Bool) :
    Prop :=
  ∀ log held, held.isSome = h →
    Dev.wp access (fun _ _ _ _ => True) x (fun log' held' res => ∃ steps, log' = log ++ steps ∧
      held'.isSome = (h' && (errorOf res).isNone) ∧
      Steps h steps (h' && (errorOf res).isNone) (errorOf res)) log held

/-- One statement, and then the others. -/
theorem Disciplined.bind {h₀ h₁ h₂ : Bool} {x : Dev α} {f : α → Dev β}
    (hx : Disciplined access h₀ x h₁) (hf : ∀ a, Disciplined access h₁ (f a) h₂) :
    Disciplined access h₀ (x >>= f) h₂ := by
  intro log held hheld
  rw [wp_devBind]
  refine Program.wp_mono (fun log₁ held₁ res => ?_) (hx log held hheld)
  rintro ⟨xs, rfl, hheld₁, hxs⟩
  cases res with
  | error e =>
    refine ⟨xs, rfl, ?_, ?_⟩
    · simpa [errorOf] using hheld₁
    · simpa [errorOf] using hxs
  | ok a =>
    simp only [errorOf, Option.isNone_none, Bool.and_true] at hheld₁ hxs
    refine Program.wp_mono (fun log₂ held₂ res => ?_) (hf a _ held₁ hheld₁)
    rintro ⟨ys, rfl, hheld₂, hys⟩
    exact ⟨xs ++ ys, List.append_assoc _ _ _, hheld₂, hxs.append hys⟩

/-- A result, with the mutex as it is. -/
theorem Disciplined.pure {h : Bool} {a : α} : Disciplined access h (Pure.pure a : Dev α) h := by
  intro log held hheld
  rw [wp_devPure]
  exact ⟨[], by simp, by simpa [errorOf] using hheld, by simp [errorOf], .nil, by simp [errorOf]⟩

/-- `I2C_DEV_TAKE_MUTEX`. -/
theorem Disciplined.take : Disciplined access false i2cDevTakeMutex true := by
  intro log held hheld
  rw [wp_takeMutex]
  refine ⟨by simpa using hheld, fun d => ⟨[⟨.take, true⟩], rfl, rfl, ?_⟩,
    ⟨[⟨.take, false⟩], rfl, rfl, ?_⟩⟩
  · exact ⟨rfl, by simp, rfl⟩
  · exact ⟨rfl, by simp, rfl⟩

/-- `I2C_DEV_GIVE_MUTEX`. -/
theorem Disciplined.give : Disciplined access true i2cDevGiveMutex false := by
  intro log held hheld
  rw [wp_giveMutex]
  exact ⟨hheld, [⟨.give, true⟩], rfl, rfl, rfl, by simp, rfl⟩

/-- `I2C_DEV_CHECK` of a read. -/
theorem Disciplined.checkRead {out_data : List UInt8} {in_size : ℕ} :
    Disciplined access true (i2cDevCheck (i2cDevRead out_data in_size)) true := by
  intro log held hheld
  obtain ⟨d, rfl⟩ := Option.isSome_iff_exists.mp hheld
  rw [wp_check, wp_read]
  refine ⟨d, rfl, fun x => ⟨trivial, ?_⟩⟩
  cases (access d (.read out_data in_size) x).2 with
  | ok a => exact ⟨_, rfl, rfl, rfl, by simp, rfl⟩
  | error e =>
    refine ⟨rfl, _, List.append_assoc _ _ _, rfl, rfl, ?_, rfl⟩
    simp [isBus]

/-- `I2C_DEV_CHECK` of a write. -/
theorem Disciplined.checkWrite {out_reg out_data : List UInt8} :
    Disciplined access true (i2cDevCheck (i2cDevWrite out_reg out_data)) true := by
  intro log held hheld
  obtain ⟨d, rfl⟩ := Option.isSome_iff_exists.mp hheld
  rw [wp_check, wp_write]
  refine ⟨d, rfl, fun x => ⟨trivial, ?_⟩⟩
  cases (access d (.write out_reg out_data) x).2 with
  | ok a => exact ⟨_, rfl, rfl, rfl, by simp, rfl⟩
  | error e =>
    refine ⟨rfl, _, List.append_assoc _ _ _, rfl, rfl, ?_, rfl⟩
    simp [isBus]

/-- A write that takes the mutex and gives it. -/
theorem Disciplined.write (out_reg out_data : List UInt8) :
    Disciplined access false (do
      i2cDevTakeMutex
      i2cDevCheck (i2cDevWrite out_reg out_data)
      i2cDevGiveMutex) false :=
  .bind .take fun _ => .bind .checkWrite fun _ => .give

theorem readReg8_disciplined (reg : UInt8) : Disciplined access false (readReg8 reg) false :=
  .bind .take fun _ => .bind .checkRead fun _ => .bind .give fun _ => .pure

theorem readData_disciplined (size : ℕ) : Disciplined access false (readData size) false :=
  .bind .take fun _ => .bind .checkRead fun _ => .bind .give fun _ => .pure

theorem setLevel_disciplined (pin : ℕ) (val : UInt8) :
    Disciplined access false (tca9534SetLevel pin val) false :=
  .bind .take fun _ => .bind .checkRead fun _ => .bind .checkWrite fun _ => .give

end

/-! ## The calls of the two drivers -/

/-- The functions of the drivers, with their arguments. -/
inductive DriverCall
  | portGetMode
  | portSetMode (mode : UInt8)
  | portGetPolarity
  | portSetPolarity (polarity : UInt8)
  | portRead
  | portWrite (val : UInt8)
  | getLevel (pin : ℕ)
  | setLevel (pin : ℕ) (val : UInt8)
  | eepromBusy
  | getPowerMode (eeprom : Bool)
  | setPowerMode (eeprom : Bool) (mode : PowerMode)
  | getRawOutput (eeprom : Bool)
  | setRawOutput (value : UInt16) (eeprom : Bool)
  | fastWrite (value : UInt16)
  | writeChannelRaw (ch : UInt8) (value : UInt16)

/-- The function called, but for the value that it stores behind a pointer. -/
def DriverCall.body : DriverCall → Dev Unit
  | .portGetMode => discard tca9534PortGetMode
  | .portSetMode mode => tca9534PortSetMode mode
  | .portGetPolarity => discard tca9534PortGetPolarity
  | .portSetPolarity polarity => tca9534PortSetPolarity polarity
  | .portRead => discard tca9534PortRead
  | .portWrite val => tca9534PortWrite val
  | .getLevel pin => discard (tca9534GetLevel pin)
  | .setLevel pin val => tca9534SetLevel pin val
  | .eepromBusy => discard mcp4728EepromBusy
  | .getPowerMode eeprom => discard (mcp4728GetPowerMode eeprom)
  | .setPowerMode eeprom mode => mcp4728SetPowerMode eeprom mode
  | .getRawOutput eeprom => discard (mcp4728GetRawOutput eeprom)
  | .setRawOutput value eeprom => mcp4728SetRawOutput value eeprom
  | .fastWrite value => mcp4728FastWrite value
  | .writeChannelRaw ch value => mcp4728WriteChannelRaw ch value

/-- The error of the check of the arguments. -/
def DriverCall.argError : DriverCall → Option EspError
  | .writeChannelRaw ch _ => if ch < 0x03 then none else some .invalidArg
  | _ => none

/-- A call that was served `log` and returned `res` has taken and given the mutex equally often, has
returned the error of the first step that failed, if there was one, starting with the check of its
arguments, and has made no transaction after it. -/
structure CallOk (c : DriverCall) (log : List DevStep) (res : Except EspError Unit) : Prop where
  error : errorOf res = (c.argError <|> log.findSome? stepError)
  stops : log.Pairwise fun e x => (stepError e).isSome → isBus x = false
  stops_arg : c.argError.isSome → ∀ x ∈ log, isBus x = false
  balance : log.countP isTaken = log.countP isGiven

/-- A transaction has any outcome. -/
def anyAnswer (d : Unit) (r : BusReq) (answers : (r : BusReq) → r.Ans) : Unit × r.Ans :=
  (d, answers r)

/-- The tasks `τ` call the functions of the drivers on one descriptor. -/
def driverPool (τ : Type) [DecidableEq τ] :
    Machine (Pool τ DriverCall Unit BusReq.Ans (Except EspError Unit))
      (PoolInput τ DriverCall ((r : BusReq) → r.Ans))
      (PoolOut τ DriverCall BusReq.Ans (Except EspError Unit)) :=
  pool τ (fun c => c.body.run) anyAnswer ()

/-- A function whose value is not kept. -/
theorem Disciplined.valueless {δ χ α : Type} {access : δ → (r : BusReq) → χ → δ × r.Ans}
    {x : Dev α} (hx : Disciplined access false x false) :
    Disciplined access false (discard x) false := by
  have hbind : discard x = x >>= fun _ => Pure.pure () := map_eq_pure_bind (fun _ => ()) x
  rw [hbind]
  exact hx.bind fun _ => .pure

/-- A call whose arguments pass the check. -/
theorem body_disciplined {δ χ : Type} {access : δ → (r : BusReq) → χ → δ × r.Ans} {c : DriverCall}
    (hc : c.argError = none) : Disciplined access false c.body false := by
  cases c with
  | portGetMode | portGetPolarity | portRead => exact (readReg8_disciplined _).valueless
  | portSetMode _ | portSetPolarity _ | portWrite _ => exact .write _ _
  | getLevel pin =>
    exact Disciplined.valueless (.bind (readReg8_disciplined _) fun _ => .pure)
  | setLevel pin val => exact setLevel_disciplined pin val
  | eepromBusy => exact Disciplined.valueless (.bind (readData_disciplined _) fun _ => .pure)
  | getPowerMode eeprom => exact Disciplined.valueless (.bind (readData_disciplined _) fun _ => .pure)
  | setPowerMode eeprom mode =>
    exact .bind (.bind (readData_disciplined _) fun _ => .pure) fun _ => .write _ _
  | getRawOutput eeprom => exact Disciplined.valueless (.bind (readData_disciplined _) fun _ => .pure)
  | setRawOutput value eeprom => exact .write _ _
  | fastWrite value => exact .write _ _
  | writeChannelRaw ch value =>
    have hch : ch < 0x03 := by
      by_contra hn
      simp [DriverCall.argError, hn] at hc
    rw [DriverCall.body, mcp4728WriteChannelRaw, if_pos hch]
    exact .write _ _

/-- Every call keeps to the protocol of the mutex, and returns as it should. -/
theorem body_keeps (c : DriverCall) :
    Keeps anyAnswer (fun _ _ _ _ _ => True) CallOk c c.body.run [] none := by
  cases harg : c.argError with
  | some e =>
    -- The only check that can fail is the one of the channel, and then nothing else is done.
    cases c with
    | writeChannelRaw ch value =>
      have hch : ¬ ch < 0x03 := by
        intro hlt
        simp [DriverCall.argError, hlt] at harg
      have hbody : (DriverCall.writeChannelRaw ch value).body = throw .invalidArg := if_neg hch
      rw [Keeps, hbody]
      refine ⟨rfl, ?_, .nil, by simp, rfl⟩
      simp [DriverCall.argError, hch, errorOf]
    | _ => cases harg
  | none =>
    refine Program.wp_mono (fun log held res => ?_) (body_disciplined harg [] none rfl)
    rintro ⟨steps, rfl, hheld, hsteps⟩
    refine ⟨by simpa using hheld, ?_, hsteps.stops, by simp [harg], ?_⟩
    · rw [harg, hsteps.error]
      rfl
    · simpa using hsteps.balance

/-- Whatever functions of the two drivers any number of tasks call on a descriptor, in any order of
their requests and with any outcome of every take and of every transaction: a task uses the bus only
while it holds the mutex, and every call returns without the mutex, having given it as often as it
has taken it, with the error of the first step that failed and no transaction after it, and with
`ESP_OK` when no step failed. -/
theorem driverPool_law {τ : Type} [DecidableEq τ]
    (inputs : List (PoolInput τ DriverCall ((r : BusReq) → r.Ans))) :
    (driverPool τ).AllSteps inputs fun _ s _ _ o =>
      (∀ t c r a, .served t c ⟨.access r, a⟩ ∈ o → s.owner = some t) ∧
        ∀ t c log res, .returned t c log res ∈ o → CallOk c log res ∧ s.owner ≠ some t := by
  intro h s i s' o ho
  have hlaw := pool_law body_keeps inputs h s i s' o ho
  exact ⟨hlaw.holder, hlaw.returned⟩

end PartLib.I2c
