import PartLib.EspErr
import PartLib.Ble.SppServer
import PartLib.Lib.Program
import Mathlib.Tactic.SplitIfs

/-!
# Bringing the server up

`console_ll_init` creates the queues, and on its first call registers the callbacks of the console and
sets the stack up with `setup_ble_spp`; the stack then reports to `gatts_event_handler` and
`gap_event_handler`, which are registered there. `gatts_event_handler` notes the interface that the
stack has given to the application, and hands an event to `gatts_profile_event_handler` when it is for
that interface or for none.

However the calls in between answer, `console_ll_init` registers the application if and only if it
comes to its end, and then only on its first call (`consoleLlInit_registers`).
-/

namespace PartLib.Ble

/-! ## The set-up -/

/-- The calls of the set-up that are answered: with an error code, or with whether an object is
created (not zero). -/
inductive SetupCall
  | rxQueueCreate
  | txQueueCreate
  | createSem
  | nvsFlashInit
  | nvsFlashErase
  | controllerMemRelease
  | controllerInit
  | controllerEnable
  | bluedroidInit
  | bluedroidEnable
  | gattsRegisterCallback
  | gapRegisterCallback
  | gattsAppRegister
  | createLinkTask
  | cmdQueueCreate
  | createCmdTask
  | createNewLineSem
  | createShellTask
  deriving DecidableEq, Repr

/-- How a set-up ends early: a check fails and stops the program, or the function returns
`SPP_ERROR_INIT`. -/
inductive SetupError
  | aborted
  | errorInit
  deriving DecidableEq, Repr

/-- A part of the set-up. -/
abbrev Setup (α : Type) := ExceptT SetupError (Program fun _ : SetupCall => ℤ) α

/-- A call of the set-up. -/
def call (c : SetupCall) : Setup ℤ := ExceptT.lift (Program.ask c)

/-- `ESP_ERROR_CHECK`. -/
def espErrorCheck (ret : ℤ) : Setup Unit := if ret = espOk then pure () else throw .aborted

/-- `if (ret)`, which returns `SPP_ERROR_INIT`. -/
def orErrorInit (ret : ℤ) : Setup Unit := if ret = espOk then pure () else throw .errorInit

/-- `MY_ASSERT_NOT` with `NULL`. -/
def assertNotNull (object : ℤ) : Setup Unit := if object = 0 then throw .aborted else pure ()

/-- `spp_task_init`. -/
def sppTaskInit : Setup Unit := do
  let _ ← call .createLinkTask
  let _ ← call .cmdQueueCreate
  let _ ← call .createCmdTask

/-- `nvs_flash_init`, and once more after an erase when the partition cannot be used as it is. -/
def initNvs : Setup ℤ := do
  let ret ← call .nvsFlashInit
  if ret = espErrNvsNoFreePages ∨ ret = espErrNvsNewVersionFound then
    espErrorCheck (← call .nvsFlashErase)
    call .nvsFlashInit
  else
    pure ret

/-- `setup_ble_spp`, which returns `__release_ble_uplink`. -/
def setupBleSpp : Setup Unit := do
  assertNotNull (← call .createSem)
  espErrorCheck (← initNvs)
  espErrorCheck (← call .controllerMemRelease)
  orErrorInit (← call .controllerInit)
  orErrorInit (← call .controllerEnable)
  orErrorInit (← call .bluedroidInit)
  orErrorInit (← call .bluedroidEnable)
  let _ ← call .gattsRegisterCallback
  let _ ← call .gapRegisterCallback
  let _ ← call .gattsAppRegister
  sppTaskInit

/-- The statics of `console_ll.c`: which of the queues exist, and `running`. -/
structure ConsoleStatics where
  rx_queue : Bool := false
  tx_queue : Bool := false
  running : Bool := false
  deriving DecidableEq

/-- A queue that is created when there is none. -/
def createQueue (queue : Bool) (c : SetupCall) : Setup Bool :=
  if queue then pure true else do return (← call c) ≠ 0

/-- `console_ll_init`. An error of `setup_ble_spp` is `NULL`, which `MY_ASSERT_NOT` stops. -/
def consoleLlInit (s : ConsoleStatics) : Setup ConsoleStatics := do
  let rx_queue ← createQueue s.rx_queue .rxQueueCreate
  let tx_queue ← createQueue s.tx_queue .txQueueCreate
  let s := { s with rx_queue := rx_queue, tx_queue := tx_queue }
  if s.running then
    pure s
  else
    setupBleSpp
    let _ ← call .createNewLineSem
    let _ ← call .createShellTask
    return { s with running := true }

/-- The answers that a set-up gets, by the call and the number of the calls before it. -/
abbrev SetupAnswers := SetupCall → ℕ → ℤ

/-- An environment that answers, and notes the calls. -/
def answerSetup (ans : SetupAnswers) (calls : List SetupCall) (c : SetupCall) : ℤ × List SetupCall :=
  (ans c calls.length, calls ++ [c])

/-- The result of a set-up, and the calls that it makes after `before`. -/
def Setup.runFrom {α : Type} (p : Setup α) (ans : SetupAnswers) (before : List SetupCall) :
    Except SetupError α × List SetupCall :=
  p.run.eval (answerSetup ans) before

/-! ## The registered handlers -/

/-- `ESP_GATT_IF_NONE`. -/
def espGattIfNone : ℕ := 0xff

/-- The parameter of an event, with what the handlers read of it. -/
inductive GattsParam
  | reg (ok : Bool)
  | read (handle : ℕ)
  | write (p : WriteParam) (offers : Offers)
  | execWrite (exec_write_flag : Bool)
  | mtu (m : Mtu)
  | connect (conn_id : ℕ)
  | disconnect
  | creatAttrTab (ok : Bool) (num_handle : ℕ) (handles : SppIdx → ℕ)
  | other

/-- The event as `gatts_profile_event_handler` gets it. -/
def GattsParam.event (gatts_if : ℕ) : GattsParam → GattsEvent
  | .reg _ => .reg gatts_if
  | .read handle => .read handle
  | .write p offers => .write p offers
  | .execWrite exec_write_flag => .execWrite exec_write_flag
  | .mtu m => .mtu m
  | .connect conn_id => .connect gatts_if conn_id
  | .disconnect => .disconnect
  | .creatAttrTab ok num_handle handles => .creatAttrTab ok num_handle handles
  | .other => .other

/-- `spp_profile_tab`, of which the handlers use the interface, and the statics of its callback. -/
structure Profile where
  gatts_if : ℕ := espGattIfNone
  spp : SppServer := .init

/-- The loop of `gatts_event_handler` over the one profile. -/
def dispatch (s : Profile) (gatts_if : ℕ) (param : GattsParam) : Option (Profile × List SppCall) :=
  if gatts_if = espGattIfNone ∨ gatts_if = s.gatts_if then
    (gattsProfileEventHandler s.spp (param.event gatts_if)).map fun r => ({ s with spp := r.1 }, r.2)
  else
    some (s, [])

/-- `gatts_event_handler`. -/
def gattsEventHandler (s : Profile) (gatts_if : ℕ) (param : GattsParam) :
    Option (Profile × List SppCall) :=
  match param with
  -- A registration that has failed is not handed on.
  | .reg false => some (s, [])
  | .reg true => dispatch { s with gatts_if := gatts_if } gatts_if param
  | _ => dispatch s gatts_if param

/-- The events of `gap_event_handler`. -/
inductive GapEvent
  | advDataRawSetComplete
  | advStartComplete (ok : Bool)
  | other

/-- `gap_event_handler`. A failed start is logged. -/
def gapEventHandler : GapEvent → List SppCall
  | .advDataRawSetComplete => [.startAdvertising]
  | .advStartComplete _ => []
  | .other => []

/-! ## What a call of `console_ll_init` does -/

section runFrom

variable {α β : Type} {ans : SetupAnswers} {before : List SetupCall}

@[simp]
theorem Setup.runFrom_pure (a : α) : Setup.runFrom (pure a) ans before = (.ok a, before) := rfl

@[simp]
theorem Setup.runFrom_call (c : SetupCall) :
    (call c).runFrom ans before = (.ok (ans c before.length), before ++ [c]) := rfl

/-- What comes after a part of the set-up goes on from its end. -/
theorem Setup.runFrom_bind_ok {p : Setup α} {a : α} {calls : List SetupCall}
    (h : p.runFrom ans before = (.ok a, calls)) (f : α → Setup β) :
    (p >>= f).runFrom ans before = (f a).runFrom ans calls :=
  Program.eval_exceptBind_ok h f

/-- After an error nothing comes. -/
theorem Setup.runFrom_bind_error {p : Setup α} {e : SetupError} {calls : List SetupCall}
    (h : p.runFrom ans before = (.error e, calls)) (f : α → Setup β) :
    (p >>= f).runFrom ans before = (.error e, calls) :=
  Program.eval_exceptBind_error h f

/-- The registrations in a list of calls. -/
def registrations (calls : List SetupCall) : ℕ := calls.count .gattsAppRegister

/-- At the end of a part of the set-up, `post` holds of its result and the application has been
registered `n` times; after an error it has not been registered. -/
def RegistersAfter (n : ℕ) (post : α → Prop) (before : List SetupCall) :
    Except SetupError α × List SetupCall → Prop
  | (.ok a, calls) => post a ∧ registrations calls = registrations before + n
  | (.error _, calls) => registrations calls = registrations before

/-- A part of the set-up that registers the application `n` times. -/
def Setup.Registers (n : ℕ) (post : α → Prop) (p : Setup α) : Prop :=
  ∀ ans before, RegistersAfter n post before (p.runFrom ans before)

/-- A part of the set-up that comes to its end. -/
def Setup.Ends (p : Setup α) : Prop := ∀ ans before, ∃ a, (p.runFrom ans before).1 = .ok a

theorem Setup.Registers.pure {post : α → Prop} {a : α} (h : post a) :
    Setup.Registers 0 post (Pure.pure a) := fun _ _ => ⟨h, rfl⟩

theorem Setup.Registers.throw {n : ℕ} {post : α → Prop} {e : SetupError} :
    Setup.Registers n post (MonadExcept.throw e) := fun _ _ => rfl

/-- A call registers the application if it is `esp_ble_gatts_app_register`. -/
theorem Setup.Registers.call (c : SetupCall) :
    Setup.Registers (if c = .gattsAppRegister then 1 else 0) (fun _ => True) (call c) := by
  intro ans before
  rw [Setup.runFrom_call]
  refine ⟨trivial, ?_⟩
  rw [registrations, registrations, List.count_append]
  cases c <;> rfl

/-- A part that does not register the application, and what comes after it. -/
theorem Setup.Registers.bind {n : ℕ} {mid : α → Prop} {post : β → Prop} {p : Setup α}
    {f : α → Setup β} (hp : p.Registers 0 mid) (hf : ∀ a, mid a → (f a).Registers n post) :
    (p >>= f).Registers n post := by
  intro ans before
  have hfirst := hp ans before
  rcases hrun : p.runFrom ans before with ⟨e | a, calls⟩
  · rw [hrun] at hfirst
    rw [Setup.runFrom_bind_error hrun]
    exact hfirst
  · rw [hrun] at hfirst
    have hlater := hf a hfirst.1 ans calls
    rw [Setup.runFrom_bind_ok hrun]
    rcases hrest : (f a).runFrom ans calls with ⟨e | b, calls'⟩
    · rw [hrest] at hlater
      exact hlater.trans hfirst.2
    · rw [hrest] at hlater
      exact ⟨hlater.1, by rw [hlater.2, hfirst.2, Nat.add_zero]⟩

/-- The part that registers the application, and what comes after it, which does not fail. -/
theorem Setup.Registers.bind_ends {n : ℕ} {mid : α → Prop} {post : β → Prop} {p : Setup α}
    {f : α → Setup β} (hp : p.Registers n mid) (hf : ∀ a, mid a → (f a).Registers 0 post)
    (hends : ∀ a, (f a).Ends) : (p >>= f).Registers n post := by
  intro ans before
  have hfirst := hp ans before
  rcases hrun : p.runFrom ans before with ⟨e | a, calls⟩
  · rw [hrun] at hfirst
    rw [Setup.runFrom_bind_error hrun]
    exact hfirst
  · rw [hrun] at hfirst
    rw [Setup.runFrom_bind_ok hrun]
    have hlater := hf a hfirst.1 ans calls
    obtain ⟨b, hb⟩ := hends a ans calls
    rcases hrest : (f a).runFrom ans calls with ⟨e | b', calls'⟩
    · rw [hrest] at hb
      cases hb
    · rw [hrest] at hlater
      exact ⟨hlater.1, hlater.2.trans hfirst.2⟩

/-- A conditional part. -/
theorem Setup.Registers.ite {n : ℕ} {post : α → Prop} {c : Prop} [Decidable c] {p q : Setup α}
    (hp : c → p.Registers n post) (hq : ¬ c → q.Registers n post) :
    (if c then p else q).Registers n post := by
  split_ifs with hc
  · exact hp hc
  · exact hq hc

theorem Setup.Ends.pure (a : α) : Setup.Ends (Pure.pure a) := fun _ _ => ⟨a, rfl⟩

theorem Setup.Ends.call (c : SetupCall) : (Ble.call c).Ends := fun ans before => ⟨ans c before.length, rfl⟩

theorem Setup.Ends.bind {p : Setup α} {f : α → Setup β} (hp : p.Ends) (hf : ∀ a, (f a).Ends) :
    (p >>= f).Ends := by
  intro ans before
  obtain ⟨a, ha⟩ := hp ans before
  have hrun : p.runFrom ans before = (.ok a, (p.runFrom ans before).2) := Prod.ext ha rfl
  rw [Setup.runFrom_bind_ok hrun]
  exact hf a _ _

/-- A conditional part. -/
theorem Setup.Ends.ite {c : Prop} [Decidable c] {p q : Setup α} (hp : p.Ends) (hq : q.Ends) :
    (if c then p else q).Ends := by
  split_ifs
  · exact hp
  · exact hq

end runFrom

/-- A check registers nothing. -/
theorem espErrorCheck_registers (ret : ℤ) : (espErrorCheck ret).Registers 0 fun _ => True :=
  .ite (fun _ => .pure trivial) fun _ => .throw

theorem orErrorInit_registers (ret : ℤ) : (orErrorInit ret).Registers 0 fun _ => True :=
  .ite (fun _ => .pure trivial) fun _ => .throw

/-- A call whose answer is checked registers nothing, but for `esp_ble_gatts_app_register`. -/
theorem checked_registers {n : ℕ} {post : α → Prop} {c : SetupCall} (hc : c ≠ .gattsAppRegister)
    {check : ℤ → Setup Unit} (hcheck : ∀ ret, (check ret).Registers 0 fun _ => True)
    {p : Setup α} (hp : p.Registers n post) :
    (do check (← call c); p).Registers n post := by
  have hcall := Setup.Registers.call c
  rw [if_neg hc] at hcall
  exact hcall.bind fun ret _ => (hcheck ret).bind fun _ _ => hp

/-- Two attempts at `nvs_flash_init` register nothing. -/
theorem initNvs_registers : initNvs.Registers 0 fun _ => True :=
  (Setup.Registers.call .nvsFlashInit).bind fun _ _ =>
    .ite (fun _ => checked_registers (by decide) espErrorCheck_registers (.call .nvsFlashInit))
      fun _ => .pure trivial

/-- `setup_ble_spp` registers the application, if it comes to its end. -/
theorem setupBleSpp_registers : setupBleSpp.Registers 1 fun _ => True := by
  have hassert : ∀ object, (assertNotNull object).Registers 0 fun _ => True := fun _ =>
    .ite (fun _ => .throw) fun _ => .pure trivial
  have htail : (do
      let _ ← call .gattsRegisterCallback
      let _ ← call .gapRegisterCallback
      let _ ← call .gattsAppRegister
      sppTaskInit).Registers 1 fun _ => True := by
    refine (Setup.Registers.call .gattsRegisterCallback).bind fun _ _ => ?_
    refine (Setup.Registers.call .gapRegisterCallback).bind fun _ _ => ?_
    refine (Setup.Registers.call .gattsAppRegister).bind_ends (fun _ _ => ?_) fun _ => ?_
    · refine (Setup.Registers.call .createLinkTask).bind fun _ _ => ?_
      exact (Setup.Registers.call .cmdQueueCreate).bind fun _ _ =>
        (Setup.Registers.call .createCmdTask).bind fun _ _ => .pure trivial
    · exact (Setup.Ends.call _).bind fun _ => (Setup.Ends.call _).bind fun _ =>
        (Setup.Ends.call _).bind fun _ => .pure ()
  refine checked_registers (by decide) hassert ?_
  refine initNvs_registers.bind fun ret _ => (espErrorCheck_registers ret).bind fun _ _ => ?_
  refine checked_registers (by decide) espErrorCheck_registers ?_
  refine checked_registers (by decide) orErrorInit_registers ?_
  refine checked_registers (by decide) orErrorInit_registers ?_
  refine checked_registers (by decide) orErrorInit_registers ?_
  exact checked_registers (by decide) orErrorInit_registers htail

/-- A call of `console_ll_init` that comes to its end leaves the console running; it has registered the
application once when the console was not running, and not again when it was. A call that is stopped
has not registered it. -/
theorem consoleLlInit_registers (s : ConsoleStatics) :
    (consoleLlInit s).Registers (if s.running then 0 else 1) fun s' => s'.running = true := by
  have hqueue : ∀ queue c, c ≠ SetupCall.gattsAppRegister →
      (createQueue queue c).Registers 0 fun _ => True := by
    intro queue c hc
    have hcall := Setup.Registers.call c
    rw [if_neg hc] at hcall
    exact .ite (fun _ => .pure trivial) fun _ => hcall.bind fun _ _ => .pure trivial
  refine (hqueue s.rx_queue _ (by decide)).bind fun rx_queue _ => ?_
  refine (hqueue s.tx_queue _ (by decide)).bind fun tx_queue _ => ?_
  cases hrunning : s.running with
  | true => exact .pure rfl
  | false =>
    refine setupBleSpp_registers.bind_ends (fun _ _ => ?_) fun _ => ?_
    · exact (Setup.Registers.call .createNewLineSem).bind fun _ _ =>
        (Setup.Registers.call .createShellTask).bind fun _ _ => .pure rfl
    · exact (Setup.Ends.call _).bind fun _ => (Setup.Ends.call _).bind fun _ => .pure _

/-- On a running console a call comes to its end. -/
theorem consoleLlInit_ends {s : ConsoleStatics} (hrunning : s.running = true) :
    (consoleLlInit s).Ends := by
  have hqueue : ∀ queue c, (createQueue queue c).Ends := fun _ c =>
    .ite (.pure true) ((Setup.Ends.call c).bind fun _ => .pure _)
  refine (hqueue _ _).bind fun rx_queue => (hqueue _ _).bind fun tx_queue => ?_
  simp only [hrunning, if_true]
  exact .pure _

end PartLib.Ble
