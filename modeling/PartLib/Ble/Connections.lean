import PartLib.Ble.Bringup
import Mathlib.Data.Fintype.EquivFin

/-!
# The stack, and one connection at a time

The Bluetooth stack is a parameter, `BtApi`, and what the server relies on is what its documentation
says, `BtApi.Documented`: it answers a registration, a change of the advertising data, a start of
advertising and a new attribute table with an event each; a client connects only while the stack
advertises, which ends with that; and the events of the application come with the interface that it has
been given. It may hold several connections.

The server asks for advertising when its data is set and at each disconnect. So what a client needs for
a connection is passed on like a token: the registration that is not answered yet, then the data that
is not set, a start that is not answered, the advertising, and the connection. There is one token from
the call of `console_ll_init` that comes to its end; a registration or a start that fails loses it.
-/

namespace PartLib.Ble

/-! ## The stack -/

/-- The events of the stack. -/
inductive StackEvent
  | reg (ok : Bool) (gatts_if : ℕ)
  | advDataSet
  | advStarted (ok : Bool)
  | attrTab (ok : Bool) (num_handle : ℕ) (handles : SppIdx → ℕ)
  | connect (conn_id : ℕ)
  | disconnect (conn_id : ℕ)
  | read (handle : ℕ)
  | write (p : WriteParam) (offers : Offers)
  | execWrite (exec_write_flag : Bool)
  | mtu (m : Mtu)
  | other

/-- The stack is known by its functions. -/
structure BtApi (β : Type) where
  /-- `esp_ble_gatts_app_register`. -/
  register : β → β
  /-- A call of the handlers. -/
  call : β → SppCall → β
  /-- The stack once it reports an event, if it can. -/
  report : β → StackEvent → Option β
  /-- The interface that the events of the application come with. -/
  appIf : β → ℕ

/-- What there is to know of a stack: what it has not answered yet, whether it advertises, the interface
of the application, and the connections. -/
structure BtStack where
  regs : ℕ := 0
  advData : ℕ := 0
  starts : ℕ := 0
  advertising : Bool := false
  appIf : ℕ := espGattIfNone
  conns : List ℕ := []

/-- What a call asks for is to be answered. -/
def BtStack.call (b : BtStack) : SppCall → BtStack
  | .configAdvDataRaw => { b with advData := b.advData + 1 }
  | .startAdvertising => { b with starts := b.starts + 1 }
  | .setDeviceName | .createAttrTab _ _ | .startService _ | .writeCb _ => b

/-- The events that are neither answers to what advertising needs nor changes of a connection. -/
def StackEvent.isOther : StackEvent → Bool
  | .attrTab .. | .read _ | .write .. | .execWrite _ | .mtu _ | .other => true
  | .reg .. | .advDataSet | .advStarted _ | .connect _ | .disconnect _ => false

/-- What the documentation says of the stack, of which `view` tells what there is to know; at first
nothing has been asked of it. -/
structure BtApi.Documented {β : Type} (api : BtApi β) (view : β → BtStack) (b₀ : β) : Prop where
  init : view b₀ = {}
  appIf : ∀ b, api.appIf b = (view b).appIf
  /-- A registration and the calls are answered later. -/
  register : ∀ b, view (api.register b) = { view b with regs := (view b).regs + 1 }
  call : ∀ b c, view (api.call b c) = (view b).call c
  /-- A registration is answered once; when it has succeeded, the application has its interface. -/
  reg : ∀ {b ok gatts_if b'}, api.report b (.reg ok gatts_if) = some b' → (view b).regs ≠ 0 ∧
    view b' = { view b with
      regs := (view b).regs - 1, appIf := if ok then gatts_if else (view b).appIf }
  /-- So is a change of the advertising data. -/
  advDataSet : ∀ {b b'}, api.report b .advDataSet = some b' → (view b).advData ≠ 0 ∧
    view b' = { view b with advData := (view b).advData - 1 }
  /-- So is a start of advertising, and the stack advertises when it has succeeded. -/
  advStarted : ∀ {b ok b'}, api.report b (.advStarted ok) = some b' → (view b).starts ≠ 0 ∧
    view b' = { view b with
      starts := (view b).starts - 1, advertising := (view b).advertising || ok }
  /-- A client connects only while the stack advertises, which ends with that. -/
  connect : ∀ {b conn_id b'}, api.report b (.connect conn_id) = some b' →
    (view b).advertising = true ∧
      view b' = { view b with advertising := false, conns := conn_id :: (view b).conns }
  /-- Only a connection ends. -/
  disconnect : ∀ {b conn_id b'}, api.report b (.disconnect conn_id) = some b' →
    conn_id ∈ (view b).conns ∧ view b' = { view b with conns := (view b).conns.erase conn_id }
  others : ∀ {b e b'}, api.report b e = some b' → e.isOther = true → view b' = view b

/-- What is asked of the stack can succeed: it may answer so, and while it advertises a client may
connect. -/
structure BtApi.Serves {β : Type} (api : BtApi β) (view : β → BtStack) : Prop where
  reg : ∀ b, (view b).regs ≠ 0 → ∃ gatts_if b', api.report b (.reg true gatts_if) = some b'
  advDataSet : ∀ b, (view b).advData ≠ 0 → ∃ b', api.report b .advDataSet = some b'
  advStarted : ∀ b, (view b).starts ≠ 0 → ∃ b', api.report b (.advStarted true) = some b'
  connect : ∀ b, (view b).advertising = true → ∃ conn_id b', api.report b (.connect conn_id) = some b'

/-! ## The system -/

/-- The event for the handler of the application, if it is not one of advertising. -/
def StackEvent.param : StackEvent → Option GattsParam
  | .reg ok _ => some (.reg ok)
  | .advDataSet | .advStarted _ => none
  | .attrTab ok num_handle handles => some (.creatAttrTab ok num_handle handles)
  | .connect conn_id => some (.connect conn_id)
  | .disconnect _ => some .disconnect
  | .read handle => some (.read handle)
  | .write p offers => some (.write p offers)
  | .execWrite exec_write_flag => some (.execWrite exec_write_flag)
  | .mtu m => some (.mtu m)
  | .other => some .other

/-- The event for `gap_event_handler`. -/
def StackEvent.gap : StackEvent → GapEvent
  | .advDataSet => .advDataRawSetComplete
  | .advStarted ok => .advStartComplete ok
  | _ => .other

/-- The interface that comes with an event. -/
def StackEvent.gattsIf (appIf : ℕ) : StackEvent → ℕ
  | .reg _ gatts_if => gatts_if
  | _ => appIf

/-- The console, the profile and the stack. -/
structure Device (β : Type) where
  console : ConsoleStatics := {}
  profile : Profile := {}
  stack : β
  stopped : Bool := false

/-- The moves: a call of `console_ll_init`, and an event of the stack. -/
inductive DeviceInput
  | init (ans : SetupAnswers)
  | event (e : StackEvent)

/-- A registered handler gets an event. -/
def Profile.handle (s : Profile) (appIf : ℕ) (e : StackEvent) : Option (Profile × List SppCall) :=
  match e.param with
  | some param => gattsEventHandler s (e.gattsIf appIf) param
  | none => some (s, gapEventHandler e.gap)

/-- The device, from its start on, until a check stops the program. -/
def device {β : Type} (api : BtApi β) (b₀ : β) : Machine (Device β) DeviceInput SppCall where
  init := { stack := b₀ }
  step s i :=
    if s.stopped then none
    else
      match i with
      | .init ans =>
        let r := (consoleLlInit s.console).runFrom ans []
        match r.1 with
        | .error _ => some ({ s with stopped := true }, [])
        | .ok console =>
          let stack := api.register^[registrations r.2] s.stack
          some ({ s with console := console, stack := stack }, [])
      | .event e =>
        (api.report s.stack e).bind fun b =>
          (s.profile.handle (api.appIf b) e).map fun r =>
            ({ s with profile := r.1, stack := r.2.foldl api.call b }, r.2)

/-! ## The token -/

/-- What is under way to a connection, or is one. -/
def BtStack.tokens (b : BtStack) : ℕ :=
  b.regs + b.advData + b.starts + b.advertising.toNat + b.conns.length

/-- An event that reports a failure: a registration or a start of advertising. -/
def DeviceInput.fails : DeviceInput → Bool
  | .event (.reg ok _) => !ok
  | .event (.advStarted ok) => !ok
  | _ => false

/-- The failures so far. -/
def failures (h : List DeviceInput) : ℕ := h.countP DeviceInput.fails

section

variable {β : Type} {api : BtApi β} {view : β → BtStack} {b₀ : β}

variable (view) in
/-- Between two steps: the server knows the interface; its flag and its identifier are those of the
connection; there is one token since the console is running, but for failures; and a program that has
been stopped never came so far. -/
structure DeviceInv (h : List DeviceInput) (s : Device β) : Prop where
  gatts_if : s.profile.gatts_if = (view s.stack).appIf
  connected : s.profile.spp.is_connected = decide ((view s.stack).conns ≠ [])
  conn_id : ∀ c ∈ (view s.stack).conns,
    s.profile.spp.spp_conn_id = c ∧ s.profile.spp.spp_gatts_if = (view s.stack).appIf
  tokens : (view s.stack).tokens + failures h = s.console.running.toNat
  stopped : s.stopped = true → s.console.running = false

/-! ## One step -/

variable {h : List DeviceInput} {s s' : Device β} {i : DeviceInput} {o : List SppCall}

/-- Registrations add up. -/
theorem BtApi.Documented.view_register (hapi : api.Documented view b₀) (n : ℕ) (b : β) :
    view (api.register^[n] b) = { view b with regs := (view b).regs + n } := by
  induction n with
  | zero => rfl
  | succ n ih =>
    rw [Function.iterate_succ_apply', hapi.register, ih]
    simp only [Nat.add_assoc]

/-- So do calls. -/
theorem BtApi.Documented.view_calls (hapi : api.Documented view b₀) (calls : List SppCall) (b : β) :
    view (calls.foldl api.call b) = calls.foldl BtStack.call (view b) := by
  induction calls generalizing b with
  | nil => rfl
  | cons c calls ih => rw [List.foldl_cons, List.foldl_cons, ih, hapi.call]

/-- The calls ask for nothing that a client needs for a connection. -/
def Quiet (calls : List SppCall) : Prop := ∀ c ∈ calls, ∀ b : BtStack, b.call c = b

theorem Quiet.foldl {calls : List SppCall} (hc : Quiet calls) (b : BtStack) :
    calls.foldl BtStack.call b = b := by
  induction calls with
  | nil => rfl
  | cons c calls ih =>
    rw [List.foldl_cons, hc c List.mem_cons_self]
    exact ih fun c' hc' => hc c' (List.mem_cons_of_mem c hc')

/-- What an event that is neither a connect nor a disconnect does to the link: nothing. -/
structure KeepsConnection (s s' : SppServer) : Prop where
  is_connected : s'.is_connected = s.is_connected
  conn_id : s'.spp_conn_id = s.spp_conn_id
  gatts_if : s'.spp_gatts_if = s.spp_gatts_if

/-- A write keeps the connection, and calls at most the write callback. -/
theorem writeEvt_quiet {s s' : SppServer} {p : WriteParam} {offers : Offers} {calls : List SppCall}
    (h : writeEvt s p offers = some (s', calls)) : KeepsConnection s s' ∧ Quiet calls := by
  constructor
  · rcases writeEvt_cases h with ⟨-, rfl⟩ | ⟨-, _, _, _, rfl⟩
    · obtain ⟨ntf, he⟩ := notifyCfgWrite_cases s p.value
      rw [he]
      exact ⟨rfl, rfl, rfl⟩
    · exact ⟨rfl, rfl, rfl⟩
  · unfold writeEvt at h
    simp only at h
    split_ifs at h
    · obtain ⟨_, -, he⟩ := Option.map_eq_some_iff.mp h
      cases he
      exact fun _ hc => absurd hc List.not_mem_nil
    · cases h
      exact fun _ hc => absurd hc List.not_mem_nil
    · cases h
      intro c hc b
      rw [List.mem_singleton.mp hc]
      rfl
    · cases h
      exact fun _ hc => absurd hc List.not_mem_nil
    · cases h
      exact fun _ hc => absurd hc List.not_mem_nil
    · obtain ⟨_, -, he⟩ := Option.map_eq_some_iff.mp h
      cases he
      exact fun _ hc => absurd hc List.not_mem_nil
    · cases h
      exact fun _ hc => absurd hc List.not_mem_nil

/-- An execute write keeps the connection, and calls only the write callback. -/
theorem execWriteEvt_quiet {s s' : SppServer} {flag : Bool} {calls : List SppCall}
    (h : execWriteEvt s flag = some (s', calls)) : KeepsConnection s s' ∧ Quiet calls := by
  constructor
  · obtain ⟨_, rfl⟩ := execWriteEvt_cases h
    exact ⟨rfl, rfl, rfl⟩
  · unfold execWriteEvt at h
    split_ifs at h
    · obtain ⟨r, -, h⟩ := Option.bind_eq_some_iff.mp h
      obtain ⟨_, -, he⟩ := Option.map_eq_some_iff.mp h
      cases he
      intro c hc b
      obtain ⟨src, -, rfl⟩ := List.mem_map.mp hc
      rfl
    · cases h
      exact fun _ hc => absurd hc List.not_mem_nil

variable (view) in
/-- What a step can do, while the server knows the interface. -/
inductive DeviceMove (s : Device β) : DeviceInput → Device β → List SppCall → Prop
  | stopped {ans : SetupAnswers} (hidle : s.console.running = false) :
      DeviceMove s (.init ans) { s with stopped := true } []
  | init {ans : SetupAnswers} {console : ConsoleStatics} {b : β} (hrunning : console.running = true)
      (hb : view b = { view s.stack with
        regs := (view s.stack).regs + if s.console.running then 0 else 1 }) :
      DeviceMove s (.init ans) { s with console := console, stack := b } []
  | registered {gatts_if : ℕ} {b : β} (hregs : (view s.stack).regs ≠ 0)
      (hb : view b = { view s.stack with
        regs := (view s.stack).regs - 1
        appIf := gatts_if
        advData := (view s.stack).advData + 1 }) :
      DeviceMove s (.event (.reg true gatts_if))
        { s with profile := { s.profile with gatts_if := gatts_if }, stack := b }
        [.setDeviceName, .configAdvDataRaw, .createAttrTab gatts_if sppIdxNb]
  | notRegistered {gatts_if : ℕ} {b : β} (hregs : (view s.stack).regs ≠ 0)
      (hb : view b = { view s.stack with regs := (view s.stack).regs - 1 }) :
      DeviceMove s (.event (.reg false gatts_if)) { s with stack := b } []
  | advDataSet {b : β} (hdata : (view s.stack).advData ≠ 0)
      (hb : view b = { view s.stack with
        advData := (view s.stack).advData - 1, starts := (view s.stack).starts + 1 }) :
      DeviceMove s (.event .advDataSet) { s with stack := b } [.startAdvertising]
  | advStarted {ok : Bool} {b : β} (hstarts : (view s.stack).starts ≠ 0)
      (hb : view b = { view s.stack with
        starts := (view s.stack).starts - 1, advertising := (view s.stack).advertising || ok }) :
      DeviceMove s (.event (.advStarted ok)) { s with stack := b } []
  | connect {conn_id : ℕ} {b : β} (hadv : (view s.stack).advertising = true)
      (hb : view b = { view s.stack with
        advertising := false, conns := conn_id :: (view s.stack).conns }) :
      DeviceMove s (.event (.connect conn_id))
        { s with
          profile := { s.profile with spp := { s.profile.spp with
            spp_conn_id := conn_id, spp_gatts_if := (view s.stack).appIf, is_connected := true } }
          stack := b } []
  | disconnect {conn_id : ℕ} {b : β} (hconn : conn_id ∈ (view s.stack).conns)
      (hb : view b = { view s.stack with
        conns := (view s.stack).conns.erase conn_id, starts := (view s.stack).starts + 1 }) :
      DeviceMove s (.event (.disconnect conn_id))
        { s with
          profile := { s.profile with spp := { s.profile.spp with
            is_connected := false, enable_data_ntf := false } }
          stack := b } [.startAdvertising]
  | quiet {e : StackEvent} {spp : SppServer} {b : β} {o : List SppCall}
      (hs : KeepsConnection s.profile.spp spp) (ho : Quiet o)
      (he : (DeviceInput.event e).fails = false) (hb : view b = view s.stack) :
      DeviceMove s (.event e) { s with profile := { s.profile with spp := spp }, stack := b } o

/-- The handler of the profile gets an event of an interface that the server knows. -/
theorem dispatch_known {s : Profile} {gatts_if : ℕ} (h : s.gatts_if = gatts_if) (param : GattsParam) :
    dispatch s gatts_if param =
      (gattsProfileEventHandler s.spp (param.event gatts_if)).map fun r =>
        ({ s with spp := r.1 }, r.2) := by
  rw [dispatch, if_pos (.inr h.symm)]

/-- An event that is about something else keeps the connection, and asks for nothing that a client needs
for one. -/
theorem handle_other {s : Profile} {e : StackEvent} {r : Profile × List SppCall}
    (he : e.isOther = true) (hr : s.handle s.gatts_if e = some r) :
    ∃ spp, r.1 = { s with spp := spp } ∧ KeepsConnection s.spp spp ∧ Quiet r.2 := by
  have hnone : Quiet [] := fun _ hc => absurd hc List.not_mem_nil
  cases e with
  | reg | advDataSet | advStarted | connect | disconnect => cases he
  | attrTab ok num_handle handles =>
    simp only [Profile.handle, StackEvent.param, StackEvent.gattsIf, gattsEventHandler, dispatch_known,
      GattsParam.event, gattsProfileEventHandler] at hr
    split_ifs at hr
    · cases hr
      exact ⟨s.spp, rfl, ⟨rfl, rfl, rfl⟩, hnone⟩
    · cases hr
      exact ⟨s.spp, rfl, ⟨rfl, rfl, rfl⟩, hnone⟩
    · cases hr
      refine ⟨_, rfl, ⟨rfl, rfl, rfl⟩, fun c hc b => ?_⟩
      rw [List.mem_singleton.mp hc]
      rfl
  | write p offers =>
    simp only [Profile.handle, StackEvent.param, StackEvent.gattsIf, gattsEventHandler,
      dispatch_known] at hr
    obtain ⟨⟨spp, calls⟩, hwrite, rfl⟩ := Option.map_eq_some_iff.mp hr
    exact ⟨spp, rfl, writeEvt_quiet hwrite⟩
  | execWrite flag =>
    simp only [Profile.handle, StackEvent.param, StackEvent.gattsIf, gattsEventHandler,
      dispatch_known] at hr
    obtain ⟨⟨spp, calls⟩, hwrite, rfl⟩ := Option.map_eq_some_iff.mp hr
    exact ⟨spp, rfl, execWriteEvt_quiet hwrite⟩
  | read | mtu | other =>
    simp only [Profile.handle, StackEvent.param, StackEvent.gattsIf, gattsEventHandler,
      dispatch_known] at hr
    cases hr
    exact ⟨_, rfl, ⟨rfl, rfl, rfl⟩, hnone⟩

/-- Every step is one of the moves. -/
theorem device_step (hapi : api.Documented view b₀) (hif : s.profile.gatts_if = (view s.stack).appIf)
    (hstep : (device api b₀).step s i = some (s', o)) :
    s.stopped = false ∧ DeviceMove view s i s' o := by
  by_cases hstopped : s.stopped
  · simp [device, hstopped] at hstep
  · refine ⟨Bool.of_not_eq_true hstopped, ?_⟩
    simp only [device, if_neg hstopped] at hstep
    cases i with
    | init ans =>
      have hregisters := consoleLlInit_registers s.console ans []
      dsimp only at hstep
      rcases hrun : (consoleLlInit s.console).runFrom ans [] with ⟨e | console, calls⟩
      · rw [hrun] at hstep
        cases hstep
        refine .stopped ?_
        by_contra hrunning
        obtain ⟨a, ha⟩ := consoleLlInit_ends (Bool.of_not_eq_false hrunning) ans []
        rw [hrun] at ha
        cases ha
      · rw [hrun] at hstep hregisters
        cases hstep
        refine .init hregisters.1 ?_
        rw [hapi.view_register, hregisters.2]
        simp [registrations]
    | event e =>
      obtain ⟨b, hreport, hhandle⟩ := Option.bind_eq_some_iff.mp hstep
      rw [hapi.appIf] at hhandle
      cases e with
      | reg ok gatts_if =>
        obtain ⟨hregs, hb⟩ := hapi.reg hreport
        cases ok with
        | false =>
          cases hhandle
          exact .notRegistered hregs hb
        | true =>
          simp only [Profile.handle, StackEvent.param, StackEvent.gattsIf, gattsEventHandler,
            dispatch_known] at hhandle
          cases hhandle
          refine .registered hregs ?_
          rw [hapi.view_calls, hb]
          rfl
      | advDataSet =>
        obtain ⟨hdata, hb⟩ := hapi.advDataSet hreport
        cases hhandle
        refine .advDataSet hdata ?_
        rw [hapi.view_calls, hb]
        rfl
      | advStarted ok =>
        obtain ⟨hstarts, hb⟩ := hapi.advStarted hreport
        cases hhandle
        exact .advStarted hstarts hb
      | connect conn_id =>
        obtain ⟨hadv, hb⟩ := hapi.connect hreport
        replace hif : s.profile.gatts_if = (view b).appIf := by rw [hif, hb]
        simp only [Profile.handle, StackEvent.param, StackEvent.gattsIf, gattsEventHandler,
          dispatch_known hif] at hhandle
        cases hhandle
        simp only [hb]
        exact .connect hadv hb
      | disconnect conn_id =>
        obtain ⟨hconn, hb⟩ := hapi.disconnect hreport
        replace hif : s.profile.gatts_if = (view b).appIf := by rw [hif, hb]
        simp only [Profile.handle, StackEvent.param, StackEvent.gattsIf, gattsEventHandler,
          dispatch_known hif] at hhandle
        cases hhandle
        refine .disconnect hconn ?_
        rw [hapi.view_calls, hb]
        rfl
      | attrTab | read | write | execWrite | mtu | other =>
        have hb := hapi.others hreport rfl
        rw [hb, ← hif] at hhandle
        obtain ⟨r, hr, heq⟩ := Option.map_eq_some_iff.mp hhandle
        obtain ⟨spp, hprofile, hs, hcalls⟩ := handle_other rfl hr
        cases heq
        rw [hprofile]
        refine .quiet hs hcalls rfl ?_
        rw [hapi.view_calls, hcalls.foldl, hb]

/-! ## Every run -/

theorem failures_snoc (h : List DeviceInput) (i : DeviceInput) :
    failures (h ++ [i]) = failures h + i.fails.toNat := by
  rw [failures, failures, List.countP_append, List.countP_singleton]
  cases i.fails <;> rfl

/-- There is at most one token. -/
theorem DeviceInv.tokens_le (hs : DeviceInv view h s) : (view s.stack).tokens ≤ 1 := by
  have htokens := hs.tokens
  have hrunning := Bool.toNat_le s.console.running
  omega

/-- Without a connection the server is not connected, and knows of none. -/
theorem DeviceInv.of_nil {h' : List DeviceInput}
    (hif : s'.profile.gatts_if = (view s'.stack).appIf) (hconns : (view s'.stack).conns = [])
    (hconnected : s'.profile.spp.is_connected = false)
    (htokens : (view s'.stack).tokens + failures h' = s'.console.running.toNat)
    (hstopped : s'.stopped = false) : DeviceInv view h' s' where
  gatts_if := hif
  connected := by simp [hconnected, hconns]
  conn_id := by simp [hconns]
  tokens := htokens
  stopped := fun hs => absurd hs (by simp [hstopped])

/-- A step that leaves the profile, the interface and the connections keeps what is known of them. -/
theorem DeviceInv.of_conns {h' : List DeviceInput} (hs : DeviceInv view h s)
    (hprofile : s'.profile = s.profile) (hif : (view s'.stack).appIf = (view s.stack).appIf)
    (hconns : (view s'.stack).conns = (view s.stack).conns)
    (htokens : (view s'.stack).tokens + failures h' = s'.console.running.toNat)
    (hstopped : s'.stopped = false) : DeviceInv view h' s' where
  gatts_if := by
    rw [hprofile, hif]
    exact hs.gatts_if
  connected := by
    rw [hprofile, hconns]
    exact hs.connected
  conn_id := by
    rw [hprofile, hif, hconns]
    exact hs.conn_id
  tokens := htokens
  stopped := fun hs => absurd hs (by simp [hstopped])

/-- A step keeps the invariant. -/
theorem DeviceInv.step (hapi : api.Documented view b₀) (hs : DeviceInv view h s)
    (hstep : (device api b₀).step s i = some (s', o)) : DeviceInv view (h ++ [i]) s' := by
  obtain ⟨hstopped, hmove⟩ := device_step hapi hs.gatts_if hstep
  have hfailures := failures_snoc h i
  have htokens := hs.tokens
  have hle := hs.tokens_le
  have hnot : s.stopped = true → ∀ b : Bool, b = false := fun hs => by simp [hstopped] at hs
  simp only [BtStack.tokens] at htokens hle
  cases hmove with
  | stopped hidle =>
    replace hfailures : failures (h ++ [_]) = failures h := hfailures
    exact ⟨hs.gatts_if, hs.connected, hs.conn_id, by rw [hfailures]; exact hs.tokens, fun _ => hidle⟩
  | init hrunning hb =>
    replace hfailures : failures (h ++ [_]) = failures h := hfailures
    refine hs.of_conns rfl (by rw [hb]) (by rw [hb]) ?_ hstopped
    simp only [hb, BtStack.tokens, hfailures, hrunning, Bool.toNat_true]
    -- The first call adds the token of the registration.
    cases hbefore : s.console.running with
    | false =>
      rw [hbefore, Bool.toNat_false] at htokens
      simp only [Bool.false_eq_true, if_false]
      omega
    | true =>
      rw [hbefore, Bool.toNat_true] at htokens
      simp only [if_true]
      omega
  | registered hregs hb =>
    replace hfailures : failures (h ++ [_]) = failures h := hfailures
    have hconns : (view s.stack).conns = [] := List.eq_nil_of_length_eq_zero (by omega)
    have hconnected : s.profile.spp.is_connected = false := by simp [hs.connected, hconns]
    refine .of_nil (by rw [hb]) (by rw [hb]; exact hconns) hconnected ?_ hstopped
    simp only [hb, BtStack.tokens, hfailures]
    omega
  | notRegistered hregs hb =>
    replace hfailures : failures (h ++ [_]) = failures h + 1 := hfailures
    refine hs.of_conns rfl (by rw [hb]) (by rw [hb]) ?_ hstopped
    simp only [hb, BtStack.tokens, hfailures]
    omega
  | advDataSet hdata hb =>
    replace hfailures : failures (h ++ [_]) = failures h := hfailures
    refine hs.of_conns rfl (by rw [hb]) (by rw [hb]) ?_ hstopped
    simp only [hb, BtStack.tokens, hfailures]
    omega
  | @advStarted ok _ hstarts hb =>
    have hadv : (view s.stack).advertising = false := by
      by_contra htrue
      rw [Bool.of_not_eq_false htrue, Bool.toNat_true] at hle
      omega
    refine hs.of_conns rfl (by rw [hb]) (by rw [hb]) ?_ hstopped
    rw [hadv, Bool.toNat_false] at htokens
    have hmoved : ok.toNat + (DeviceInput.event (.advStarted ok)).fails.toNat = 1 := by
      cases ok <;> rfl
    simp only [hb, BtStack.tokens, hfailures, hadv, Bool.false_or]
    omega
  | connect hadv hb =>
    replace hfailures : failures (h ++ [_]) = failures h := hfailures
    rw [hadv, Bool.toNat_true] at htokens hle
    have hconns : (view s.stack).conns = [] := List.eq_nil_of_length_eq_zero (by omega)
    refine ⟨by rw [hb]; exact hs.gatts_if, by simp [hb], ?_, ?_, fun hs => hnot hs _⟩
    · intro c hc
      rw [hb, hconns] at hc
      rw [hb]
      exact ⟨(List.mem_singleton.mp hc).symm, rfl⟩
    · simp only [hb, BtStack.tokens, hfailures, Bool.toNat_false, List.length_cons]
      omega
  | disconnect hconn hb =>
    replace hfailures : failures (h ++ [_]) = failures h := hfailures
    have hpos := List.length_pos_of_mem hconn
    have hlen := List.length_erase_of_mem hconn
    have hconns : (view s.stack).conns.erase _ = [] :=
      List.eq_nil_of_length_eq_zero (hlen.trans (by omega))
    refine .of_nil (by rw [hb]; exact hs.gatts_if) (by rw [hb]; exact hconns) rfl ?_ hstopped
    simp only [hb, BtStack.tokens, hfailures, hlen]
    omega
  | quiet hkeeps ho he hb =>
    rw [he, Bool.toNat_false] at hfailures
    refine ⟨by rw [hb]; exact hs.gatts_if, by rw [hb]; exact hkeeps.is_connected.trans hs.connected,
      fun c hc => ?_, ?_, fun hs => hnot hs _⟩
    · rw [hb] at hc
      rw [hkeeps.conn_id, hkeeps.gatts_if, hb]
      exact hs.conn_id c hc
    · rw [hfailures, hb]
      exact hs.tokens

/-- The device is set up. -/
theorem deviceInv_init (hapi : api.Documented view b₀) :
    DeviceInv view [] (device api b₀).init := by
  have hinit : view (device api b₀).init.stack = {} := hapi.init
  refine .of_nil ?_ ?_ rfl ?_ rfl
  · rw [hinit]
    rfl
  · rw [hinit]
  · rw [hinit]
    rfl

variable (view) in
/-- What holds after a step: at most one connection, none while the stack advertises or is asked to;
and the server's flag, identifier and interface are those of the connection. -/
structure OneClient (s : Device β) (o : List SppCall) : Prop where
  conns : (view s.stack).conns.length ≤ 1
  advertising : (view s.stack).advertising = true → (view s.stack).conns = []
  starts : .startAdvertising ∈ o →
    (view s.stack).starts = 1 ∧ (view s.stack).advertising = false ∧ (view s.stack).conns = []
  connected : s.profile.spp.is_connected = true ↔ (view s.stack).conns ≠ []
  conn_id : ∀ c ∈ (view s.stack).conns,
    s.profile.spp.spp_conn_id = c ∧ s.profile.spp.spp_gatts_if = (view s.stack).appIf

/-- A state that satisfies the invariant. -/
theorem DeviceInv.oneClient (hs : DeviceInv view h s)
    (hstarts : .startAdvertising ∈ o → (view s.stack).starts ≠ 0) : OneClient view s o := by
  have hle := hs.tokens_le
  rw [BtStack.tokens] at hle
  refine ⟨by omega, fun hadv => ?_, fun hmem => ?_, by simp [hs.connected], hs.conn_id⟩
  · rw [hadv, Bool.toNat_true] at hle
    exact List.eq_nil_of_length_eq_zero (by omega)
  · have hpos := hstarts hmem
    have hadv : (view s.stack).advertising.toNat = 0 := by omega
    exact ⟨by omega, Bool.toNat_eq_zero.mp hadv, List.eq_nil_of_length_eq_zero (by omega)⟩

/-- In every run with a stack that does what its documentation says, however often `console_ll_init` is
called, there is one connection at a time, as the server notes it, and advertising is asked for only when
there is neither a connection nor advertising. -/
theorem one_connection (hapi : api.Documented view b₀) (inputs : List DeviceInput) :
    (device api b₀).AllSteps inputs fun _ _ _ s' o => OneClient view s' o := by
  refine Machine.allSteps_of_inv (deviceInv_init hapi) fun h s i s' o hs hstep => ?_
  refine ⟨hs.step hapi hstep, (hs.step hapi hstep).oneClient fun hmem => ?_⟩
  obtain ⟨-, hmove⟩ := device_step hapi hs.gatts_if hstep
  cases hmove with
  | advDataSet hdata hb | disconnect hconn hb =>
    rw [hb]
    exact Nat.succ_ne_zero _
  | quiet hkeeps ho he =>
    -- A start of advertising asks for something.
    have hcall := congrArg BtStack.starts (ho _ hmem {})
    cases hcall
  | registered => simp at hmem
  | stopped | init | notRegistered | advStarted | connect => cases hmem

/-! ## Whether a client can still connect -/

variable (api b₀) in
/-- Some later run leads to a connection. -/
def Connectable (s : Device β) : Prop :=
  ∃ later s' os, (device api b₀).run s later = some (s', os) ∧ s'.profile.spp.is_connected = true

/-- A connection that can be made after a step can be made. -/
theorem Connectable.of_step (hstep : (device api b₀).step s i = some (s', o))
    (hs' : Connectable api b₀ s') : Connectable api b₀ s := by
  obtain ⟨later, t, os, hrun, hconnected⟩ := hs'
  refine ⟨i :: later, t, o ++ os, ?_, hconnected⟩
  rw [Machine.run_cons, hstep, Option.bind_some, hrun]
  rfl

variable (b₀) in
/-- An event that the stack can report and that the handlers take. -/
theorem device_event {e : StackEvent} {b : β} {r : Profile × List SppCall}
    (hstopped : s.stopped = false) (hreport : api.report s.stack e = some b)
    (hhandle : s.profile.handle (api.appIf b) e = some r) :
    (device api b₀).step s (.event e) =
      some ({ s with profile := r.1, stack := r.2.foldl api.call b }, r.2) := by
  have hif : ¬ s.stopped = true := by simp [hstopped]
  simp only [device, if_neg hif, hreport, Option.bind_some, hhandle, Option.map_some]

/-- While the stack advertises, a client can connect. -/
theorem connectable_of_advertising (hapi : api.Documented view b₀) (hserves : api.Serves view)
    (hs : DeviceInv view h s) (hstopped : s.stopped = false)
    (hadv : (view s.stack).advertising = true) : Connectable api b₀ s := by
  obtain ⟨conn_id, b, hreport⟩ := hserves.connect _ hadv
  obtain ⟨-, hb⟩ := hapi.connect hreport
  have hif : s.profile.gatts_if = api.appIf b := by
    rw [hapi.appIf, hb]
    exact hs.gatts_if
  have hhandle : s.profile.handle (api.appIf b) (.connect conn_id) =
      some ({ s.profile with spp := { s.profile.spp with
        spp_conn_id := conn_id, spp_gatts_if := api.appIf b, is_connected := true } }, []) := by
    simp only [Profile.handle, StackEvent.param, StackEvent.gattsIf, gattsEventHandler,
      dispatch_known hif]
    rfl
  exact .of_step (device_event b₀ hstopped hreport hhandle) ⟨[], _, _, rfl, rfl⟩

/-- Once a start of advertising is asked for, a client can connect. -/
theorem connectable_of_starts (hapi : api.Documented view b₀) (hserves : api.Serves view)
    (hs : DeviceInv view h s) (hstopped : s.stopped = false)
    (hstarts : (view s.stack).starts ≠ 0) : Connectable api b₀ s := by
  obtain ⟨b, hreport⟩ := hserves.advStarted _ hstarts
  obtain ⟨-, hb⟩ := hapi.advStarted hreport
  have hstep := device_event b₀ (r := (s.profile, [])) hstopped hreport rfl
  refine .of_step hstep
    (connectable_of_advertising hapi hserves (hs.step hapi hstep) hstopped ?_)
  rw [List.foldl_nil, hb]
  exact Bool.or_true _

/-- Once the advertising data is to be set, a client can connect. -/
theorem connectable_of_advData (hapi : api.Documented view b₀) (hserves : api.Serves view)
    (hs : DeviceInv view h s) (hstopped : s.stopped = false)
    (hdata : (view s.stack).advData ≠ 0) : Connectable api b₀ s := by
  obtain ⟨b, hreport⟩ := hserves.advDataSet _ hdata
  have hstep := device_event b₀ (r := (s.profile, [.startAdvertising])) hstopped hreport rfl
  refine .of_step hstep (connectable_of_starts hapi hserves (hs.step hapi hstep) hstopped ?_)
  rw [hapi.view_calls]
  exact Nat.succ_ne_zero _

/-- Once the application is registering, a client can connect. -/
theorem connectable_of_regs (hapi : api.Documented view b₀) (hserves : api.Serves view)
    (hs : DeviceInv view h s) (hstopped : s.stopped = false)
    (hregs : (view s.stack).regs ≠ 0) : Connectable api b₀ s := by
  obtain ⟨gatts_if, b, hreport⟩ := hserves.reg _ hregs
  have hhandle : s.profile.handle (api.appIf b) (.reg true gatts_if) =
      some ({ s.profile with gatts_if := gatts_if },
        [.setDeviceName, .configAdvDataRaw, .createAttrTab gatts_if sppIdxNb]) := by
    simp only [Profile.handle, StackEvent.param, StackEvent.gattsIf, gattsEventHandler, dispatch_known]
    rfl
  have hstep := device_event b₀ hstopped hreport hhandle
  refine .of_step hstep (connectable_of_advData hapi hserves (hs.step hapi hstep) hstopped ?_)
  rw [hapi.view_calls]
  exact Nat.succ_ne_zero _

/-- The answers of a set-up that nothing fails in. -/
def setupOk : SetupAnswers := fun c _ =>
  match c with
  | .rxQueueCreate | .txQueueCreate | .createSem => 1
  | _ => espOk

/-- Such a set-up comes to its end. -/
theorem consoleLlInit_setupOk (s : ConsoleStatics) :
    ((consoleLlInit s).runFrom setupOk []).1 =
      .ok { rx_queue := true, tx_queue := true, running := true } := by
  obtain ⟨_ | _, _ | _, _ | _⟩ := s <;> rfl

/-- Where there is a token, a client can connect. -/
theorem connectable_of_tokens (hapi : api.Documented view b₀) (hserves : api.Serves view)
    (hs : DeviceInv view h s) (hstopped : s.stopped = false)
    (htokens : (view s.stack).tokens ≠ 0) : Connectable api b₀ s := by
  rw [BtStack.tokens] at htokens
  by_cases hregs : (view s.stack).regs = 0
  · by_cases hdata : (view s.stack).advData = 0
    · by_cases hstarts : (view s.stack).starts = 0
      · cases hadv : (view s.stack).advertising with
        | true => exact connectable_of_advertising hapi hserves hs hstopped hadv
        | false =>
          -- Nothing is left but a connection.
          have hconns : (view s.stack).conns ≠ [] := by
            rw [hadv, Bool.toNat_false] at htokens
            exact List.ne_nil_of_length_pos (by omega)
          exact ⟨[], s, [], rfl, by simpa [hs.connected] using hconns⟩
      · exact connectable_of_starts hapi hserves hs hstopped hstarts
    · exact connectable_of_advData hapi hserves hs hstopped hdata
  · exact connectable_of_regs hapi hserves hs hstopped hregs

/-- Before the console runs, it can be started. -/
theorem connectable_of_idle (hapi : api.Documented view b₀) (hserves : api.Serves view)
    (hs : DeviceInv view h s) (hstopped : s.stopped = false)
    (hidle : s.console.running = false) : Connectable api b₀ s := by
  have hstep : ∃ s' o, (device api b₀).step s (.init setupOk) = some (s', o) ∧ s'.stopped = false ∧
      s'.console.running = true := by
    have hif : ¬ s.stopped = true := by simp [hstopped]
    rcases hrun : (consoleLlInit s.console).runFrom setupOk [] with ⟨r, calls⟩
    have hok := consoleLlInit_setupOk s.console
    rw [hrun] at hok
    dsimp only at hok
    subst hok
    simp only [device, if_neg hif, hrun]
    exact ⟨_, _, rfl, hstopped, rfl⟩
  obtain ⟨s', o, hstep, hstopped', hrunning⟩ := hstep
  have hbefore := hs.tokens
  have hafter := (hs.step hapi hstep).tokens
  have hfailures : failures (h ++ [.init setupOk]) = failures h := failures_snoc h _
  rw [hidle, Bool.toNat_false] at hbefore
  rw [hfailures, hrunning, Bool.toNat_true] at hafter
  exact .of_step hstep (connectable_of_tokens hapi hserves (hs.step hapi hstep) hstopped' (by omega))

/-- The invariant holds after every run. -/
theorem deviceInv_run (hapi : api.Documented view b₀) {inputs : List DeviceInput} {os : List SppCall}
    (hrun : (device api b₀).run (device api b₀).init inputs = some (s, os)) :
    DeviceInv view inputs s := by
  have htriv : (device api b₀).AllSteps inputs fun _ _ _ _ _ => True := fun _ _ _ _ _ _ => trivial
  exact htriv.inv (deviceInv_init hapi) (fun _ _ _ _ _ hs _ hstep => hs.step hapi hstep)
    (List.prefix_refl _) hrun

end

/-! ## A stack that answers everything -/

/-- The stack that keeps only what there is to know of it, and can report every event that it may. -/
def ledgerStack : BtApi BtStack where
  register b := { b with regs := b.regs + 1 }
  call := BtStack.call
  report b
    | .reg ok gatts_if =>
      if b.regs = 0 then none
      else some { b with regs := b.regs - 1, appIf := if ok then gatts_if else b.appIf }
    | .advDataSet => if b.advData = 0 then none else some { b with advData := b.advData - 1 }
    | .advStarted ok =>
      if b.starts = 0 then none
      else some { b with starts := b.starts - 1, advertising := b.advertising || ok }
    | .connect conn_id =>
      if b.advertising = true ∧ conn_id ∉ b.conns then
        some { b with advertising := false, conns := conn_id :: b.conns }
      else none
    | .disconnect conn_id =>
      if conn_id ∈ b.conns then some { b with conns := b.conns.erase conn_id } else none
    | .read _ | .write .. | .execWrite _ | .mtu _ => if b.conns = [] then none else some b
    | .attrTab .. | .other => some b
  appIf := BtStack.appIf

/-- It does what the documentation says. -/
theorem ledgerStack_documented : ledgerStack.Documented id {} where
  init := rfl
  appIf _ := rfl
  register _ := rfl
  call _ _ := rfl
  reg hreport := by
    obtain ⟨hregs, hb⟩ := Option.ite_none_left_eq_some.mp hreport
    exact ⟨hregs, (Option.some.inj hb).symm⟩
  advDataSet hreport := by
    obtain ⟨hdata, hb⟩ := Option.ite_none_left_eq_some.mp hreport
    exact ⟨hdata, (Option.some.inj hb).symm⟩
  advStarted hreport := by
    obtain ⟨hstarts, hb⟩ := Option.ite_none_left_eq_some.mp hreport
    exact ⟨hstarts, (Option.some.inj hb).symm⟩
  connect hreport := by
    obtain ⟨⟨hadv, -⟩, hb⟩ := Option.ite_none_right_eq_some.mp hreport
    exact ⟨hadv, (Option.some.inj hb).symm⟩
  disconnect hreport := by
    obtain ⟨hconn, hb⟩ := Option.ite_none_right_eq_some.mp hreport
    exact ⟨hconn, (Option.some.inj hb).symm⟩
  others {b e b'} hreport he := by
    cases e with
    | reg | advDataSet | advStarted | connect | disconnect => cases he
    | attrTab | other =>
      cases hreport
      rfl
    | read | write | execWrite | mtu =>
      exact (Option.some.inj (Option.ite_none_left_eq_some.mp hreport).2).symm

/-- What is asked of it can succeed. -/
theorem ledgerStack_serves : ledgerStack.Serves id where
  reg b hregs := ⟨3, _, if_neg hregs⟩
  advDataSet b hdata := ⟨_, if_neg hdata⟩
  advStarted b hstarts := ⟨_, if_neg hstarts⟩
  connect b hadv := by
    obtain ⟨conn_id, hfresh⟩ := Infinite.exists_notMem_finset b.conns.toFinset
    exact ⟨conn_id, _, if_pos ⟨hadv, by simpa using hfresh⟩⟩

/-- A client connects and leaves, and another one connects. -/
def twoClients : List DeviceInput :=
  [.init setupOk, .event (.reg true 3), .event .advDataSet, .event (.advStarted true),
    .event (.connect 0), .event (.disconnect 0), .event (.advStarted true), .event (.connect 1)]

/-- The second client is the one connection then. -/
theorem one_connection_two_clients :
    (∃ s os, (device ledgerStack {}).run { stack := {} } twoClients = some (s, os) ∧
      s.stack.conns = [1] ∧ s.profile.spp.spp_conn_id = 1) ∧
    (device ledgerStack {}).AllSteps twoClients fun _ _ _ s' o => OneClient id s' o :=
  ⟨⟨_, _, rfl, rfl, rfl⟩, one_connection ledgerStack_documented twoClients⟩

/-- A client connects and leaves, and the next start of advertising fails. -/
def startFails : List DeviceInput :=
  [.init setupOk, .event (.reg true 3), .event .advDataSet, .event (.advStarted true),
    .event (.connect 0), .event (.disconnect 0), .event (.advStarted false)]

end PartLib.Ble
