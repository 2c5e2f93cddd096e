import PartLib.EspErr
import PartLib.Provisioning.SelfTest
import PartLib.Lib.Program
import PartLib.Lib.Reaches

/-!
# The provisioning over restarts

`provDevice` is the device as far as the provisioning is concerned, over any number of restarts: the
rest of `setup_provisioning` up to its wait, and from there on the self test with its handler. The
flash, the station and the provisioning manager are a parameter, `ProvApi`, of which no more is assumed
than its documentation says, `ProvApi.Documented`. The device restarts when `setup_provisioning` asks
for it, when a check has failed, and when the power is lost, at any place.

As long as the flash can be erased, the device keeps to what its credentials are (`provisioning_law`):
it starts the provisioning service only without any, and the station only with those that are stored;
`setup_provisioning` returns only with stored credentials that the station uses, and restarts the
device only without, so that the service is started again.
-/

namespace PartLib.Provisioning

/-! ## The set-up -/

/-- The calls of `setup_provisioning` before its wait. -/
inductive ProvCall
  | nvsFlashInit
  | nvsFlashErase
  | netifInit
  | createSemaphore
  | eventLoopCreate
  | createEventGroup
  | registerProv
  | registerWifi
  | registerIp
  | createWifiSta
  | wifiInit
  | mgrInit
  | mgrIsProvisioned
  | mgrEndpointCreate
  | mgrStartProvisioning
  | mgrEndpointRegister
  | mgrDeinit
  | wifiSetMode
  | wifiStart
  deriving DecidableEq, Repr

/-- What a call returns, an error code or an object, and what `wifi_prov_mgr_is_provisioned` stores in
its argument. -/
structure ProvAnswer where
  ret : ℤ
  provisioned : Bool

/-- A part of the set-up. It ends early when a check fails. -/
abbrev ProvSetup (α : Type) := ExceptT Unit (Program fun _ : ProvCall => ProvAnswer) α

/-- A call whose result is not checked. -/
def provCall (c : ProvCall) : ProvSetup ProvAnswer := ExceptT.lift (Program.ask c)

/-- A call in `ESP_ERROR_CHECK`. -/
def provCheck (c : ProvCall) : ProvSetup ProvAnswer := do
  let a ← provCall c
  if a.ret = espOk then pure a else throw ()

/-- The flash is initialized, after an erase when it cannot be used as it is. Another error than these
two is not looked at. -/
def initFlash : ProvSetup Unit := do
  let a ← provCall .nvsFlashInit
  if a.ret = espErrNvsNoFreePages ∨ a.ret = espErrNvsNewVersionFound then
    let _ ← provCheck .nvsFlashErase
    let _ ← provCheck .nvsFlashInit
    pure ()
  else
    pure ()

/-- The network interface, the event loop, and the handler for its events. -/
def initEvents : ProvSetup Unit := do
  let _ ← provCheck .netifInit
  let wifi_sem ← provCall .createSemaphore
  if wifi_sem.ret = 0 then throw () else pure ()
  let _ ← provCheck .eventLoopCreate
  let _ ← provCall .createEventGroup
  let _ ← provCheck .registerProv
  let _ ← provCheck .registerWifi
  let _ ← provCheck .registerIp

/-- The provisioning service of a device without credentials. -/
def startService : ProvSetup Unit := do
  let _ ← provCall .mgrEndpointCreate
  let _ ← provCheck .mgrStartProvisioning
  let _ ← provCall .mgrEndpointRegister

/-- `wifi_init_sta`. -/
def wifiInitSta : ProvSetup Unit := do
  let _ ← provCheck .wifiSetMode
  let _ ← provCheck .wifiStart

/-- `setup_provisioning`, up to its wait. -/
def setupProvisioning : ProvSetup Unit := do
  initFlash
  initEvents
  let _ ← provCall .createWifiSta
  let _ ← provCheck .wifiInit
  let _ ← provCheck .mgrInit
  let a ← provCheck .mgrIsProvisioned
  if a.provisioned then
    let _ ← provCall .mgrDeinit
    wifiInitSta
  else
    startService

/-! ## The flash, the station and the manager -/

/-- The functions of `nvs_flash`, `esp_wifi` and `wifi_prov_mgr`, as they change the state that they
share, where the credentials are a `γ`. -/
structure ProvApi (σ γ : Type) where
  /-- The device starts again. -/
  restart : σ → σ
  /-- A call of the set-up, if it can return so. -/
  call : σ → ProvCall → ProvAnswer → Option σ
  /-- `esp_wifi_connect`, and `wifi_prov_mgr_deinit` at the end of the service. -/
  connect : σ → σ
  deinit : σ → σ
  /-- An event for the handler, if it can come. -/
  event : σ → ProvEvent → Option σ
  /-- A client sends credentials to the service, if it can. -/
  receive : σ → γ → Option σ

/-- What there is to know: the credentials in the flash, whether the flash and the station are
initialized, the credentials that the station uses, and whether the service has been started. -/
structure ProvState (γ : Type) where
  flash : Option γ := none
  nvs : Bool := false
  wifi : Bool := false
  config : Option γ := none
  serving : Bool := false

/-- The calls of the set-up that change nothing of that. -/
def ProvCall.isOther : ProvCall → Bool
  | .nvsFlashInit | .nvsFlashErase | .wifiInit | .mgrIsProvisioned | .mgrStartProvisioning => false
  | .netifInit | .createSemaphore | .eventLoopCreate | .createEventGroup | .registerProv
  | .registerWifi | .registerIp | .createWifiSta | .mgrInit | .mgrEndpointCreate
  | .mgrEndpointRegister | .mgrDeinit | .wifiSetMode | .wifiStart => true

/-- What the documentation says of the flash, the station and the manager, of which `view` tells what
there is to know. -/
structure ProvApi.Documented {σ γ : Type} (api : ProvApi σ γ) (view : σ → ProvState γ) : Prop where
  /-- Only the flash survives a restart. -/
  restart : ∀ s, view (api.restart s) = { flash := (view s).flash }
  nvs_flash_init : ∀ {s a s'}, api.call s .nvsFlashInit a = some s' →
    view s' = { view s with nvs := (view s).nvs || a.ret = espOk }
  /-- After an erase the flash has to be initialized again. One that fails leaves anything in it. -/
  nvs_flash_erase : ∀ {s a s'}, api.call s .nvsFlashErase a = some s' →
    ∃ flash nvs, view s' = { view s with flash := flash, nvs := nvs } ∧
      (a.ret = espOk → flash = none ∧ nvs = false)
  /-- The station takes its configuration from the flash. -/
  wifi_init : ∀ {s a s'}, api.call s .wifiInit a = some s' → a.ret = espOk → (view s).nvs = true →
    view s' = { view s with wifi := true, config := (view s).flash }
  wifi_init_fails : ∀ {s a s'}, api.call s .wifiInit a = some s' → a.ret ≠ espOk → view s' = view s
  is_provisioned : ∀ {s a s'}, api.call s .mgrIsProvisioned a = some s' →
    view s' = view s ∧ (a.ret = espOk → a.provisioned = (view s).config.isSome)
  start_provisioning : ∀ {s a s'}, api.call s .mgrStartProvisioning a = some s' →
    view s' = { view s with serving := (view s).serving || a.ret = espOk }
  others : ∀ {s c a s'}, api.call s c a = some s' → c.isOther = true → view s' = view s
  connect : ∀ s, view (api.connect s) = view s
  deinit : ∀ s, view (api.deinit s) = view s
  /-- The events come from the station and the manager, which needs it; it gets an address only with
  credentials. -/
  event : ∀ {s e s'}, api.event s e = some s' →
    (view s).wifi = true ∧ (e = .staGotIp → (view s).config.isSome = true) ∧ view s' = view s
  /-- Credentials come in at the service only. They are used, and stored if the flash can be used. -/
  receive : ∀ {s c s'}, api.receive s c = some s' → (view s).serving = true ∧
    view s' = { view s with
      config := some c, flash := if (view s).nvs then some c else (view s).flash }

/-! ## The device -/

/-- The flash, the station and the manager, what is left of the set-up, and the self test. -/
structure ProvDevice (σ : Type) where
  idf : σ
  prog : Program (fun _ : ProvCall => ProvAnswer) (Except Unit Unit)
  test : SelfTest

/-- The moves: the device starts again; a call of the set-up returns; `setup_provisioning` goes on from
its wait, with what an erase returns then; an event; the next statement of the handler; and a client
sends credentials to the service. -/
inductive ProvInput (γ : Type)
  | restart
  | call (a : ProvAnswer)
  | setup (timeout : Bool) (a : ProvAnswer)
  | event (e : ProvEvent)
  | handler
  | receive (c : γ)

/-- What is seen: a start, a call of the set-up, a call of the self test, and credentials. -/
inductive ProvOut (γ : Type)
  | boots
  | call (c : ProvCall) (ret : ℤ)
  | test (c : SelfTestCall)
  | received (c : γ)
  deriving DecidableEq

section

variable {σ γ : Type} (api : ProvApi σ γ)

/-- The device starts. -/
def ProvDevice.boot (s : σ) : ProvDevice σ := ⟨s, setupProvisioning.run, selfTest.init⟩

/-- A call of the set-up returns. -/
def ProvDevice.call (d : ProvDevice σ) (a : ProvAnswer) : Option (ProvDevice σ × List (ProvOut γ)) :=
  match d.prog with
  | .request c next =>
    (api.call d.idf c a).map fun s => ({ d with idf := s, prog := next a }, [.call c a.ret])
  | .pure _ => none

/-- No check of the set-up has failed. -/
def ProvDevice.running (d : ProvDevice σ) : Bool :=
  match d.prog with
  | .pure (.error _) => false
  | _ => true

/-- The set-up is done. -/
def ProvDevice.done (d : ProvDevice σ) : Bool :=
  match d.prog with
  | .pure (.ok _) => true
  | _ => false

/-- `setup_provisioning` goes on from its wait; it may erase the flash. -/
def ProvDevice.setup (d : ProvDevice σ) (timeout : Bool) (a : ProvAnswer) :
    Option (ProvDevice σ × List (ProvOut γ)) :=
  (selfTest.step d.test (.setup timeout)).bind fun r =>
    (if .eraseFlash ∈ r.2 then api.call d.idf .nvsFlashErase a else some d.idf).map fun s =>
      ({ d with idf := s, test := r.1 }, r.2.map .test)

/-- What a call of the handler does. -/
def ProvApi.afterHandler (s : σ) : SelfTestCall → σ
  | .wifiConnect => api.connect s
  | .mgrDeinit => api.deinit s
  | .give _ | .take _ | .eraseFlash | .unregister | .restart => s

/-- The handler gets an event, or goes on. -/
def ProvDevice.handle (d : ProvDevice σ) (i : SelfTestInput) :
    Option (ProvDevice σ × List (ProvOut γ)) :=
  (selfTest.step d.test i).map fun r =>
    ({ d with idf := r.2.foldl api.afterHandler d.idf, test := r.1 }, r.2.map .test)

/-- The device, from a first start. -/
def provDevice (s₀ : σ) : Machine (ProvDevice σ) (ProvInput γ) (ProvOut γ) where
  init := .boot (api.restart s₀)
  step d i :=
    match i with
    | .restart => some (.boot (api.restart d.idf), [.boots])
    | .call a => d.call api a
    | .setup timeout a => if d.done then d.setup api timeout a else none
    | .event e =>
      if d.running then
        (api.event d.idf e).bind fun s => { d with idf := s }.handle api (.event e)
      else none
    | .handler => if d.running then d.handle api .handler else none
    | .receive c =>
      if d.running ∧ d.test.aborted = false ∧ d.test.pc ≠ .restarted then
        (api.receive d.idf c).map fun s => ({ d with idf := s }, [.received c])
      else none

end

/-! ## What the set-up may call -/

/-- What matters to the set-up: the station is initialized, it has credentials, and the service has been
started, so that a client may send others. -/
structure ProvView where
  wifi : Bool
  provisioned : Bool
  serving : Bool

/-- The call is made at the right time. -/
def ProvView.Allows (v : ProvView) : ProvCall → Prop
  | .nvsFlashErase => v.wifi = false ∧ v.serving = false
  | .mgrStartProvisioning => v.wifi = true ∧ v.provisioned = false ∧ v.serving = false
  | .wifiSetMode | .wifiStart => v.wifi = true ∧ v.provisioned = true ∧ v.serving = false
  | _ => True

/-- How the call `c`, answered with `a`, and the clients change what matters. -/
structure ProvView.After (v : ProvView) (c : ProvCall) (a : ProvAnswer) (v' : ProvView) : Prop where
  wifi : v'.wifi = (v.wifi || (c = .wifiInit ∧ a.ret = espOk))
  serving : v'.serving = (v.serving || (c = .mgrStartProvisioning ∧ a.ret = espOk))
  provisioned : c ≠ .wifiInit → v.serving = false → v'.serving = false →
    v'.provisioned = v.provisioned
  answer : c = .mgrIsProvisioned → a.ret = espOk → v.serving = false → a.provisioned = v.provisioned

/-- The set-up makes every call at the right time. -/
def Timely : Program (fun _ : ProvCall => ProvAnswer) (Except Unit Unit) → ProvView → Prop
  | .pure _, _ => True
  | .request c next, v => v.Allows c ∧ ∀ a v', v.After c a v' → Timely (next a) v'

section

variable {v : ProvView}

/-- Once the service has been started, it does not matter whether there are credentials. -/
theorem Timely.serving {p : Program (fun _ : ProvCall => ProvAnswer) (Except Unit Unit)} {b : Bool}
    (h : Timely p v) (hv : v.serving = true) : Timely p { v with provisioned := b } := by
  cases p with
  | pure a => trivial
  | request c next =>
    obtain ⟨hallows, hnext⟩ := h
    refine ⟨?_, fun a v' hafter => hnext a v' ⟨hafter.wifi, hafter.serving, ?_, ?_⟩⟩
    · unfold ProvView.Allows at hallows ⊢
      cases c <;> simp_all
    · intro _ hnot
      rw [hv] at hnot
      cases hnot
    · intro _ _ hnot
      rw [hv] at hnot
      cases hnot

/-- A call that neither initializes the station nor starts the service changes nothing. -/
theorem ProvView.After.eq {c : ProvCall} {a : ProvAnswer} {v' : ProvView} (h : v.After c a v')
    (hwifi : c ≠ .wifiInit) (hstart : c ≠ .mgrStartProvisioning) (hv : v.serving = false) : v' = v := by
  have hserving : v'.serving = v.serving := by
    rw [h.serving]
    simp [hstart]
  have hw : v'.wifi = v.wifi := by
    rw [h.wifi]
    simp [hwifi]
  have hprov := h.provisioned hwifi hv (hserving.trans hv)
  obtain ⟨w, p, sv⟩ := v'
  obtain ⟨w', p', sv'⟩ := v
  cases hserving
  cases hw
  cases hprov
  rfl

/-- A call whose result is not checked, and then the rest. -/
theorem timely_call {c : ProvCall} {k : ProvAnswer → ProvSetup Unit} (hallows : v.Allows c)
    (hk : ∀ a v', v.After c a v' → Timely (k a).run v') : Timely (provCall c >>= k).run v :=
  ⟨hallows, hk⟩

/-- A call that is checked, and then the rest. -/
theorem timely_check {c : ProvCall} {k : ProvAnswer → ProvSetup Unit} (hallows : v.Allows c)
    (hk : ∀ a v', a.ret = espOk → v.After c a v' → Timely (k a).run v') :
    Timely (provCheck c >>= k).run v := by
  have heq : provCheck c >>= k =
      provCall c >>= fun a => (if a.ret = espOk then pure a else throw ()) >>= k := by
    unfold provCheck
    rw [bind_assoc]
  rw [heq]
  refine timely_call hallows fun a v' hafter => ?_
  by_cases hret : a.ret = espOk
  · rw [if_pos hret]
    exact hk a v' hret hafter
  · rw [if_neg hret]
    trivial

/-- A call that changes nothing, whose result is not checked. -/
theorem timely_quietCall {c : ProvCall} {k : ProvAnswer → ProvSetup Unit} (hallows : v.Allows c)
    (hwifi : c ≠ .wifiInit) (hstart : c ≠ .mgrStartProvisioning) (hv : v.serving = false)
    (hk : ∀ a, Timely (k a).run v) : Timely (provCall c >>= k).run v :=
  timely_call hallows fun a _ hafter => hafter.eq hwifi hstart hv ▸ hk a

/-- A call that changes nothing, and is checked. -/
theorem timely_quietCheck {c : ProvCall} {k : ProvAnswer → ProvSetup Unit} (hallows : v.Allows c)
    (hwifi : c ≠ .wifiInit) (hstart : c ≠ .mgrStartProvisioning) (hv : v.serving = false)
    (hk : ∀ a, (c = .mgrIsProvisioned → a.provisioned = v.provisioned) → Timely (k a).run v) :
    Timely (provCheck c >>= k).run v :=
  timely_check hallows fun a _ hret hafter =>
    hafter.eq hwifi hstart hv ▸ hk a fun hc => hafter.answer hc hret hv

/-- The flash is initialized before the station is. -/
theorem timely_initFlash {k : Unit → ProvSetup Unit} (hwifi : v.wifi = false) (hv : v.serving = false)
    (hk : Timely (k ()).run v) : Timely (initFlash >>= k).run v := by
  unfold initFlash
  rw [bind_assoc]
  refine timely_quietCall trivial (by decide) (by decide) hv fun a => ?_
  split_ifs
  · rw [bind_assoc]
    refine timely_quietCheck ⟨hwifi, hv⟩ (by decide) (by decide) hv fun _ _ => ?_
    rw [bind_assoc]
    exact timely_quietCheck trivial (by decide) (by decide) hv fun _ _ => hk
  · exact hk

/-- The handler is registered before the station is initialized. -/
theorem timely_initEvents {k : Unit → ProvSetup Unit} (hv : v.serving = false)
    (hk : Timely (k ()).run v) : Timely (initEvents >>= k).run v := by
  unfold initEvents
  simp only [bind_assoc]
  refine timely_quietCheck trivial (by decide) (by decide) hv fun _ _ => ?_
  refine timely_quietCall trivial (by decide) (by decide) hv fun sem => ?_
  split_ifs
  · trivial
  simp only [bind_assoc]
  refine timely_quietCheck trivial (by decide) (by decide) hv fun _ _ => ?_
  refine timely_quietCall trivial (by decide) (by decide) hv fun _ => ?_
  refine timely_quietCheck trivial (by decide) (by decide) hv fun _ _ => ?_
  refine timely_quietCheck trivial (by decide) (by decide) hv fun _ _ => ?_
  refine timely_quietCheck trivial (by decide) (by decide) hv fun _ _ => ?_
  exact hk

/-- The service is started without credentials. -/
theorem timely_startService (hwifi : v.wifi = true) (hprov : v.provisioned = false)
    (hv : v.serving = false) : Timely startService.run v := by
  unfold startService
  refine timely_quietCall trivial (by decide) (by decide) hv fun _ => ?_
  refine timely_check ⟨hwifi, hprov, hv⟩ fun _ _ _ _ => ?_
  exact ⟨trivial, fun _ _ _ => trivial⟩

/-- The station is started with credentials. -/
theorem timely_wifiInitSta (hwifi : v.wifi = true) (hprov : v.provisioned = true)
    (hv : v.serving = false) : Timely wifiInitSta.run v := by
  unfold wifiInitSta
  refine timely_quietCheck ⟨hwifi, hprov, hv⟩ (by decide) (by decide) hv fun _ _ => ?_
  exact timely_quietCheck ⟨hwifi, hprov, hv⟩ (by decide) (by decide) hv fun _ _ => trivial

/-- The set-up makes every call at the right time. -/
theorem timely_setupProvisioning : Timely setupProvisioning.run ⟨false, false, false⟩ := by
  unfold setupProvisioning
  refine timely_initFlash rfl rfl ?_
  refine timely_initEvents rfl ?_
  refine timely_quietCall trivial (by decide) (by decide) rfl fun _ => ?_
  refine timely_check trivial fun a v hret hafter => ?_
  have hwifi : v.wifi = true := by simp [hafter.wifi, hret]
  have hserving : v.serving = false := by simp [hafter.serving]
  refine timely_quietCheck trivial (by decide) (by decide) hserving fun _ _ => ?_
  refine timely_quietCheck trivial (by decide) (by decide) hserving fun b hb => ?_
  have hprov := hb rfl
  split_ifs with hb'
  · refine timely_quietCall trivial (by decide) (by decide) hserving fun _ => ?_
    exact timely_wifiInitSta hwifi (hprov.symm.trans hb') hserving
  · exact timely_startService hwifi (by rw [← hprov]; simpa using hb') hserving

end

/-! ## One step -/

section

variable {σ γ : Type} {api : ProvApi σ γ} {view : σ → ProvState γ} {s₀ : σ} {d d' : ProvDevice σ}
  {o : List (ProvOut γ)}

/-- What matters to the set-up. -/
def ProvState.forSetup (s : ProvState γ) : ProvView := ⟨s.wifi, s.config.isSome, s.serving⟩

/-- The call of the set-up that is made next. -/
def ProvDevice.next (d : ProvDevice σ) : Option ProvCall :=
  match d.prog with
  | .request c _ => some c
  | .pure _ => none

variable (view) in
/-- The station is initialized only when the flash is, and an erase succeeds. -/
def FlashOk (d : ProvDevice σ) : ProvInput γ → Prop
  | .call a => d.next = some .wifiInit → a.ret = espOk → (view d.idf).nvs = true
  | .setup _ a => a.ret = espOk
  | _ => True

instance (d : ProvDevice σ) : DecidablePred (FlashOk view d)
  | .call _ => inferInstanceAs (Decidable (_ → _ → _))
  | .setup _ a => inferInstanceAs (Decidable (a.ret = espOk))
  | .restart | .event _ | .handler | .receive _ => .isTrue trivial

variable (view) in
/-- Before the semaphore is taken, the flash has the credentials that the station uses, and a connection
was signalled only with some. After it, the flash has them if the provisioning is valid, and none if
not. -/
structure ProvInv (d : ProvDevice σ) : Prop where
  timely : Timely d.prog (view d.idf).forSetup
  waits : d.test.pc ≠ .wait → d.done = true
  idle : (view d.idf).wifi = false → (view d.idf).config = none ∧ (view d.idf).serving = false
  full : ¬ d.test.pc.Taken → d.test.wifi_sem = true → (view d.idf).config.isSome = true
  gives : .give ∈ d.test.handler → (view d.idf).config.isSome = true
  before : ¬ d.test.pc.Taken → d.test.provisioning_valid = false
  stored : ¬ d.test.pc.Taken → (view d.idf).wifi = true →
    (view d.idf).nvs = true ∧ (view d.idf).flash = (view d.idf).config
  valid : d.test.pc.Taken → d.test.provisioning_valid = true →
    (view d.idf).nvs = true ∧ (view d.idf).flash = (view d.idf).config ∧
      (view d.idf).config.isSome = true
  invalid : d.test.pc.Taken → d.test.provisioning_valid = false →
    (view d.idf).nvs = false ∧ (view d.idf).flash = none
  returned : d.test.pc = .returned → d.test.provisioning_valid = true
  restarted : d.test.pc = .restarted → d.test.provisioning_valid = false

variable (view) in
/-- The service is started only without credentials in the flash, and the station only with those that
it uses; `setup_provisioning` returns only with such, and restarts the device only without. -/
structure ProvLaw (d d' : ProvDevice σ) (o : List (ProvOut γ)) : Prop where
  service : ∀ ret, .call .mgrStartProvisioning ret ∈ o → (view d.idf).flash = none
  station : ∀ ret, .call .wifiStart ret ∈ o →
    (view d.idf).flash.isSome = true ∧ (view d.idf).config = (view d.idf).flash
  returned : d'.test.pc = .returned →
    (view d'.idf).flash.isSome = true ∧ (view d'.idf).config = (view d'.idf).flash
  restarts : .test .restart ∈ o → (view d'.idf).flash = none

/-- A device that starts. -/
theorem ProvInv.boot (hapi : api.Documented view) (s : σ) : ProvInv view (.boot (api.restart s)) where
  timely := by
    rw [ProvDevice.boot, hapi.restart]
    exact timely_setupProvisioning
  waits h := absurd rfl h
  idle _ := by
    rw [ProvDevice.boot, hapi.restart]
    exact ⟨rfl, rfl⟩
  full _ h := by cases h
  gives h := by cases h
  before _ := rfl
  stored _ h := by
    rw [ProvDevice.boot, hapi.restart] at h
    cases h
  valid h := h.elim
  invalid h := h.elim
  returned h := by cases h
  restarted h := by cases h

/-- With credentials, the station is initialized. -/
theorem ProvInv.wifi_of_config (hs : ProvInv view d) (h : (view d.idf).config.isSome = true) :
    (view d.idf).wifi = true := by
  by_contra hwifi
  rw [(hs.idle (by simpa using hwifi)).1] at h
  cases h

/-- When `setup_provisioning` has returned, the credentials are kept. -/
theorem ProvInv.kept (hs : ProvInv view d) (h : d.test.pc = .returned) :
    (view d.idf).flash.isSome = true ∧ (view d.idf).config = (view d.idf).flash := by
  have htaken : d.test.pc.Taken := by
    rw [h]
    trivial
  obtain ⟨-, hflash, hsome⟩ := hs.valid htaken (hs.returned h)
  exact ⟨hflash ▸ hsome, hflash.symm⟩

/-- What a call of the set-up leaves of what there is to know. -/
structure Called (v : ProvState γ) (c : ProvCall) (a : ProvAnswer) (v' : ProvState γ) : Prop where
  after : v.forSetup.After c a v'.forSetup
  config : v.config.isSome = true → v'.config.isSome = true
  idle : v'.wifi = false → v'.config = none ∧ v'.serving = false
  stored : v'.wifi = true → v'.nvs = true ∧ v'.flash = v'.config

/-- A call of the set-up, at the right time. -/
theorem ProvInv.called (hapi : api.Documented view) (hs : ProvInv view d)
    (hnot : ¬ d.test.pc.Taken) {c : ProvCall} {a : ProvAnswer} {s : σ}
    (hallows : (view d.idf).forSetup.Allows c)
    (hnvs : c = .wifiInit → a.ret = espOk → (view d.idf).nvs = true)
    (hcall : api.call d.idf c a = some s) : Called (view d.idf) c a (view s) := by
  have hstored := hs.stored hnot
  -- A call that leaves all that there is to know.
  have hsame : view s = view d.idf → c ≠ .wifiInit ∨ a.ret ≠ espOk → c ≠ .mgrStartProvisioning →
      (c = .mgrIsProvisioned → a.ret = espOk → a.provisioned = (view d.idf).config.isSome) →
        Called (view d.idf) c a (view s) := by
    intro hview hwifi hstart hanswer
    rw [hview]
    refine ⟨⟨?_, ?_, fun _ _ _ => rfl, fun hc hret _ => hanswer hc hret⟩, id, hs.idle, hstored⟩
    · have hw : ¬ (c = .wifiInit ∧ a.ret = espOk) := not_and_or.mpr hwifi
      simp [hw]
    · simp [hstart]
  cases c with
  | nvsFlashInit =>
    rw [hapi.nvs_flash_init hcall]
    refine ⟨⟨by simp [ProvState.forSetup], by simp [ProvState.forSetup], fun _ _ _ => rfl,
      fun hc => by cases hc⟩, id, hs.idle, fun hwifi => ?_⟩
    obtain ⟨hnvs, hflash⟩ := hstored hwifi
    exact ⟨by rw [hnvs, Bool.true_or], hflash⟩
  | nvsFlashErase =>
    obtain ⟨flash, nvs, hview, -⟩ := hapi.nvs_flash_erase hcall
    rw [hview]
    exact ⟨⟨by simp [ProvState.forSetup], by simp [ProvState.forSetup], fun _ _ _ => rfl,
      fun hc => by cases hc⟩, id, hs.idle, fun hwifi => absurd (hallows.1.symm.trans hwifi) (by decide)⟩
  | wifiInit =>
    by_cases hret : a.ret = espOk
    · -- The credentials of the station are replaced by those of the flash, which are the same if
      -- there were any.
      rw [hapi.wifi_init hcall hret (hnvs rfl hret)]
      refine ⟨⟨by simp [ProvState.forSetup, hret], by simp [ProvState.forSetup],
        fun h => absurd rfl h, fun hc => by cases hc⟩, fun hsome => ?_, fun hwifi => ?_,
        fun _ => ⟨hnvs rfl hret, rfl⟩⟩
      · show (view d.idf).flash.isSome = true
        rw [(hstored (hs.wifi_of_config hsome)).2]
        exact hsome
      · cases hwifi
    · exact hsame (hapi.wifi_init_fails hcall hret) (.inr hret) (by decide) fun hc => by cases hc
  | mgrStartProvisioning =>
    rw [hapi.start_provisioning hcall]
    exact ⟨⟨by simp [ProvState.forSetup], by simp [ProvState.forSetup], fun _ _ _ => rfl,
      fun hc => by cases hc⟩, id, fun hwifi => absurd (hallows.1.symm.trans hwifi) (by decide), hstored⟩
  | mgrIsProvisioned =>
    obtain ⟨hview, hanswer⟩ := hapi.is_provisioned hcall
    exact hsame hview (.inl (by decide)) (by decide) fun _ => hanswer
  | _ =>
    exact hsame (hapi.others hcall rfl) (.inl (by decide)) (by decide) fun hc => by cases hc

/-- A call of the set-up returns. -/
theorem ProvInv.call (hapi : api.Documented view) (hs : ProvInv view d) {a : ProvAnswer}
    (hC : FlashOk view d (.call a)) (h : d.call api a = some (d', o)) :
    ProvInv view d' ∧ ProvLaw view d d' o := by
  unfold ProvDevice.call at h
  cases hprog : d.prog with
  | pure r =>
    rw [hprog] at h
    cases h
  | request c next =>
    have htimely := hs.timely
    rw [hprog] at htimely
    obtain ⟨hallows, hnext⟩ := htimely
    have hpc : d.test.pc = .wait := by
      by_contra hne
      have hdone := hs.waits hne
      rw [ProvDevice.done, hprog] at hdone
      cases hdone
    have hnot : ¬ d.test.pc.Taken := by
      rw [hpc]
      exact id
    rw [hprog] at h
    obtain ⟨s, hcall, he⟩ := Option.map_eq_some_iff.mp h
    cases he
    have hcalled : Called (view d.idf) c a (view s) := by
      refine hs.called hapi hnot hallows (fun hc => hC ?_) hcall
      rw [ProvDevice.next, hprog, hc]
    constructor
    · exact {
        timely := hnext _ _ hcalled.after
        waits := fun hne => absurd hpc hne
        idle := hcalled.idle
        full := fun _ hsem => hcalled.config (hs.full hnot hsem)
        gives := fun hgive => hcalled.config (hs.gives hgive)
        before := fun _ => hs.before hnot
        stored := fun _ => hcalled.stored
        valid := fun ht => absurd ht hnot
        invalid := fun ht => absurd ht hnot
        returned := fun hr => absurd (hr.symm.trans hpc) (by decide)
        restarted := fun hr => absurd (hr.symm.trans hpc) (by decide) }
    · refine ⟨fun ret' hmem => ?_, fun ret' hmem => ?_, fun hr => ?_, fun hmem => ?_⟩
      · obtain ⟨rfl, -⟩ := (ProvOut.call.injEq ..).mp (List.mem_singleton.mp hmem)
        have hnone : (view d.idf).config = none := by simpa [ProvState.forSetup] using hallows.2.1
        rw [(hs.stored hnot hallows.1).2, hnone]
      · obtain ⟨rfl, -⟩ := (ProvOut.call.injEq ..).mp (List.mem_singleton.mp hmem)
        have hflash := (hs.stored hnot hallows.1).2
        exact ⟨hflash ▸ hallows.2.1, hflash.symm⟩
      · exact absurd (hr.symm.trans hpc) (by decide)
      · cases List.mem_singleton.mp hmem

/-- A move of the handler, which leaves all that there is to know and the place of
`setup_provisioning`. -/
theorem ProvInv.signal (hs : ProvInv view d) {s : σ} {t : SelfTest} (hview : view s = view d.idf)
    (hpc : t.pc = d.test.pc) (hvalid : t.provisioning_valid = d.test.provisioning_valid)
    (hsem : ¬ d.test.pc.Taken → t.wifi_sem = true → (view d.idf).config.isSome = true)
    (hgives : .give ∈ t.handler → (view d.idf).config.isSome = true) :
    ProvInv view { d with idf := s, test := t } where
  timely := hview ▸ hs.timely
  waits h := hs.waits (hpc ▸ h)
  idle := hview ▸ hs.idle
  full hnot := hview ▸ hsem (hpc ▸ hnot)
  gives := hview ▸ hgives
  before hnot := hvalid.trans (hs.before (hpc ▸ hnot))
  stored hnot := hview ▸ hs.stored (hpc ▸ hnot)
  valid ht h := hview ▸ hs.valid (hpc ▸ ht) (hvalid.symm.trans h)
  invalid ht h := hview ▸ hs.invalid (hpc ▸ ht) (hvalid.symm.trans h)
  returned h := hvalid.trans (hs.returned (hpc.symm.trans h))
  restarted h := hvalid.trans (hs.restarted (hpc.symm.trans h))

/-- The calls of the handler leave all that there is to know. -/
theorem ProvApi.Documented.afterHandler (hapi : api.Documented view) (calls : List SelfTestCall)
    (s : σ) : view (calls.foldl api.afterHandler s) = view s := by
  induction calls generalizing s with
  | nil => rfl
  | cons c calls ih =>
    rw [List.foldl_cons, ih]
    cases c with
    | wifiConnect => exact hapi.connect s
    | mgrDeinit => exact hapi.deinit s
    | give | take | eraseFlash | unregister | restart => rfl

/-- An event, or a statement of the handler. -/
theorem ProvInv.handle (hapi : api.Documented view) (hs : ProvInv view d) {i : SelfTestInput}
    (hi : ∀ timeout, i ≠ .setup timeout)
    (hevent : i = .event .staGotIp → (view d.idf).config.isSome = true)
    (h : d.handle api i = some (d', o)) : ProvInv view d' ∧ .test .restart ∉ o := by
  obtain ⟨⟨t, calls⟩, hstep, he⟩ := Option.map_eq_some_iff.mp h
  simp only [selfTest] at hstep
  split_ifs at hstep with hdead
  have hview := hapi.afterHandler calls d.idf
  have hquiet : .restart ∉ calls → .test .restart ∉ calls.map (ProvOut.test (γ := γ)) := by
    intro hrestart hmem
    obtain ⟨c, hc, hcr⟩ := List.mem_map.mp hmem
    cases hcr
    exact hrestart hc
  cases he
  cases i with
  | setup timeout => exact absurd rfl (hi timeout)
  | event e =>
    dsimp only at hstep
    split_ifs at hstep with hidle
    cases hstep
    refine ⟨hs.signal hview rfl rfl hs.full fun hgive => ?_, hquiet (by simp)⟩
    cases e with
    | staGotIp => exact hevent rfl
    | _ => simp [eventHandler] at hgive
  | handler =>
    dsimp only at hstep
    split at hstep
    · cases hstep
    · rename_i x rest hhandler
      have hrest : .give ∈ rest → (view d.idf).config.isSome = true := by
        intro hgive
        refine hs.gives ?_
        rw [hhandler]
        exact List.mem_cons_of_mem x hgive
      cases x with
      | give =>
        have hsome : (view d.idf).config.isSome = true := by
          refine hs.gives ?_
          rw [hhandler]
          exact List.mem_cons_self
        simp only [handlerStep, Option.some.injEq] at hstep
        split_ifs at hstep <;> cases hstep
        · exact ⟨hs.signal hview rfl rfl hs.full hs.gives, hquiet (by simp)⟩
        · exact ⟨hs.signal hview rfl rfl hs.full hs.gives, hquiet (by simp)⟩
        · exact ⟨hs.signal hview rfl rfl (fun _ _ => hsome) hrest, hquiet (by simp)⟩
      | _ =>
        cases hstep
        exact ⟨hs.signal hview rfl rfl hs.full hrest, hquiet (by simp)⟩

/-- `setup_provisioning` has taken the semaphore, or goes on after that. -/
theorem ProvInv.of_taken (hs : ProvInv view d) (hdone : d.done = true) {s : σ} {flash : Option γ}
    {nvs : Bool} {t : SelfTest} (hview : view s = { view d.idf with flash := flash, nvs := nvs })
    (htaken : t.pc.Taken) (hhandler : t.handler = d.test.handler)
    (hvalid : t.provisioning_valid = true →
      nvs = true ∧ flash = (view d.idf).config ∧ (view d.idf).config.isSome = true)
    (hinvalid : t.provisioning_valid = false → nvs = false ∧ flash = none)
    (hreturned : t.pc = .returned → t.provisioning_valid = true)
    (hrestarted : t.pc = .restarted → t.provisioning_valid = false) :
    ProvInv view { d with idf := s, test := t } where
  timely := by
    rw [hview]
    exact hs.timely
  waits _ := hdone
  idle := by
    rw [hview]
    exact hs.idle
  full h := absurd htaken h
  gives h := by
    rw [hview]
    exact hs.gives (hhandler ▸ h)
  before h := absurd htaken h
  stored h := absurd htaken h
  valid _ := by
    rw [hview]
    exact hvalid
  invalid _ := by
    rw [hview]
    exact hinvalid
  returned := hreturned
  restarted := hrestarted

/-- `setup_provisioning` goes on from its wait. -/
theorem ProvInv.setup (hapi : api.Documented view) (hs : ProvInv view d) (hdone : d.done = true)
    {timeout : Bool} {a : ProvAnswer} (ha : a.ret = espOk)
    (h : d.setup api timeout a = some (d', o)) :
    ProvInv view d' ∧ (.test .restart ∈ o → d'.test.pc = .restarted) := by
  obtain ⟨⟨t, calls⟩, hstep, he⟩ := Option.bind_eq_some_iff.mp h
  obtain ⟨s, hcall, he⟩ := Option.map_eq_some_iff.mp he
  simp only [selfTest] at hstep
  split_ifs at hstep with hdead
  cases he
  have hsem := hs.full
  have hbefore := hs.before
  have hstored := hs.stored
  have hvalid := hs.valid
  have hinvalid := hs.invalid
  -- Only the statement that takes the semaphore may erase.
  have hsame : .eraseFlash ∉ calls → view s =
      { view d.idf with flash := (view d.idf).flash, nvs := (view d.idf).nvs } := by
    intro herase
    rw [if_neg herase] at hcall
    cases hcall
    rfl
  unfold setupStep at hstep
  cases hpc : d.test.pc with
  | wait =>
    simp only [hpc, SetupPc.Taken] at hstep hsem hbefore hstored
    split_ifs at hstep
    cases hstep
    rw [if_neg List.not_mem_nil] at hcall
    cases hcall
    have hd : ProvInv view { d with test := { d.test with pc := .take } } := {
      timely := hs.timely
      waits := fun _ => hdone
      idle := hs.idle
      full := fun _ => hsem id
      gives := hs.gives
      before := fun _ => hbefore id
      stored := fun _ => hstored id
      valid := fun h => h.elim
      invalid := fun h => h.elim
      returned := fun h => by cases h
      restarted := fun h => by cases h }
    simpa using hd
  | take =>
    simp only [hpc, SetupPc.Taken] at hstep hsem hbefore hstored
    split_ifs at hstep with hfull <;> cases hstep
    · -- The connection was signalled with the credentials of the flash.
      have hsome := hsem id hfull
      obtain ⟨hnvs, hflash⟩ := hstored id (hs.wifi_of_config hsome)
      exact ⟨hs.of_taken hdone (hsame (by simp)) trivial rfl (fun _ => ⟨hnvs, hflash, hsome⟩)
        (fun h => by cases h) (fun h => by cases h) (fun h => by cases h), by simp⟩
    · rw [if_pos (by simp)] at hcall
      obtain ⟨flash, nvs, hview, herased⟩ := hapi.nvs_flash_erase hcall
      obtain ⟨rfl, rfl⟩ := herased ha
      refine ⟨hs.of_taken hdone hview trivial rfl (fun h => ?_) (fun _ => ⟨rfl, rfl⟩)
        (fun h => by cases h) (fun h => by cases h), by simp⟩
      exact absurd (h.symm.trans (hbefore id)) (by decide)
  | delay | unregister =>
    simp only [hpc, SetupPc.Taken] at hstep hvalid hinvalid
    cases hstep
    exact ⟨hs.of_taken hdone (hsame (by simp)) trivial rfl (hvalid trivial) (hinvalid trivial)
      (fun h => by cases h) (fun h => by cases h), by simp⟩
  | finish =>
    simp only [hpc, SetupPc.Taken] at hstep hvalid hinvalid
    split_ifs at hstep with hv <;> cases hstep
    · exact ⟨hs.of_taken hdone (hsame (by simp)) trivial rfl (hvalid trivial) (hinvalid trivial)
        (fun _ => hv) (fun h => by cases h), by simp⟩
    · exact ⟨hs.of_taken hdone (hsame (by simp)) trivial rfl (hvalid trivial) (hinvalid trivial)
        (fun h => by cases h) fun _ => by simpa using hv, fun _ => rfl⟩
  | returned => simp [hpc] at hstep
  | restarted => simp [hpc] at hstep

/-- A client sends credentials. -/
theorem ProvInv.receive (hapi : api.Documented view) (hs : ProvInv view d) {c : γ} {s : σ}
    (hreceive : api.receive d.idf c = some s) : ProvInv view { d with idf := s } := by
  obtain ⟨hserving, hview⟩ := hapi.receive hreceive
  have htimely := hs.timely.serving (b := true) hserving
  refine ⟨?_, hs.waits, ?_, ?_, ?_, hs.before, ?_, ?_, ?_, hs.returned, hs.restarted⟩
  all_goals simp only [hview]
  · exact htimely
  · intro h
    rw [(hs.idle h).2] at hserving
    cases hserving
  · exact fun _ _ => rfl
  · exact fun _ => rfl
  · intro hnot hwifi
    have hnvs := (hs.stored hnot hwifi).1
    exact ⟨hnvs, if_pos hnvs⟩
  · intro ht h
    have hnvs := (hs.valid ht h).1
    exact ⟨hnvs, if_pos hnvs, rfl⟩
  · intro ht h
    obtain ⟨hnvs, hflash⟩ := hs.invalid ht h
    refine ⟨hnvs, ?_⟩
    rw [hnvs]
    exact hflash

/-- A step keeps the invariant, and the law. -/
theorem ProvInv.step (hapi : api.Documented view) (hs : ProvInv view d) {i : ProvInput γ}
    (hC : FlashOk view d i) (h : (provDevice api s₀).step d i = some (d', o)) :
    ProvInv view d' ∧ ProvLaw view d d' o := by
  -- What holds of a step that makes no call of the set-up.
  have hlaw : ProvInv view d' → (∀ c ret, .call c ret ∉ o) →
      (.test .restart ∈ o → d'.test.pc = .restarted) → ProvInv view d' ∧ ProvLaw view d d' o := by
    intro hs' hcall hrestart
    refine ⟨hs', fun ret hmem => absurd hmem (hcall _ ret), fun ret hmem => absurd hmem (hcall _ ret),
      hs'.kept, fun hmem => ?_⟩
    have hpc := hrestart hmem
    have htaken : d'.test.pc.Taken := by
      rw [hpc]
      trivial
    exact (hs'.invalid htaken (hs'.restarted hpc)).2
  have htest : ∀ (calls : List SelfTestCall) (c : ProvCall) (ret : ℤ),
      .call c ret ∉ calls.map (ProvOut.test (γ := γ)) := by
    intro calls c ret hmem
    obtain ⟨c', -, hc⟩ := List.mem_map.mp hmem
    cases hc
  have hhandle : ∀ {d₁ : ProvDevice σ} {i : SelfTestInput}, d₁.handle api i = some (d', o) →
      ∀ c ret, .call c ret ∉ o := by
    intro d₁ i hstep
    obtain ⟨r, -, he⟩ := Option.map_eq_some_iff.mp hstep
    cases he
    exact htest r.2
  cases i with
  | restart =>
    cases h
    exact hlaw (.boot hapi d.idf) (by simp) (by simp)
  | call a => exact hs.call hapi hC h
  | setup timeout a =>
    dsimp only [provDevice] at h
    split_ifs at h with hdone
    obtain ⟨hs', hrestart⟩ := hs.setup hapi hdone hC h
    refine hlaw hs' ?_ hrestart
    obtain ⟨r, -, he⟩ := Option.bind_eq_some_iff.mp h
    obtain ⟨s, -, he⟩ := Option.map_eq_some_iff.mp he
    cases he
    exact htest r.2
  | event e =>
    dsimp only [provDevice] at h
    split_ifs at h with hrunning
    obtain ⟨s, hevent, h⟩ := Option.bind_eq_some_iff.mp h
    obtain ⟨-, hsome, hview⟩ := hapi.event hevent
    have hs₁ : ProvInv view { d with idf := s } :=
      hs.signal (t := d.test) hview rfl rfl hs.full hs.gives
    obtain ⟨hs', hrestart⟩ := hs₁.handle hapi (by simp)
      (fun he => by rw [hview]; exact hsome (SelfTestInput.event.inj he)) h
    exact hlaw hs' (hhandle h) fun hmem => absurd hmem hrestart
  | handler =>
    dsimp only [provDevice] at h
    split_ifs at h
    obtain ⟨hs', hrestart⟩ := hs.handle hapi (by simp) (by simp) h
    exact hlaw hs' (hhandle h) fun hmem => absurd hmem hrestart
  | receive c =>
    dsimp only [provDevice] at h
    split_ifs at h with hguard
    obtain ⟨s, hreceive, he⟩ := Option.map_eq_some_iff.mp h
    cases he
    exact hlaw (hs.receive hapi hreceive) (by simp) (by simp)

end

/-! ## Whole runs -/

/-- In every run over any number of restarts, in which an erase of the self test succeeds and the
station is initialized only with the flash, the provisioning service is started only when the flash has
no credentials, and the station only when it uses those of the flash; `setup_provisioning` returns only
then, and restarts the device only with none in the flash. Of the flash, the station and the manager no
more is assumed than what their documentation says. -/
theorem provisioning_law {σ γ : Type} {api : ProvApi σ γ} {view : σ → ProvState γ}
    (hapi : api.Documented view) (s₀ : σ) (run : List (ProvInput γ))
    (hflash : (provDevice api s₀).AllSteps run fun _ d i _ _ => FlashOk view d i) :
    (provDevice api s₀).AllSteps run fun _ d _ d' o => ProvLaw view d d' o :=
  hflash.mono_inv (I := fun _ d => ProvInv view d) (.boot hapi s₀)
    (fun _ _ _ _ _ hs hC hstep => (hs.step hapi hC hstep).1)
    fun _ _ _ _ _ hs hC hstep => (hs.step hapi hC hstep).2

/-! ## A flash, a station and a manager -/

/-- The call returns an object, and no error code. -/
def ProvCall.isCreate : ProvCall → Bool
  | .createSemaphore | .createEventGroup | .createWifiSta => true
  | _ => false

/-- A call that returns `ret` has succeeded. -/
def ProvCall.succeeds (c : ProvCall) (ret : ℤ) : Bool :=
  if c.isCreate then ret ≠ 0 else ret = espOk

/-- A call that does not create anything succeeds when it returns `ESP_OK`. -/
theorem ProvCall.succeeds_iff {c : ProvCall} (hc : c.isCreate = false) {ret : ℤ} :
    c.succeeds ret = true ↔ ret = espOk := by
  simp [ProvCall.succeeds, hc]

/-- What there is to know, and the calls that have succeeded since the start. -/
structure PlainIdf (γ : Type) where
  known : ProvState γ
  up : List ProvCall

/-- What a call of the set-up changes, when it returns `ret`. -/
def ProvState.after {γ : Type} (s : ProvState γ) (ret : ℤ) : ProvCall → ProvState γ
  | .nvsFlashInit => { s with nvs := s.nvs || ret = espOk }
  | .nvsFlashErase => if ret = espOk then { s with flash := none, nvs := false } else s
  | .wifiInit => if ret = espOk then { s with wifi := true, config := s.flash } else s
  | .mgrStartProvisioning => { s with serving := s.serving || ret = espOk }
  | _ => s

/-- The flash, the station and the manager, where every call can succeed or fail at any time. -/
def plainIdf (γ : Type) : ProvApi (PlainIdf γ) γ where
  restart s := ⟨{ flash := s.known.flash }, []⟩
  call s c a :=
    if c = .mgrIsProvisioned ∧ a.provisioned ≠ s.known.config.isSome then none
    else some ⟨s.known.after a.ret c, if c.succeeds a.ret then c :: s.up else s.up⟩
  connect s := s
  deinit s := s
  event s e :=
    if s.known.wifi = true ∧ (e = .staGotIp → s.known.config.isSome = true) then some s else none
  receive s c :=
    if s.known.serving then
      some { s with known := { s.known with
        config := some c, flash := if s.known.nvs then some c else s.known.flash } }
    else none

/-- They do what their documentation says. -/
theorem plainIdf_documented (γ : Type) : (plainIdf γ).Documented PlainIdf.known := by
  have hcall : ∀ {s : PlainIdf γ} {c : ProvCall} {a : ProvAnswer} {s' : PlainIdf γ},
      (plainIdf γ).call s c a = some s' →
        ¬ (c = .mgrIsProvisioned ∧ a.provisioned ≠ s.known.config.isSome) ∧
          s'.known = s.known.after a.ret c := by
    intro s c a s' h
    obtain ⟨hanswer, hs'⟩ := Option.ite_none_left_eq_some.mp h
    cases hs'
    exact ⟨hanswer, rfl⟩
  refine {
    restart := fun s => rfl
    nvs_flash_init := fun h => (hcall h).2
    nvs_flash_erase := fun {s a s'} h => ?_
    wifi_init := fun h hret hnvs => (hcall h).2.trans (if_pos hret)
    wifi_init_fails := fun h hret => (hcall h).2.trans (if_neg hret)
    is_provisioned := fun {s a s'} h => ⟨(hcall h).2, fun _ => ?_⟩
    start_provisioning := fun h => (hcall h).2
    others := fun {s c a s'} h hother => ?_
    connect := fun _ => rfl
    deinit := fun _ => rfl
    event := fun {s e s'} h => ?_
    receive := fun {s c s'} h => ?_ }
  · rw [(hcall h).2]
    by_cases hret : a.ret = espOk
    · exact ⟨none, false, if_pos hret, fun _ => ⟨rfl, rfl⟩⟩
    · exact ⟨s.known.flash, s.known.nvs, if_neg hret, fun h => absurd h hret⟩
  · by_contra hne
    exact (hcall h).1 ⟨rfl, hne⟩
  · rw [(hcall h).2]
    cases c <;> first | rfl | cases hother
  · obtain ⟨⟨hwifi, hsome⟩, hs'⟩ := Option.ite_none_right_eq_some.mp h
    cases hs'
    exact ⟨hwifi, hsome, rfl⟩
  · obtain ⟨hserving, hs'⟩ := Option.ite_none_right_eq_some.mp h
    cases hs'
    exact ⟨hserving, rfl⟩

/-- The calls of a set-up, when all succeed. -/
def setupCalls {γ : Type} (provisioned : Bool) : List (ProvInput γ) :=
  ([0, 0, 1, 0, 1, 0, 0, 0, 1] ++ List.replicate 6 espOk).map fun ret => .call ⟨ret, provisioned⟩

/-- The device is provisioned; after its next start it finds no network, and starts again without
credentials. -/
def twoBoots : List (ProvInput Bool) :=
  setupCalls false ++ [.receive true, .event .staGotIp, .handler, .handler] ++
    List.replicate 5 (.setup false ⟨espOk, false⟩) ++ .restart :: setupCalls true ++
    List.replicate 5 (.setup true ⟨espOk, false⟩) ++ .restart :: setupCalls false

/-- In these two provisionings and the start between them, the service and the station are started with
the flash that they need. -/
theorem provisioning_law_two_boots :
    ((provDevice (plainIdf Bool) ⟨{}, []⟩).run (.boot ⟨{}, []⟩) twoBoots).isSome = true ∧
    (provDevice (plainIdf Bool) ⟨{}, []⟩).AllSteps twoBoots
      fun _ d _ d' o => ProvLaw PlainIdf.known d d' o :=
  ⟨by decide +kernel, provisioning_law (plainIdf_documented Bool) ⟨{}, []⟩ twoBoots
    (by decide +kernel)⟩

end PartLib.Provisioning
