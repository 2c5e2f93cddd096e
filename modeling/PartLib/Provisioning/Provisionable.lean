import PartLib.Provisioning.Reboots

/-!
# The device can be provisioned

Whatever has happened to a device, it can still be provisioned with any given credentials
(`can_provision`): after a restart `setup_provisioning` either starts the service, which takes them, or
tests those of the flash, and a failed test erases them and restarts the device. What is assumed of the
calls is that they can succeed when they have what they need.
-/

namespace PartLib.Provisioning

/-- The calls of the set-up that have to have succeeded before a call. -/
def ProvCall.needs : ProvCall → List ProvCall
  | .nvsFlashInit | .nvsFlashErase | .netifInit | .createSemaphore | .eventLoopCreate
  | .createEventGroup => []
  | .registerProv | .registerWifi | .registerIp => [.eventLoopCreate]
  | .createWifiSta => [.netifInit, .eventLoopCreate]
  | .wifiInit => [.nvsFlashInit, .eventLoopCreate]
  | .mgrInit | .wifiSetMode => [.wifiInit]
  | .mgrIsProvisioned | .mgrEndpointCreate | .mgrStartProvisioning | .mgrDeinit => [.mgrInit]
  | .mgrEndpointRegister => [.mgrStartProvisioning]
  | .wifiStart => [.wifiInit, .wifiSetMode]

/-- What the documentation says of the calls that have what they need: they can succeed. `up` tells
which have since the start. -/
structure ProvApi.Serves {σ γ : Type} (api : ProvApi σ γ) (view : σ → ProvState γ)
    (up : σ → List ProvCall) : Prop where
  restart : ∀ s, up (api.restart s) = []
  succeeded : ∀ {s c a s'}, api.call s c a = some s' →
    up s' = if c.succeeds a.ret then c :: up s else up s
  /-- The flash can be initialized, at the latest after an erase. -/
  flash : ∀ s, .nvsFlashInit ∉ up s → ∃ a s', api.call s .nvsFlashInit a = some s' ∧
    (a.ret = espOk ∨ a.ret = espErrNvsNoFreePages ∨ a.ret = espErrNvsNewVersionFound)
  erase : ∀ s, ∃ a s', api.call s .nvsFlashErase a = some s' ∧ a.ret = espOk
  erased : ∀ s, .nvsFlashErase ∈ up s → .nvsFlashInit ∉ up s →
    ∃ a s', api.call s .nvsFlashInit a = some s' ∧ a.ret = espOk
  call : ∀ s c, c ≠ .nvsFlashInit → c ∉ up s → (∀ c' ∈ c.needs, c' ∈ up s) →
    ∃ a s', api.call s c a = some s' ∧ c.succeeds a.ret = true
  event : ∀ s, (view s).wifi = true → (view s).config.isSome = true →
    ∃ s', api.event s .staGotIp = some s'
  receive : ∀ s c, (view s).serving = true → ∃ s', api.receive s c = some s'

section

variable {σ γ : Type} {api : ProvApi σ γ} {view : σ → ProvState γ} {up : σ → List ProvCall} {s₀ s : σ}
  {d : ProvDevice σ}

/-! ## The set-up -/

variable (api s₀) in
/-- With the rest `m` of the set-up before it, the device can come to a state that `P` tells. -/
def SetupReaches (P : ProvDevice σ → Prop) (s : σ) (m : ProvSetup Unit) : Prop :=
  ∃ d', (provDevice api s₀).Reaches ⟨s, m.run, selfTest.init⟩ d' ∧ P d'

variable {P : ProvDevice σ → Prop} {c : ProvCall} {k : ProvAnswer → ProvSetup Unit}

/-- A call, and then the rest. -/
theorem setupReaches_call {a : ProvAnswer} {s' : σ} (hcall : api.call s c a = some s')
    (hk : SetupReaches api s₀ P s' (k a)) : SetupReaches api s₀ P s (provCall c >>= k) := by
  obtain ⟨d', hreach, hP⟩ := hk
  have hstep : (provDevice api s₀).step ⟨s, (provCall c >>= k).run, selfTest.init⟩ (.call a) =
      some (⟨s', (k a).run, selfTest.init⟩, [.call c a.ret]) := by
    show (api.call s c a).map _ = _
    rw [hcall]
    rfl
  exact ⟨d', .head hstep hreach, hP⟩

/-- A call that is checked and succeeds, and then the rest. -/
theorem setupReaches_check {a : ProvAnswer} {s' : σ} (hcall : api.call s c a = some s')
    (hret : a.ret = espOk) (hk : SetupReaches api s₀ P s' (k a)) :
    SetupReaches api s₀ P s (provCheck c >>= k) := by
  have heq : provCheck c >>= k =
      provCall c >>= fun a => (if a.ret = espOk then pure a else throw ()) >>= k := by
    unfold provCheck
    rw [bind_assoc]
  rw [heq]
  refine setupReaches_call hcall ?_
  rw [if_pos hret]
  exact hk

variable (view up) in
/-- What there is to know is `v`, and the calls that have succeeded are those of `l`, but for an
erase. -/
structure SetUp (s : σ) (v : ProvState γ) (l : List ProvCall) : Prop where
  view : view s = v
  up : ∀ c, c ≠ .nvsFlashErase → (c ∈ up s ↔ c ∈ l)

variable {v : ProvState γ} {l : List ProvCall}

/-- A call that succeeds is among them then. -/
theorem SetUp.called (hserves : api.Serves view up) (hs : SetUp view up s v l) {a : ProvAnswer}
    {s' : σ} (hcall : api.call s c a = some s') (hok : c.succeeds a.ret = true) :
    SetUp view up s' (view s') (c :: l) := by
  refine ⟨rfl, fun c' hc' => ?_⟩
  rw [hserves.succeeded hcall, if_pos hok, List.mem_cons, List.mem_cons, hs.up c' hc']

/-- A call can succeed that has what it needs. -/
theorem SetUp.call (hserves : api.Serves view up) (hs : SetUp view up s v l)
    (hc : c ≠ .nvsFlashInit ∧ c ≠ .nvsFlashErase ∧ c ∉ l)
    (hneeds : ∀ c' ∈ c.needs, c' ≠ .nvsFlashErase ∧ c' ∈ l) :
    ∃ a s', api.call s c a = some s' ∧ c.succeeds a.ret = true ∧
      SetUp view up s' (view s') (c :: l) := by
  obtain ⟨hinit, herase, hnew⟩ := hc
  obtain ⟨a, s', hcall, hok⟩ := hserves.call s c hinit (fun hmem => hnew ((hs.up c herase).mp hmem))
    fun c' hc' => (hs.up c' (hneeds c' hc').1).mpr (hneeds c' hc').2
  exact ⟨a, s', hcall, hok, hs.called hserves hcall hok⟩

/-- A call that changes nothing of what there is to know, whose result is not checked. -/
theorem setupReaches_quietCall (hapi : api.Documented view) (hserves : api.Serves view up)
    (hs : SetUp view up s v l) (hother : c.isOther = true)
    (hc : c ≠ .nvsFlashInit ∧ c ≠ .nvsFlashErase ∧ c ∉ l)
    (hneeds : ∀ c' ∈ c.needs, c' ≠ .nvsFlashErase ∧ c' ∈ l)
    (hk : ∀ a s', c.succeeds a.ret = true → SetUp view up s' v (c :: l) →
      SetupReaches api s₀ P s' (k a)) : SetupReaches api s₀ P s (provCall c >>= k) := by
  obtain ⟨a, s', hcall, hok, hs'⟩ := hs.call hserves hc hneeds
  rw [hapi.others hcall hother, hs.view] at hs'
  exact setupReaches_call hcall (hk a s' hok hs')

/-- A call that changes nothing of what there is to know, and is checked. -/
theorem setupReaches_quietCheck (hapi : api.Documented view) (hserves : api.Serves view up)
    (hs : SetUp view up s v l) (hother : c.isOther = true ∧ c.isCreate = false)
    (hc : c ≠ .nvsFlashInit ∧ c ≠ .nvsFlashErase ∧ c ∉ l)
    (hneeds : ∀ c' ∈ c.needs, c' ≠ .nvsFlashErase ∧ c' ∈ l)
    (hk : ∀ a s', SetUp view up s' v (c :: l) → SetupReaches api s₀ P s' (k a)) :
    SetupReaches api s₀ P s (provCheck c >>= k) := by
  obtain ⟨a, s', hcall, hok, hs'⟩ := hs.call hserves hc hneeds
  rw [hapi.others hcall hother.1, hs.view] at hs'
  have hret : a.ret = espOk := (ProvCall.succeeds_iff hother.2).mp hok
  exact setupReaches_check hcall hret (hk a s' hs')

/-- The flash is initialized, with what was in it or with nothing. -/
theorem setupReaches_initFlash (hapi : api.Documented view) (hserves : api.Serves view up)
    {flash : Option γ} {k : Unit → ProvSetup Unit} (hs : SetUp view up s { flash := flash } [])
    (hk : ∀ s' flash', flash' = none ∨ flash' = flash →
      SetUp view up s' { flash := flash', nvs := true } [.nvsFlashInit] →
        SetupReaches api s₀ P s' (k ())) : SetupReaches api s₀ P s (initFlash >>= k) := by
  unfold initFlash
  rw [bind_assoc]
  have hnew : .nvsFlashInit ∉ up s := by simp [hs.up .nvsFlashInit (by decide)]
  obtain ⟨a, s₁, hinit, hret⟩ := hserves.flash s hnew
  refine setupReaches_call hinit ?_
  have hview₁ := hapi.nvs_flash_init hinit
  rcases hret with hok | hret
  · have hs₁ := hs.called hserves hinit ((ProvCall.succeeds_iff rfl).mpr hok)
    rw [if_neg (by rw [hok]; decide)]
    refine hk s₁ flash (.inr rfl) ?_
    rw [hview₁, hs.view] at hs₁
    simpa [hok] using hs₁
  · -- The flash is erased first.
    have hfails : a.ret ≠ espOk := by rcases hret with h | h <;> rw [h] <;> decide
    rw [if_pos hret, bind_assoc]
    obtain ⟨b, s₂, herase, hb⟩ := hserves.erase s₁
    refine setupReaches_check herase hb ?_
    rw [bind_assoc]
    have hup₁ : up s₁ = up s := by
      rw [hserves.succeeded hinit, if_neg (mt (ProvCall.succeeds_iff rfl).mp hfails)]
    have hup₂ : up s₂ = .nvsFlashErase :: up s := by
      rw [hserves.succeeded herase, if_pos ((ProvCall.succeeds_iff rfl).mpr hb), hup₁]
    obtain ⟨e, s₃, hagain, he⟩ := hserves.erased s₂ (by simp [hup₂]) (by simp [hup₂, hnew])
    refine setupReaches_check hagain he ?_
    refine hk s₃ none (.inl rfl) ⟨?_, fun c hc => ?_⟩
    · obtain ⟨flash', nvs, hview₂, herased⟩ := hapi.nvs_flash_erase herase
      obtain ⟨rfl, rfl⟩ := herased hb
      rw [hapi.nvs_flash_init hagain, hview₂, hview₁, hs.view]
      simp [he]
    · rw [hserves.succeeded hagain, if_pos ((ProvCall.succeeds_iff rfl).mpr he), hup₂,
        List.mem_cons, List.mem_cons, hs.up c hc]
      simp [hc]

/-- The set-up is done, and the service has been started. -/
structure ServiceStarted (view : σ → ProvState γ) (d : ProvDevice σ) : Prop where
  prog : d.prog = .pure (.ok ())
  test : d.test = selfTest.init
  view : view d.idf = { nvs := true, wifi := true, serving := true }

/-- The set-up is done, and the station has been started with the credentials of the flash. -/
structure StationStarted (view : σ → ProvState γ) (old : γ) (d : ProvDevice σ) : Prop where
  prog : d.prog = .pure (.ok ())
  test : d.test = selfTest.init
  view : view d.idf = { flash := some old, nvs := true, wifi := true, config := some old }

variable (s₀) in
/-- After a restart, the set-up can start the service or, if there are credentials in the flash, the
station. -/
theorem boot_reaches (hapi : api.Documented view) (hserves : api.Serves view up) (s : σ) :
    ∃ d', (provDevice api s₀).Reaches (.boot (api.restart s)) d' ∧
      (ServiceStarted view d' ∨ ∃ old, (view s).flash = some old ∧ StationStarted view old d') := by
  have hs : SetUp view up (api.restart s) { flash := (view s).flash } [] :=
    ⟨hapi.restart s, fun c _ => by rw [hserves.restart]⟩
  show SetupReaches api s₀ _ _ setupProvisioning
  unfold setupProvisioning initEvents
  refine setupReaches_initFlash hapi hserves hs fun s₁ flash hflash hs₁ => ?_
  simp only [bind_assoc]
  refine setupReaches_quietCheck hapi hserves hs₁ (by decide) (by decide) (by decide)
    fun _ s₂ hs₂ => ?_
  refine setupReaches_quietCall hapi hserves hs₂ (by decide) (by decide) (by decide)
    fun sem s₃ hsem hs₃ => ?_
  have hsem : sem.ret ≠ 0 := by simpa [ProvCall.succeeds, ProvCall.isCreate] using hsem
  rw [if_neg hsem]
  simp only [bind_assoc]
  refine setupReaches_quietCheck hapi hserves hs₃ (by decide) (by decide) (by decide)
    fun _ s₄ hs₄ => ?_
  refine setupReaches_quietCall hapi hserves hs₄ (by decide) (by decide) (by decide)
    fun _ s₅ _ hs₅ => ?_
  refine setupReaches_quietCheck hapi hserves hs₅ (by decide) (by decide) (by decide)
    fun _ s₆ hs₆ => ?_
  refine setupReaches_quietCheck hapi hserves hs₆ (by decide) (by decide) (by decide)
    fun _ s₇ hs₇ => ?_
  refine setupReaches_quietCheck hapi hserves hs₇ (by decide) (by decide) (by decide)
    fun _ s₈ hs₈ => ?_
  refine setupReaches_quietCall hapi hserves hs₈ (by decide) (by decide) (by decide)
    fun _ s₉ _ hs₉ => ?_
  -- The station is initialized, with the credentials of the flash.
  obtain ⟨a, s₁₀, hcall, hok, hs₁₀⟩ := hs₉.call hserves (c := .wifiInit) (by decide) (by decide)
  have hret : a.ret = espOk := (ProvCall.succeeds_iff rfl).mp hok
  refine setupReaches_check hcall hret ?_
  rw [hapi.wifi_init hcall hret (by rw [hs₉.view]), hs₉.view] at hs₁₀
  refine setupReaches_quietCheck hapi hserves hs₁₀ (by decide) (by decide) (by decide)
    fun _ s₁₁ hs₁₁ => ?_
  obtain ⟨b, s₁₂, hanswer, hok, hs₁₂⟩ := hs₁₁.call hserves (c := .mgrIsProvisioned) (by decide)
    (by decide)
  have hret : b.ret = espOk := (ProvCall.succeeds_iff rfl).mp hok
  refine setupReaches_check hanswer hret ?_
  obtain ⟨hsame, hprovisioned⟩ := hapi.is_provisioned hanswer
  have hprovisioned := hprovisioned hret
  rw [hsame, hs₁₁.view] at hs₁₂
  rw [hs₁₁.view] at hprovisioned
  cases flash with
  | none =>
    rw [if_neg (by simp [hprovisioned])]
    unfold startService
    refine setupReaches_quietCall hapi hserves hs₁₂ (by decide) (by decide) (by decide)
      fun _ s₁₃ _ hs₁₃ => ?_
    obtain ⟨e, s₁₄, hstart, hok, hs₁₄⟩ := hs₁₃.call hserves (c := .mgrStartProvisioning) (by decide)
      (by decide)
    have hret : e.ret = espOk := (ProvCall.succeeds_iff rfl).mp hok
    refine setupReaches_check hstart hret ?_
    rw [hapi.start_provisioning hstart, hs₁₃.view] at hs₁₄
    refine setupReaches_quietCall hapi hserves hs₁₄ (by decide) (by decide) (by decide)
      fun _ s₁₅ _ hs₁₅ => ?_
    exact ⟨_, .refl _, .inl ⟨rfl, rfl, by rw [hs₁₅.view]; simp [hret]⟩⟩
  | some old =>
    rw [if_pos (by simp [hprovisioned])]
    unfold wifiInitSta
    refine setupReaches_quietCall hapi hserves hs₁₂ (by decide) (by decide) (by decide)
      fun _ s₁₃ _ hs₁₃ => ?_
    refine setupReaches_quietCheck hapi hserves hs₁₃ (by decide) (by decide) (by decide)
      fun _ s₁₄ hs₁₄ => ?_
    refine setupReaches_quietCheck hapi hserves hs₁₄ (by decide) (by decide) (by decide)
      fun _ s₁₅ hs₁₅ => ?_
    refine ⟨_, .refl _, .inr ⟨old, ?_, rfl, rfl, hs₁₅.view⟩⟩
    exact (hflash.resolve_left (Option.some_ne_none old)).symm

/-! ## The self test -/

variable (s₀) in
/-- Once the service has been started, it can take credentials, with which the self test ends well. -/
theorem service_reaches (hapi : api.Documented view) (hserves : api.Serves view up)
    (hd : ServiceStarted view d) (c : γ) :
    ∃ d', (provDevice api s₀).Reaches d d' ∧ d'.test.pc = .returned ∧ d'.test.aborted = false ∧
      (view d'.idf).flash = some c ∧ (view d'.idf).config = some c := by
  obtain ⟨idf, prog, test⟩ := d
  obtain ⟨rfl, rfl, hview⟩ := hd
  dsimp only at hview
  obtain ⟨s₁, hreceive⟩ := hserves.receive idf c (by rw [hview])
  obtain ⟨-, hview₁⟩ := hapi.receive hreceive
  rw [hview] at hview₁
  obtain ⟨s₂, hevent⟩ := hserves.event s₁ (by rw [hview₁]) (by rw [hview₁]; rfl)
  obtain ⟨-, -, hview₂⟩ := hapi.event hevent
  have hreceived : (provDevice api s₀).step ⟨idf, .pure (.ok ()), selfTest.init⟩ (.receive c) =
      some (⟨s₁, .pure (.ok ()), selfTest.init⟩, [.received c]) := by
    show (api.receive idf c).map _ = _
    rw [hreceive]
    rfl
  have hgot : (provDevice api s₀).step ⟨s₁, .pure (.ok ()), selfTest.init⟩ (.event .staGotIp) =
      some (⟨s₂, .pure (.ok ()), { selfTest.init with handler := [.give, .setBits] }⟩, []) := by
    show (api.event s₁ .staGotIp).bind _ = _
    rw [hevent]
    rfl
  -- The handler gives the semaphore, and the self test takes it.
  refine ⟨_, .head hreceived (.head hgot ⟨[.handler, .handler] ++
    List.replicate 5 (.setup false ⟨espOk, false⟩), _, rfl⟩), rfl, rfl, ?_, ?_⟩
  · show (view s₂).flash = some c
    rw [hview₂, hview₁]
    rfl
  · show (view s₂).config = some c
    rw [hview₂, hview₁]

variable (s₀) in
/-- Credentials that do not lead to a connection are erased, and the device restarts. -/
theorem forget_reaches (hapi : api.Documented view) (hserves : api.Serves view up) {old : γ}
    (hd : StationStarted view old d) :
    ∃ d', (provDevice api s₀).Reaches d d' ∧ d'.test.pc = .restarted ∧
      (view d'.idf).flash = none := by
  obtain ⟨idf, prog, test⟩ := d
  obtain ⟨rfl, rfl, -⟩ := hd
  obtain ⟨a, s₁, herase, ha⟩ := hserves.erase idf
  obtain ⟨_, _, hview, herased⟩ := hapi.nvs_flash_erase herase
  have htake : (provDevice api s₀).step ⟨idf, .pure (.ok ()), { selfTest.init with pc := .take }⟩
      (.setup false a) = some (⟨s₁, .pure (.ok ()), { selfTest.init with pc := .delay }⟩,
        [.test (.take false), .test .eraseFlash]) := by
    show (api.call idf .nvsFlashErase a).map _ = _
    rw [herase]
    rfl
  refine ⟨_, .head (i := .setup true a) rfl (.head htake
    ⟨List.replicate 3 (.setup false ⟨espOk, false⟩), _, rfl⟩), rfl, ?_⟩
  show (view s₁).flash = none
  rw [hview, (herased ha).1]

end

/-! ## The calls of a device -/

/-- A call of `plainIdf` can return anything. -/
theorem plainIdf_call {γ : Type} (s : PlainIdf γ) (c : ProvCall) (ret : ℤ) :
    ∃ s', (plainIdf γ).call s c ⟨ret, s.known.config.isSome⟩ = some s' :=
  ⟨_, if_neg (by simp)⟩

/-- So every call can succeed. -/
theorem plainIdf_serves (γ : Type) : (plainIdf γ).Serves PlainIdf.known PlainIdf.up where
  restart _ := rfl
  succeeded {s c a s'} hcall := by
    obtain ⟨-, hs'⟩ := Option.ite_none_left_eq_some.mp hcall
    cases hs'
    rfl
  flash s _ := by
    obtain ⟨s', hcall⟩ := plainIdf_call s .nvsFlashInit espOk
    exact ⟨_, s', hcall, .inl rfl⟩
  erase s := by
    obtain ⟨s', hcall⟩ := plainIdf_call s .nvsFlashErase espOk
    exact ⟨_, s', hcall, rfl⟩
  erased s _ _ := by
    obtain ⟨s', hcall⟩ := plainIdf_call s .nvsFlashInit espOk
    exact ⟨_, s', hcall, rfl⟩
  call s c _ _ _ := by
    obtain ⟨s', hcall⟩ := plainIdf_call s c (if c.isCreate then 1 else espOk)
    exact ⟨_, s', hcall, by cases c <;> rfl⟩
  event s hwifi hsome := ⟨s, if_pos ⟨hwifi, fun _ => hsome⟩⟩
  receive s _ hserving := ⟨_, if_pos hserving⟩

end PartLib.Provisioning
