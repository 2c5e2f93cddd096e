import PartLib.I2c.PortRuns

/-!
# A port whose driver could not be installed

When an installation fails, `i2c_setup_port` has already deleted the driver, but the record still says
that the old configuration is installed. A device with the recorded configuration then does not
install the driver again: its calls fail, one after another, however many there are. Only a device
with another configuration, whose installation succeeds, brings the port back.
-/

namespace PartLib.I2c.Port

/-- The port has no driver, and the record is `st`. -/
def Dead (st : I2cPortState) (b : PortBus I2cDriver) : Prop := b.driver.installed = none ∧ b.state = st

/-- The port behind its mutex, while there is no driver. -/
def deadGuard {δ χ : Type} (api : I2cApi δ χ) (view : δ → I2cDriver) (st : I2cPortState) :
    Guard (PortBus δ) χ PortReq.Ans where
  access := portAccess api
  inv b := Dead st (b.known view)
  admits _ _ := True

/-- Without a driver no transaction begins. -/
def DeadOk (b : PortBus I2cDriver) : PortReq → Prop
  | .cmdBegin _ => b.driver.installed = none
  | _ => True

section

variable {δ χ : Type} {api : I2cApi δ χ} {view : δ → I2cDriver} {st : I2cPortState}
  {max_stretch : UInt32} {dev : PortDev} {α β : Type}

variable (api view) in
/-- The part `x` of a critical section leaves the port without a driver, with the result that `Q`
tells. -/
def DeadPart (st : I2cPortState) (x : PortM α) (Q : Except EspError α → Prop) : Prop :=
  Critical (deadGuard api view st) (fun b r _ => DeadOk (b.known view) r)
    (fun b => Dead st (b.known view)) x fun _ b res => Dead st (b.known view) ∧ Q res

/-- One part and then another. -/
theorem DeadPart.bind {x : PortM α} {f : α → PortM β} {Q : Except EspError α → Prop}
    {R : Except EspError β → Prop} (hx : DeadPart api view st x Q)
    (hf : ∀ a, Q (.ok a) → DeadPart api view st (f a) R) (he : ∀ e, Q (.error e) → R (.error e)) :
    DeadPart api view st (x >>= f) R :=
  Critical.bind hx (fun _ a b hb => hf a hb.2 b hb.1) fun _ _ e hb => ⟨hb.1, he e hb.2⟩

/-- A result, without a request. -/
theorem DeadPart.pure {a : α} {Q : Except EspError α → Prop} (h : Q (.ok a)) :
    DeadPart api view st (Pure.pure a) Q := .result rfl fun _ hb => ⟨hb, h⟩

/-- Requests that leave the port as it is. -/
theorem DeadPart.leaves (hapi : api.Documented view) {x : PortM α} (hx : x.run.Accesses leaves) :
    DeadPart api view st x fun _ => True :=
  fun b hb => Program.wpInside_mono (fun _ _ _ h => ⟨h.1, trivial⟩)
    (hx.wpInside (P := fun b => Dead st (b.known view)) (fun b r y hr hb => by
      obtain ⟨hstate, hdrv, -⟩ := hapi.leaves hr b y
      exact ⟨by cases r <;> first | exact hb.1 | trivial, hdrv.trans hb.1, hstate.trans hb.2⟩) hb)

/-- A device whose configuration is recorded does not install the driver. -/
theorem setupDriver_dead (hcfg : cfgEqual dev.cfg st.config = true) :
    DeadPart api view st (setupDriver dev) fun _ => True := by
  unfold setupDriver
  refine DeadPart.bind (Q := fun res => res = .ok st.config) ?_ (fun config hconfig => ?_)
    fun _ _ => trivial
  · refine Critical.request (r := .config) (f := .ok) rfl fun b y hb _ => ⟨trivial, hb, ?_⟩
    rw [← hb.2]
    rfl
  · rw [Except.ok.injEq] at hconfig
    rw [hconfig, if_pos hcfg]
    exact .pure trivial

/-- A transfer of the device fails. -/
theorem transfer_dead (hapi : api.Documented view) (hcfg : cfgEqual dev.cfg st.config = true)
    (cmds : List I2cCmd) :
    DeadPart api view st (transfer max_stretch dev cmds) fun res => errorOf res ≠ none := by
  unfold transfer i2cSetupPort
  refine DeadPart.bind (Q := fun _ => True)
    (.bind (setupDriver_dead hcfg) (fun _ _ => .leaves hapi (setupTimeout_leaves _ _))
      fun _ _ => trivial)
    (fun _ _ => .bind (.leaves hapi (buildLink_leaves cmds)) (fun link _ => ?_)
      fun _ _ => by simp [errorOf])
    fun _ _ => by simp [errorOf]
  refine Critical.request (r := .cmdBegin link) (f := id) rfl fun b y hb _ => ⟨hb.1, ?_, ?_⟩
  · obtain ⟨hstate, hdrv, -⟩ := hapi.leaves (r := .cmdBegin link) rfl b y
    exact ⟨hdrv.trans hb.1, hstate.trans hb.2⟩
  · have hrefused : (portAccess api b (.cmdBegin link) y).2 = .error .invalidState :=
      hapi.cmdBegin_refuses hb.1 link y
    simp only [deadGuard, id, hrefused]
    simp [errorOf]

/-- A call for the device fails. -/
theorem portBody_dead (hapi : api.Documented view) {c : PortCall}
    (hcfg : cfgEqual c.dev.cfg st.config = true) :
    Guarded (deadGuard api view st) (fun _ _ b r _ => DeadOk (b.known view) r)
      (fun _ _ res => errorOf res ≠ none) c (c.body max_stretch).run [] none := by
  refine portBody_guarded_of_transfer (fun _ _ => by simp [errorOf]) (fun _ => by simp [errorOf])
    fun _ => ?_
  exact transfer_dead hapi hcfg c.cmds

end

section

variable {τ : Type} [DecidableEq τ] {δ χ : Type} {api : I2cApi δ χ} {view : δ → I2cDriver} {d₀ : δ}

/-- A pool in which no call is in progress is as one that starts with its resource. -/
theorem portPool_init_of_idle (hapi : api.Documented view) (h0 : (view d₀).installed = none)
    {max_stretch : UInt32} {inputs : List (PoolInput τ PortCall χ)}
    {s : Pool τ PortCall (PortBus δ) PortReq.Ans (Except EspError (List UInt8))}
    {os : List (PoolOut τ PortCall PortReq.Ans (Except EspError (List UInt8)))}
    (hrun : (portPool τ api max_stretch { driver := d₀ }).run
      (portPool τ api max_stretch { driver := d₀ }).init inputs = some (s, os))
    (hidle : ∀ t, s.task t = none) : (portPool τ api max_stretch s.resource).init = s := by
  have hadm : (portPool τ api max_stretch { driver := d₀ }).AllSteps inputs fun _ s i _ _ =>
      (portGuard api view False).AdmitsStep (fun _ => True) s i :=
    fun _ _ _ _ _ _ => ⟨fun _ _ _ => trivial, fun _ _ _ _ _ _ _ _ => False.elim⟩
  have hinv : GuardInv (portGuard api view False)
      (fun c _ b r _ => PortOk False max_stretch c.dev (b.known view) r) PortCallOk s :=
    hadm.inv (I := fun _ s => GuardInv (portGuard api view False)
        (fun c _ b r _ => PortOk False max_stretch c.dev (b.known view) r) PortCallOk s)
      (guardInv_init (portInv_init h0))
      (fun _ _ _ _ _ hs hi hstep =>
        (guarded_step (fun c _ => portBody_guarded hapi c) hs hi hstep).1)
      (List.prefix_refl inputs) hrun
  obtain ⟨owner, resource, task⟩ := s
  have hnone : owner = none := by
    cases owner with
    | none => rfl
    | some t => exact (hinv.idle t (hidle t) rfl).elim
  have htask : task = fun _ => none := funext hidle
  rw [hnone, htask]
  rfl

/-- When a run of the port has come to rest without a driver, as after an installation that failed,
every call that any tasks then make for devices with the recorded configuration fails: no transaction
begins, no driver is installed, and the record stays. -/
theorem portPool_dead (hapi : api.Documented view) (h0 : (view d₀).installed = none)
    {max_stretch : UInt32} {inputs : List (PoolInput τ PortCall χ)}
    {s : Pool τ PortCall (PortBus δ) PortReq.Ans (Except EspError (List UInt8))}
    {os : List (PoolOut τ PortCall PortReq.Ans (Except EspError (List UInt8)))}
    (hrun : (portPool τ api max_stretch { driver := d₀ }).run
      (portPool τ api max_stretch { driver := d₀ }).init inputs = some (s, os))
    (hidle : ∀ t, s.task t = none) (hdrv : (view s.resource.driver).installed = none)
    (later : List (PoolInput τ PortCall χ))
    (hcalls : ∀ t c, .call t c ∈ later → cfgEqual c.dev.cfg s.resource.state.config = true) :
    (portPool τ api max_stretch s.resource).init = s ∧
      (portPool τ api max_stretch s.resource).AllSteps later fun _ _ _ s' o =>
        (∀ t c link a, .served t c ⟨.access (.cmdBegin link), a⟩ ∈ o → a = .error .invalidState) ∧
        (∀ t c log res, .returned t c log res ∈ o → errorOf res ≠ none) ∧
        (s'.owner = none →
          (view s'.resource.driver).installed = none ∧ s'.resource.state = s.resource.state) := by
  refine ⟨portPool_init_of_idle hapi h0 hrun hidle, ?_⟩
  have hadm : (portPool τ api max_stretch s.resource).AllSteps later fun _ s₁ i _ _ =>
      (deadGuard api view s.resource.state).AdmitsStep
        (fun c => cfgEqual c.dev.cfg s.resource.state.config = true) s₁ i := by
    intro h s₁ i s' o ho
    refine ⟨?_, fun _ _ _ _ _ _ _ _ => trivial⟩
    rintro t c rfl
    exact hcalls t c (ho.isPrefix.subset (by simp))
  intro h s₁ i s' o ho
  obtain ⟨hlaw, hfree⟩ :=
    guarded_law (fun c hc => portBody_dead hapi hc) ⟨hdrv, rfl⟩ hadm h s₁ i s' o ho
  refine ⟨fun t c link a hmem => ?_, fun t c log res hmem => (hlaw.returned t c log res hmem).1, hfree⟩
  obtain ⟨log, x, hok, rfl⟩ := hlaw.ok_of_served hmem
  exact hapi.cmdBegin_refuses hok link x

end

/-- The first device writes, and then the driver cannot be installed for the second one. -/
def failingInputs : List (PoolInput Bool PortCall DriverOutcome) :=
  [.call true (.write slowDev [0x03] [0x00]), .take true true] ++
    List.replicate 15 (.access true {}) ++ [.give true, .ret true] ++
    [.call false (.write fastDev [] [0x0f, 0xff]), .take false true] ++
    List.replicate 4 (.access false {}) ++
    [.access false { error := some .fail }, .give false, .ret false]

/-- The first device writes again. -/
def laterInputs : List (PoolInput Bool PortCall DriverOutcome) :=
  [.call true (.write slowDev [0x01] [0xff]), .take true true] ++
    List.replicate 10 (.access true {}) ++ [.give true, .ret true]

/-- The calls of the first device fail from then on. -/
theorem portPool_dead_slow :
    ∃ s os, plainPort.run plainPort.init failingInputs = some (s, os) ∧
      ((portPool Bool plainDriver 0xfffff s.resource).init = s ∧
        (portPool Bool plainDriver 0xfffff s.resource).AllSteps laterInputs fun _ _ _ s' o =>
          (∀ t c link a, .served t c ⟨.access (.cmdBegin link), a⟩ ∈ o →
            a = .error .invalidState) ∧
          (∀ t c log res, .returned t c log res ∈ o → errorOf res ≠ none) ∧
          (s'.owner = none →
            s'.resource.driver.installed = none ∧ s'.resource.state = s.resource.state)) := by
  have hall : ∃ r, plainPort.run plainPort.init failingInputs =
      some r ∧ ((r.1.task true).isNone && (r.1.task false).isNone) = true ∧
        r.1.resource.driver.installed = none ∧ r.1.resource.state = ⟨slowDev.cfg.asMaster, true⟩ :=
    ⟨_, rfl, by decide, by decide, by decide⟩
  obtain ⟨⟨s, os⟩, hrun, hidle, hdrv, hstate⟩ := hall
  refine ⟨s, os, hrun, portPool_dead plainDriver_documented rfl hrun (fun t => ?_) hdrv laterInputs
    fun t c hmem => ?_⟩
  · simp only [Bool.and_eq_true, Option.isNone_iff_eq_none] at hidle
    cases t
    · exact hidle.2
    · exact hidle.1
  · have hc : c = .write slowDev [0x01] [0xff] := by
      simp [laterInputs] at hmem
      exact hmem.2
    rw [hc, hstate]
    decide

end PartLib.I2c.Port
