import PartLib.I2c.Port

/-!
# The port in every run
-/

namespace PartLib.I2c.Port

/-- A step of a call of the port, as it was served. -/
abbrev PortStep := Served (LockReq.Ans PortReq.Ans)

/-- The error of a step that failed. That of `i2c_driver_delete` is not looked at. -/
def stepError : PortStep → Option EspError
  | ⟨.take, ok⟩ => if ok then none else some .timeout
  | ⟨.access (.paramConfig _), a⟩ => errorOf a
  | ⟨.access (.driverInstall _), a⟩ => errorOf a
  | ⟨.access .getTimeout, a⟩ => errorOf a
  | ⟨.access (.setTimeout _), a⟩ => errorOf a
  | ⟨.access (.cmdBegin _), a⟩ => errorOf a
  | _ => none

/-- The step is an access. -/
def isAccess : PortStep → Bool
  | ⟨.access _, _⟩ => true
  | _ => false

/-- The step begins a transaction on the bus. -/
def isBegin : PortStep → Bool
  | ⟨.access (.cmdBegin _), _⟩ => true
  | _ => false

/-- The steps of a part of a critical section that leaves with the error `err`: the first step that
fails gives this error, and no access comes after it; and `n` transactions are begun, or at most `n`
when it leaves with an error. -/
structure PortSteps (steps : List PortStep) (err : Option EspError) (n : ℕ) : Prop where
  error : steps.findSome? stepError = err
  stops : steps.Pairwise fun e x => (stepError e).isSome → isAccess x = false
  accesses : ∀ e ∈ steps, isAccess e = true
  begins_le : steps.countP isBegin ≤ n
  begins : err = none → steps.countP isBegin = n

theorem PortSteps.nil : PortSteps [] none 0 := ⟨rfl, .nil, by simp, by simp, by simp⟩

/-- One access. -/
theorem PortSteps.single {r : PortReq} {a : r.Ans} {err : Option EspError} {n : ℕ}
    (herr : stepError ⟨.access r, a⟩ = err) (hn : (isBegin ⟨.access r, a⟩).toNat = n) :
    PortSteps [⟨.access r, a⟩] err n := by
  have hcount : [(⟨.access r, a⟩ : PortStep)].countP isBegin = n := by
    rw [List.countP_singleton, ← hn]
    cases isBegin ⟨.access r, a⟩ <;> rfl
  exact ⟨by simp [herr], by simp, by simp [isAccess], hcount.le, fun _ => hcount⟩

/-- Steps without an error, and then others. -/
theorem PortSteps.append {xs ys : List PortStep} {err : Option EspError} {n m : ℕ}
    (hx : PortSteps xs none n) (hy : PortSteps ys err m) : PortSteps (xs ++ ys) err (n + m) := by
  have hcount := hx.begins rfl
  refine ⟨?_, ?_, ?_, ?_, fun herr => ?_⟩
  · rw [List.findSome?_append, hx.error, hy.error]
    rfl
  · refine List.pairwise_append.mpr ⟨hx.stops, hy.stops, fun e he x _ hsome => ?_⟩
    rw [List.findSome?_eq_none_iff.mp hx.error e he] at hsome
    cases hsome
  · intro e he
    rcases List.mem_append.mp he with he | he
    · exact hx.accesses e he
    · exact hy.accesses e he
  · have := hy.begins_le
    rw [List.countP_append, hcount]
    omega
  · rw [List.countP_append, hcount, hy.begins herr]

/-- Steps that leave with an error may be among more. -/
theorem PortSteps.le {xs : List PortStep} {e : EspError} {n m : ℕ} (hx : PortSteps xs (some e) n)
    (hle : n ≤ m) : PortSteps xs (some e) m :=
  ⟨hx.error, hx.stops, hx.accesses, hx.begins_le.trans hle, by simp⟩

/-! ## The record and the driver -/

/-- What holds of a port while its mutex is free: a driver that is installed is the recorded one, in
the mode of a master. When the answers are `strict`, that is, when no installation fails, a port
without a driver is as `i2cdev_init` has left it. -/
structure PortInv (strict : Prop) (b : PortBus I2cDriver) : Prop where
  recorded : ∀ m, b.driver.installed = some m →
    m = .master ∧ b.state.installed = true ∧ b.driver.params = b.state.config.asMaster
  fresh : strict → b.driver.installed = none → b.state = {}

/-- The requests with which the driver is installed. -/
def installs : PortReq → Bool
  | .paramConfig _ => true
  | .driverInstall _ => true
  | _ => false

/-- The port behind its mutex. -/
def portGuard {δ χ : Type} (api : I2cApi δ χ) (view : δ → I2cDriver) (strict : Prop) :
    Guard (PortBus δ) χ PortReq.Ans where
  access := portAccess api
  inv b := PortInv strict (b.known view)
  admits r a := strict → installs r = true → stepError ⟨.access r, a⟩ = none

/-- The driver as the device needs it for a transaction: if it is installed, it is a master with the
configuration of the device, and the timeout is that of the device. -/
structure Serves (max_stretch : UInt32) (dev : PortDev) (b : PortBus I2cDriver) : Prop where
  params : ∀ m, b.driver.installed = some m → m = .master ∧ b.driver.params = dev.cfg.asMaster
  timeout : b.driver.timeout.toUInt32 = dev.ticks max_stretch

/-- The port as a transaction of the device finds it. When the answers are strict and the device has
a configuration, the driver is installed. -/
structure Ready (strict : Prop) (max_stretch : UInt32) (dev : PortDev) (b : PortBus I2cDriver) :
    Prop where
  serves : Serves max_stretch dev b
  installed : strict → cfgEqual dev.cfg {} = false → b.driver.installed = some .master

/-- What every access of a call for the device meets. -/
def PortOk (strict : Prop) (max_stretch : UInt32) (dev : PortDev) (b : PortBus I2cDriver) :
    PortReq → Prop
  | .driverDelete => strict → b.driver.installed ≠ none
  | .driverInstall _ => b.driver.installed = none
  | .cmdBegin _ => Ready strict max_stretch dev b
  | _ => True

section

variable {δ χ : Type} {api : I2cApi δ χ} {view : δ → I2cDriver} {strict : Prop}
  {max_stretch : UInt32} {dev : PortDev} {α β : Type}

/-! ## The parts of a critical section -/

variable (api view) in
/-- The part `x` of a critical section of a call for the device: from a port that `P` tells it leaves
with what `Q` tells, by steps that begin `n` transactions. -/
def Part (strict : Prop) (max_stretch : UInt32) (dev : PortDev) (P : PortBus I2cDriver → Prop)
    (x : PortM α) (n : ℕ) (Q : PortBus I2cDriver → Except EspError α → Prop) : Prop :=
  Critical (portGuard api view strict) (fun b r _ => PortOk strict max_stretch dev (b.known view) r)
    (fun b => P (b.known view)) x fun steps b res =>
      PortSteps steps (errorOf res) n ∧ Q (b.known view) res

/-- One part and then another. -/
theorem Part.bind {P : PortBus I2cDriver → Prop} {x : PortM α} {f : α → PortM β} {n m : ℕ}
    {Q : PortBus I2cDriver → Except EspError α → Prop}
    {R : PortBus I2cDriver → Except EspError β → Prop}
    (hx : Part api view strict max_stretch dev P x n Q)
    (hf : ∀ a, Part api view strict max_stretch dev (fun b => Q b (.ok a)) (f a) m R)
    (he : ∀ b e, Q b (.error e) → R b (.error e)) :
    Part api view strict max_stretch dev P (x >>= f) (n + m) R := by
  refine Critical.bind hx (fun steps a b hQ => ?_) fun steps b e hQ => ?_
  · exact Program.wpInside_mono (fun steps' b' res h => ⟨hQ.1.append h.1, h.2⟩) (hf a b hQ.2)
  · exact ⟨hQ.1.le (Nat.le_add_right n m), he _ e hQ.2⟩

/-- A request that does not fail. -/
theorem Part.ask {P : PortBus I2cDriver → Prop} {r : PortReq}
    {Q : PortBus I2cDriver → Except EspError r.Ans → Prop}
    (herr : ∀ a, stepError ⟨.access r, a⟩ = none) (hn : ∀ a, isBegin ⟨.access r, a⟩ = false)
    (h : ∀ b y, P (b.known view) → PortOk strict max_stretch dev (b.known view) r ∧
      Q ((portAccess api b r y).1.known view) (.ok (portAccess api b r y).2)) :
    Part api view strict max_stretch dev P (ask r) 0 Q :=
  .request rfl fun b y hb _ =>
    ⟨(h b y hb).1, .single (herr _) (by rw [hn]; rfl), (h b y hb).2⟩

/-- A result, without a request. -/
theorem Part.pure {P : PortBus I2cDriver → Prop} {a : α}
    {Q : PortBus I2cDriver → Except EspError α → Prop} (h : ∀ b, P b → Q b (.ok a)) :
    Part api view strict max_stretch dev P (Pure.pure a) 0 Q :=
  .result rfl fun _ hb => ⟨.nil, h _ hb⟩

/-! ## The parts of `i2c_setup_port` -/

/-- The driver is deleted, if there is one. -/
theorem deleteDriver_part (hapi : api.Documented view) :
    Part api view strict max_stretch dev (PortInv strict) deleteDriver 0 fun b res =>
      match res with
      | .ok _ => b.driver.installed = none
      | .error _ => False := by
  unfold deleteDriver
  refine Part.bind (n := 0) (m := 0) (Q := fun b res => PortInv strict b ∧
    res = .ok b.state.installed) (.ask (fun _ => rfl) (fun _ => rfl) ?_) (fun installed => ?_) (by simp)
  · exact fun b y hb => ⟨trivial, hb, rfl⟩
  cases installed with
  | false =>
    refine .pure ?_
    rintro b ⟨hb, heq⟩
    cases hdrv : b.driver.installed with
    | none => rfl
    | some m =>
      have := (hb.recorded m hdrv).2.1
      simp_all
  | true =>
    refine .request (r := .driverDelete) (f := fun _ => .ok ()) rfl ?_
    rintro b y ⟨hb, heq⟩ -
    refine ⟨fun hstrict hnone => ?_, .single rfl rfl, hapi.driverDelete b.driver y⟩
    -- Strictly, a port without a driver has no driver recorded.
    have hrecord := hb.fresh hstrict hnone
    rw [hrecord] at heq
    cases heq

/-- Without a driver an error leaves the invariant; it does not occur when the answers are
strict. -/
theorem portInv_of_error {b : PortBus I2cDriver} {res : Except EspError Unit} {e : EspError}
    (hres : res = .error e) (hadm : strict → errorOf res = none) (hb : b.driver.installed = none) :
    PortInv strict b := by
  refine ⟨fun m hm => ?_, fun hstrict => ?_⟩
  · rw [hb] at hm
    cases hm
  · have hnone := hadm hstrict
    rw [hres] at hnone
    cases hnone

/-- The peripheral is set as the device needs it. -/
theorem paramConfig_part (hapi : api.Documented view) :
    Part api view strict max_stretch dev (fun b => b.driver.installed = none)
      (i2cParamConfig dev.cfg.asMaster) 0 fun b res =>
        match res with
        | .ok _ => b.driver.installed = none ∧ b.driver.params = dev.cfg.asMaster
        | .error _ => PortInv strict b := by
  refine .request (r := .paramConfig dev.cfg.asMaster) (f := id) rfl ?_
  rintro b y hb hadm
  refine ⟨trivial, .single rfl rfl, ?_⟩
  have hnone : (view (api.paramConfig b.driver dev.cfg.asMaster y).1).installed = none :=
    (hapi.paramConfig_keeps ..).trans hb
  cases hres : (api.paramConfig b.driver dev.cfg.asMaster y).2 with
  | ok u =>
    simp only [portGuard, portAccess, PortBus.driven, id, hres]
    exact ⟨hnone, hapi.paramConfig hres⟩
  | error e =>
    simp only [portGuard, portAccess, PortBus.driven, id, hres]
    exact portInv_of_error hres (fun h => hadm h rfl) hnone

/-- The driver is installed with it. -/
theorem driverInstall_part (hapi : api.Documented view) :
    Part api view strict max_stretch dev
      (fun b => b.driver.installed = none ∧ b.driver.params = dev.cfg.asMaster)
      (i2cDriverInstall .master) 0 fun b res =>
        match res with
        | .ok _ => b.driver.installed = some .master ∧ b.driver.params = dev.cfg.asMaster
        | .error _ => PortInv strict b := by
  refine .request (r := .driverInstall .master) (f := id) rfl ?_
  rintro b y ⟨hb, hparams⟩ hadm
  refine ⟨hb, .single rfl rfl, ?_⟩
  cases hres : (api.driverInstall b.driver .master y).2 with
  | ok u =>
    simp only [portGuard, portAccess, PortBus.driven, id, hres]
    obtain ⟨-, hinstalled, hkept⟩ := hapi.driverInstall hres
    exact ⟨hinstalled, hkept.trans hparams⟩
  | error e =>
    simp only [portGuard, portAccess, PortBus.driven, id, hres]
    exact portInv_of_error hres (fun h => hadm h rfl) ((hapi.driverInstall_fails hres).trans hb)

/-- A driver that is installed for the device, as it is recorded. -/
def Installed (dev : PortDev) (b : PortBus I2cDriver) : Prop :=
  b.driver.installed = some .master ∧ b.driver.params = dev.cfg.asMaster ∧
    b.state = ⟨dev.cfg.asMaster, true⟩

theorem Installed.portInv {b : PortBus I2cDriver} (h : Installed dev b) : PortInv strict b := by
  obtain ⟨hdrv, hparams, hstate⟩ := h
  constructor
  · intro m hm
    rw [hdrv, Option.some.injEq] at hm
    exact ⟨hm.symm, by rw [hstate], by rw [hparams, hstate, I2cConfig.asMaster_asMaster]⟩
  · intro _ hnone
    rw [hdrv] at hnone
    cases hnone

/-- The driver is installed for the device, or there is none. -/
theorem reinstall_part (hapi : api.Documented view) :
    Part api view strict max_stretch dev (PortInv strict) (reinstall dev) 0 fun b res =>
      match res with
      | .ok _ => Installed dev b
      | .error _ => PortInv strict b := by
  unfold reinstall
  refine Part.bind (n := 0) (m := 0) (deleteDriver_part hapi) (fun _ => ?_) fun b e h => h.elim
  refine Part.bind (n := 0) (m := 0) (paramConfig_part hapi) (fun _ => ?_) fun b e h => h
  refine Part.bind (n := 0) (m := 0) (driverInstall_part hapi) (fun _ => ?_) fun b e h => h
  -- The driver is installed, and is now recorded.
  refine Part.bind (n := 0) (m := 0) (Q := fun b res =>
      match res with
      | .ok _ => b.driver.installed = some .master ∧ b.driver.params = dev.cfg.asMaster ∧
          b.state.installed = true
      | .error _ => False)
    (.ask (fun _ => rfl) (fun _ => rfl) ?_) (fun _ => .ask (fun _ => rfl) (fun _ => rfl) ?_)
    fun b e h => h.elim
  · rintro b y ⟨hdrv, hparams⟩
    exact ⟨trivial, hdrv, hparams, rfl⟩
  · rintro b y ⟨hdrv, hparams, hinstalled⟩
    refine ⟨trivial, hdrv, hparams, ?_⟩
    simp [portAccess, PortBus.known, ← hinstalled]

/-- The record agrees with the device. -/
theorem setupDriver_part (hapi : api.Documented view) :
    Part api view strict max_stretch dev (PortInv strict) (setupDriver dev) 0 fun b res =>
      PortInv strict b ∧ (errorOf res = none → dev.cfg.asMaster = b.state.config.asMaster) := by
  unfold setupDriver
  refine Part.bind (n := 0) (m := 0) (Q := fun b res => PortInv strict b ∧ res = .ok b.state.config)
    (.ask (fun _ => rfl) (fun _ => rfl) ?_) (fun config => ?_) fun b e h => ⟨h.1, by simp [errorOf]⟩
  · exact fun b y hb => ⟨trivial, hb, rfl⟩
  by_cases hcfg : cfgEqual dev.cfg config = true
  · rw [if_pos hcfg]
    refine .pure ?_
    rintro b ⟨hb, heq⟩
    refine ⟨hb, fun _ => ?_⟩
    rw [Except.ok.injEq] at heq
    rw [← heq]
    exact cfgEqual_iff.mp hcfg
  · rw [if_neg hcfg]
    refine Critical.mono (reinstall_part hapi) (fun b hb => hb.1) fun steps b res h => ⟨h.1, ?_⟩
    cases res with
    | ok a => exact ⟨Installed.portInv h.2, fun _ => by rw [h.2.2.2, I2cConfig.asMaster_asMaster]⟩
    | error e => exact ⟨h.2, by simp [errorOf]⟩

/-- The timeout is that of the device. -/
theorem setupTimeout_part (hapi : api.Documented view) (cfg : I2cConfig) :
    Part api view strict max_stretch dev
      (fun b => PortInv strict b ∧ cfg = b.state.config.asMaster)
      (setupTimeout max_stretch dev) 0 fun b res => PortInv strict b ∧
        (errorOf res = none → cfg = b.state.config.asMaster ∧
          b.driver.timeout.toUInt32 = dev.ticks max_stretch) := by
  unfold setupTimeout
  refine Part.bind (n := 0) (m := 0) (Q := fun b res =>
      PortInv strict b ∧ cfg = b.state.config.asMaster ∧ ∀ t, res = .ok t → t = b.driver.timeout)
    ?_ (fun t => ?_) fun b e h => ⟨h.1, by simp [errorOf]⟩
  · refine .request (r := .getTimeout) (f := id) rfl ?_
    rintro b y ⟨hb, hcfg⟩ -
    have hknown : (portAccess api b .getTimeout y).1.known view = b.known view :=
      congrArg (PortBus.mk b.state) (hapi.getTimeout_keeps b.driver y)
    refine ⟨trivial, .single rfl rfl, ?_⟩
    rw [portGuard, hknown]
    exact ⟨hb, hcfg, fun t ht => hapi.getTimeout ht⟩
  by_cases hticks : dev.ticks max_stretch ≠ t.toUInt32
  · rw [if_pos hticks]
    refine .request (r := .setTimeout (dev.ticks max_stretch).toInt32) (f := id) rfl ?_
    rintro b y ⟨hb, hcfg, -⟩ -
    obtain ⟨hinstalled, hparams⟩ :=
      hapi.setTimeout_keeps b.driver (dev.ticks max_stretch).toInt32 y
    refine ⟨trivial, .single rfl rfl, ⟨fun m hm => ?_, fun hstrict hnone => ?_⟩, fun hres => ⟨hcfg, ?_⟩⟩
    · obtain ⟨hmaster, hrecorded, hset⟩ := hb.recorded m (hinstalled.symm.trans hm)
      exact ⟨hmaster, hrecorded, hparams.trans hset⟩
    · exact hb.fresh hstrict (hinstalled.symm.trans hnone)
    · obtain ⟨u, hu⟩ := exists_ok_of_errorOf hres
      exact (congrArg Int32.toUInt32 (hapi.setTimeout hu)).trans (by simp)
  · rw [if_neg hticks]
    refine .pure ?_
    rintro b ⟨hb, hcfg, ht⟩
    refine ⟨hb, fun _ => ⟨hcfg, ?_⟩⟩
    rw [← ht t rfl]
    exact (not_not.mp hticks).symm

/-- The driver is as the device needs it. -/
theorem i2cSetupPort_part (hapi : api.Documented view) :
    Part api view strict max_stretch dev (PortInv strict) (i2cSetupPort max_stretch dev) 0 fun b res =>
      PortInv strict b ∧ (errorOf res = none → Ready strict max_stretch dev b) := by
  unfold i2cSetupPort
  refine Part.bind (n := 0) (m := 0) (setupDriver_part hapi) (fun _ => ?_)
    fun b e h => ⟨h.1, by simp [errorOf]⟩
  refine Critical.mono (setupTimeout_part hapi dev.cfg.asMaster) (fun b hb => ⟨hb.1, hb.2 rfl⟩)
    fun steps b res h => ⟨h.1, h.2.1, fun hres => ?_⟩
  obtain ⟨hsteps, hb, hok⟩ := h
  obtain ⟨hcfg, htimeout⟩ := hok hres
  refine ⟨⟨fun m hm => ?_, htimeout⟩, fun hstrict hzero => ?_⟩
  · obtain ⟨hmaster, -, hparams⟩ := hb.recorded m hm
    exact ⟨hmaster, by rw [hparams, hcfg]⟩
  · -- Without a driver the record would be empty, and the device would have no pins.
    cases hdrv : (view b.driver).installed with
    | some m => exact hdrv.trans (congrArg some (hb.recorded m hdrv).1)
    | none =>
      have hempty := hb.fresh hstrict hdrv
      rw [hempty] at hcfg
      rw [cfgEqual_iff.mpr hcfg] at hzero
      cases hzero

/-- A request for memory changes nothing that there is to know. -/
theorem Part.askMemory {P : PortBus I2cDriver → Prop} {r : PortReq}
    (hknown : ∀ b y, (portAccess api b r y).1.known view = b.known view)
    (herr : ∀ a, stepError ⟨.access r, a⟩ = none) (hn : ∀ a, isBegin ⟨.access r, a⟩ = false)
    (hok : ∀ b, PortOk strict max_stretch dev b r) :
    Part api view strict max_stretch dev P (Port.ask r) 0 fun b _ => P b :=
  .ask herr hn fun b y hb => ⟨hok _, by rw [hknown]; exact hb⟩

/-- The link has the commands that found memory, in their order, after those it had. -/
theorem appendCmds_part (hapi : api.Documented view) {P : PortBus I2cDriver → Prop}
    {link all : List I2cCmd} (hlink : link.Sublist all) (cmds : List I2cCmd) :
    Part api view strict max_stretch dev P (appendCmds link cmds) 0 fun b res =>
      P b ∧ ∀ l, res = .ok l → l.Sublist (all ++ cmds) := by
  induction cmds generalizing link all with
  | nil => exact .pure fun b hb => ⟨hb, fun l hl => by cases hl; simpa using hlink⟩
  | cons cmd cmds ih =>
    unfold appendCmds
    refine Part.bind (n := 0) (m := 0) (Q := fun b _ => P b)
      (.askMemory (fun b y => congrArg (PortBus.mk b.state) (hapi.linkAppend_keeps b.driver cmd y))
        (fun _ => rfl) (fun _ => rfl) fun _ => trivial)
      (fun memory => ?_) fun b e h => ⟨h, by simp⟩
    have hnext : (if memory then link ++ [cmd] else link).Sublist (all ++ [cmd]) := by
      cases memory with
      | true => exact hlink.append (List.Sublist.refl _)
      | false => exact hlink.trans (List.sublist_append_left _ _)
    simpa using ih hnext

/-- A link has no other commands than the call gives it, in their order. -/
theorem buildLink_part (hapi : api.Documented view) {P : PortBus I2cDriver → Prop}
    (cmds : List I2cCmd) :
    Part api view strict max_stretch dev P (buildLink cmds) 0 fun b res =>
      P b ∧ ∀ l, res = .ok (some l) → l.Sublist cmds := by
  unfold buildLink
  refine Part.bind (n := 0) (m := 0) (Q := fun b _ => P b)
    (.askMemory (fun b y => congrArg (PortBus.mk b.state) (hapi.linkCreate_keeps b.driver y))
      (fun _ => rfl) (fun _ => rfl) fun _ => trivial)
    (fun memory => ?_) fun b e h => ⟨h, by simp⟩
  cases memory with
  | false => exact .pure fun b hb => ⟨hb, by simp⟩
  | true =>
    refine Part.bind (n := 0) (m := 0) (appendCmds_part hapi (List.Sublist.refl []) cmds)
      (fun link => .pure fun b hb => ⟨hb.1, fun l hl => ?_⟩) fun b e h => ⟨h.1, by simp⟩
    cases hl
    exact hb.2 _ rfl

/-- What a transfer returns was read by one of its transactions, by the commands that found
memory. -/
def DataRead (cmds : List I2cCmd) (steps : List PortStep) (res : Except EspError (List UInt8)) : Prop :=
  ∀ data, res = .ok data → ∃ link, ⟨.access (.cmdBegin (some link)), .ok data⟩ ∈ steps ∧
    link.Sublist cmds ∧ data.length = readSize link

theorem DataRead.append {cmds : List I2cCmd} {xs ys : List PortStep}
    {res : Except EspError (List UInt8)} (h : DataRead cmds ys res) : DataRead cmds (xs ++ ys) res := by
  intro data hres
  obtain ⟨link, hmem, hlink⟩ := h data hres
  exact ⟨link, List.mem_append_right xs hmem, hlink⟩

/-- A transaction begins with the driver as the device needs it. -/
theorem cmdBegin_critical (hapi : api.Documented view) {cmds : List I2cCmd}
    {link : Option (List I2cCmd)} :
    Critical (portGuard api view strict)
      (fun b r _ => PortOk strict max_stretch dev (b.known view) r)
      (fun b => (PortInv strict (b.known view) ∧ Ready strict max_stretch dev (b.known view)) ∧
        ∀ l, link = some l → l.Sublist cmds)
      (i2cMasterCmdBegin link) fun steps b res =>
        PortSteps steps (errorOf res) 1 ∧ PortInv strict (b.known view) ∧ DataRead cmds steps res := by
  refine .request (r := .cmdBegin link) (f := id) rfl ?_
  rintro b y ⟨⟨hb, hserves⟩, hlink⟩ -
  have hknown : (portAccess api b (.cmdBegin link) y).1.known view = b.known view :=
    congrArg (PortBus.mk b.state) (hapi.cmdBegin_keeps b.driver link y)
  refine ⟨hserves, .single rfl rfl, ?_, fun data hdata => ?_⟩
  · rw [portGuard, hknown]
    exact hb
  -- Only with a link are bytes read.
  obtain ⟨l, rfl, hlength⟩ := hapi.cmdBegin hdata
  refine ⟨l, ?_, hlink l rfl, hlength⟩
  have hans : (portAccess api b (.cmdBegin (some l)) y).2 = .ok data := hdata
  rw [← hans]
  exact List.mem_singleton_self _

/-- The transfer begins one transaction when no part of it fails, and returns what this one reads. -/
theorem transfer_critical (hapi : api.Documented view) (cmds : List I2cCmd) :
    Critical (portGuard api view strict)
      (fun b r _ => PortOk strict max_stretch dev (b.known view) r)
      (fun b => PortInv strict (b.known view)) (transfer max_stretch dev cmds) fun steps b res =>
        PortSteps steps (errorOf res) 1 ∧ PortInv strict (b.known view) ∧ DataRead cmds steps res := by
  unfold transfer
  refine Critical.bind (i2cSetupPort_part hapi) (fun steps _ b hb => ?_)
    fun steps b e h => ⟨h.1.le (Nat.zero_le 1), h.2.1, by simp [DataRead]⟩
  have hbegin : Critical (portGuard api view strict)
      (fun b r _ => PortOk strict max_stretch dev (b.known view) r)
      (fun b => PortInv strict (b.known view) ∧ Ready strict max_stretch dev (b.known view))
      (do i2cMasterCmdBegin (← buildLink cmds)) fun steps b res =>
        PortSteps steps (errorOf res) 1 ∧ PortInv strict (b.known view) ∧ DataRead cmds steps res := by
    refine Critical.bind (buildLink_part (P := fun b =>
      PortInv strict b ∧ Ready strict max_stretch dev b) hapi cmds) (fun steps link b hb => ?_)
      fun steps b e h => ⟨h.1.le (Nat.zero_le 1), h.2.1.1, by simp [DataRead]⟩
    refine Program.wpInside_mono (fun steps' b' res h => ?_) (cmdBegin_critical hapi b
      ⟨hb.2.1, fun l hl => hb.2.2 l (by rw [hl])⟩)
    exact ⟨by simpa using hb.1.append h.1, h.2.1, h.2.2.append⟩
  refine Program.wpInside_mono (fun steps' b' res h => ?_) (hbegin b ⟨hb.2.1, hb.2.2 rfl⟩)
  exact ⟨by simpa using hb.1.append h.1, h.2.1, h.2.2.append⟩

/-! ## The calls -/

/-- The step took the mutex of the port. -/
def isTaken : PortStep → Bool
  | ⟨.take, ok⟩ => ok
  | _ => false

/-- The step gave the mutex of the port. -/
def isGiven : PortStep → Bool
  | ⟨.give, ok⟩ => ok
  | _ => false

/-- A call that was served `log` and returned `res` has taken and given the mutex of the port equally
often, has returned the error of the first step that failed, if there was one, starting with the
check of its arguments, and has made no access after it; it has begun at most one transaction, and
exactly one when it succeeds, whose data it returns. -/
structure PortCallOk (c : PortCall) (log : List PortStep) (res : Except EspError (List UInt8)) :
    Prop where
  error : errorOf res = (c.argError <|> log.findSome? stepError)
  stops : log.Pairwise fun e x => (stepError e).isSome → isAccess x = false
  stops_arg : c.argError.isSome → log = []
  balance : log.countP isTaken = log.countP isGiven
  begins_le : log.countP isBegin ≤ 1
  begins : errorOf res = none → log.countP isBegin = 1
  data : DataRead c.cmds log res

theorem PortSteps.countP_taken {steps : List PortStep} {err : Option EspError} {n : ℕ}
    (h : PortSteps steps err n) : steps.countP isTaken = 0 ∧ steps.countP isGiven = 0 := by
  simp only [List.countP_eq_zero]
  constructor <;> intro e he <;> have := h.accesses e he <;> obtain ⟨_ | _ | r, a⟩ := e <;>
    simp_all [isAccess, isTaken, isGiven]

/-- The transfer between a take of the mutex and its give makes a call as it should be. -/
theorem PortSteps.callOk {c : PortCall} {steps : List PortStep} {res : Except EspError (List UInt8)}
    (harg : c.argError = none) (h : PortSteps steps (errorOf res) 1)
    (hdata : DataRead c.cmds steps res) :
    PortCallOk c ([⟨.take, true⟩] ++ steps ++ [⟨.give, true⟩]) res := by
  obtain ⟨htaken, hgiven⟩ := h.countP_taken
  have hbegins : ([⟨.take, true⟩] ++ steps ++ [⟨.give, true⟩] : List PortStep).countP isBegin =
      steps.countP isBegin := by
    simp [isBegin]
  refine ⟨?_, ?_, by simp [harg], ?_, by rw [hbegins]; exact h.begins_le,
    fun hres => by rw [hbegins]; exact h.begins hres, ?_⟩
  · rw [harg, List.findSome?_append, List.findSome?_append, h.error]
    cases errorOf res <;> rfl
  · refine List.pairwise_append.mpr ⟨List.pairwise_append.mpr ⟨by simp, h.stops, ?_⟩, by simp, ?_⟩
    · simp [stepError]
    · simp [isAccess]
  · rw [List.countP_append, List.countP_append, List.countP_append, List.countP_append, htaken, hgiven]
    rfl
  · intro data hres
    obtain ⟨link, hmem, hlink⟩ := hdata data hres
    exact ⟨link, by simp [hmem], hlink⟩

section

variable {G : Guard (PortBus δ) χ PortReq.Ans}
  {ok : ServedLog PortReq.Ans → PortBus δ → PortReq → χ → Prop}
  {post : ServedLog PortReq.Ans → Option (PortBus δ) → Except EspError Unit → Prop}
  {log : ServedLog PortReq.Ans} {held : Option (PortBus δ)}

/-- `SEMAPHORE_TAKE` succeeds, or returns the timeout. -/
theorem wpInv_semaphoreTake : semaphoreTake.run.wpInv G ok post log held ↔
    held = none ∧ (∀ b, G.inv b → post (log ++ [⟨.take, true⟩]) (some b) (.ok ())) ∧
      post (log ++ [⟨.take, false⟩]) none (.error .timeout) := Iff.rfl

/-- `SEMAPHORE_GIVE` succeeds, while the mutex is held. -/
theorem wpInv_semaphoreGive : semaphoreGive.run.wpInv G ok post log held ↔
    (∃ b, held = some b ∧ G.inv b) ∧ post (log ++ [⟨.give, true⟩]) none (.ok ()) := Iff.rfl

end

/-- A call keeps to the protocol of the mutex when its transfer does between a take and a give. -/
theorem portBody_guarded_of_transfer {G : Guard (PortBus δ) χ PortReq.Ans}
    {ok : PortCall → PortBus δ → PortReq → χ → Prop}
    {post : PortCall → ServedLog PortReq.Ans → Except EspError (List UInt8) → Prop} {c : PortCall}
    (hrefused : ∀ e, c.argError = some e → post c [] (.error e))
    (htimeout : c.argError = none → post c [⟨.take, false⟩] (.error .timeout))
    (htransfer : c.argError = none → Critical G (ok c) G.inv (transfer max_stretch c.dev c.cmds)
      fun steps b res => G.inv b ∧ post c ([⟨.take, true⟩] ++ steps ++ [⟨.give, true⟩]) res) :
    Guarded G (fun c _ => ok c) post c (c.body max_stretch).run [] none := by
  rw [Guarded, PortCall.body_eq]
  cases harg : c.argError with
  | some e => exact ⟨rfl, hrefused e harg⟩
  | none =>
    simp only [withPort]
    rw [Program.wpInv_exceptBind, wpInv_semaphoreTake]
    refine ⟨rfl, fun b hb => ?_, rfl, htimeout harg⟩
    -- The mutex is taken: the transfer, and then the mutex is given.
    dsimp only
    rw [Program.wpInv_exceptBind, Program.wpInv_exceptLift]
    refine Program.wpInv_mono (fun log held res => ?_)
      (Program.wpInv_of_wpInside (htransfer harg b hb))
    rintro ⟨steps, b', rfl, rfl, hinv, hpost⟩
    dsimp only
    rw [Program.wpInv_exceptBind, wpInv_semaphoreGive]
    refine ⟨⟨b', rfl, hinv⟩, ?_⟩
    cases res with
    | ok data => exact ⟨rfl, hpost⟩
    | error e => exact ⟨rfl, hpost⟩

/-- Every call keeps to the protocol of the mutex, and returns as it should. -/
theorem portBody_guarded (hapi : api.Documented view) (c : PortCall) :
    Guarded (portGuard api view strict)
      (fun c _ b r _ => PortOk strict max_stretch c.dev (b.known view) r) PortCallOk c
      (c.body max_stretch).run [] none := by
  refine portBody_guarded_of_transfer (fun e harg => ?_) (fun harg => ?_) fun harg => ?_
  · refine ⟨?_, .nil, fun _ => rfl, rfl, by simp, by simp [errorOf], by simp [DataRead]⟩
    rw [harg]
    rfl
  · refine ⟨?_, by simp, by simp [harg], rfl, by simp [isBegin], by simp [errorOf],
      by simp [DataRead]⟩
    rw [harg]
    rfl
  · exact (transfer_critical hapi c.cmds).mono (fun _ hb => hb)
      fun _ _ _ h => ⟨h.2.1, h.1.callOk harg h.2.2⟩

end

/-! ## Every run of the port -/

section

variable {τ : Type} [DecidableEq τ] {δ χ : Type} {api : I2cApi δ χ} {view : δ → I2cDriver} {d₀ : δ}

variable (api view) in
/-- What a step of the pool shows. -/
abbrev PortLaw (strict : Prop) (max_stretch : UInt32)
    (s s' : Pool τ PortCall (PortBus δ) PortReq.Ans (Except EspError (List UInt8)))
    (o : List (PoolOut τ PortCall PortReq.Ans (Except EspError (List UInt8)))) : Prop :=
  PoolLaw (portAccess api) (fun c _ b r _ => PortOk strict max_stretch c.dev (b.known view) r)
    PortCallOk s s' o

/-- The invariant holds as `i2cdev_init` leaves a port without a driver. -/
theorem portInv_init {strict : Prop} (h0 : (view d₀).installed = none) :
    PortInv strict (PortBus.known view { driver := d₀ }) :=
  ⟨fun m hm => (Option.some_ne_none m (hm.symm.trans h0)).elim, fun _ _ => rfl⟩

/-- Every step of a run is as the law says, when the answers are admitted. -/
theorem portPool_steps (hapi : api.Documented view) (h0 : (view d₀).installed = none) {strict : Prop}
    {max_stretch : UInt32} {inputs : List (PoolInput τ PortCall χ)}
    (hadm : (portPool τ api max_stretch { driver := d₀ }).AllSteps inputs fun _ s i _ _ =>
      (portGuard api view strict).AdmitsStep (fun _ => True) s i) :
    (portPool τ api max_stretch { driver := d₀ }).AllSteps inputs fun _ s _ s' o =>
      PortLaw api view strict max_stretch s s' o := by
  intro h s i s' o ho
  exact (guarded_law (fun c _ => portBody_guarded hapi c) (portInv_init h0) hadm h s i s' o ho).1

/-- Whatever calls any number of tasks make for the devices of a port, in any order of their requests
and with any failures of the memory and of a driver that does what its documentation says: a task uses
the record and the driver only while it holds the mutex of the port; the driver is installed only when
none is; a transaction begins only with the configuration and the timeout of its own device, if a
driver is installed; and every call returns without the mutex, with the error of the first step that
failed and no access after it, or with the data of its one transaction. -/
theorem portPool_law (hapi : api.Documented view) (h0 : (view d₀).installed = none)
    (max_stretch : UInt32) (inputs : List (PoolInput τ PortCall χ)) :
    (portPool τ api max_stretch { driver := d₀ }).AllSteps inputs fun _ s _ _ o =>
      (∀ t c r a, .served t c ⟨.access r, a⟩ ∈ o → s.owner = some t) ∧
      (∀ t c mode a, .served t c ⟨.access (.driverInstall mode), a⟩ ∈ o →
        (view s.resource.driver).installed = none) ∧
      (∀ t c link a, .served t c ⟨.access (.cmdBegin link), a⟩ ∈ o →
        Serves max_stretch c.dev (s.resource.known view)) ∧
      ∀ t c log res, .returned t c log res ∈ o → PortCallOk c log res ∧ s.owner ≠ some t := by
  intro h s i s' o ho
  have hlaw : PortLaw api view False max_stretch s s' o :=
    portPool_steps hapi h0
      (fun _ _ _ _ _ _ => ⟨fun _ _ _ => trivial, fun _ _ _ _ _ _ _ _ => False.elim⟩) h s i s' o ho
  refine ⟨hlaw.holder, fun t c mode a hmem => ?_, fun t c link a hmem => ?_, hlaw.returned⟩
  · obtain ⟨log, x, hok, -⟩ := hlaw.ok_of_served hmem
    exact hok
  · obtain ⟨log, x, hok, -⟩ := hlaw.ok_of_served hmem
    exact hok.serves

/-- None of these outputs shows an installation that fails. -/
abbrev NoInstallFails (o : List (PoolOut τ PortCall PortReq.Ans (Except EspError (List UInt8)))) :
    Prop :=
  ∀ e ∈ accesses o, installs e.2.1 = true → stepError ⟨.access e.2.1, e.2.2⟩ = none

/-- As long as neither `i2c_param_config` nor `i2c_driver_install` fails, every transaction of a device
that has a configuration finds the driver installed with it, as a master, and the driver is deleted
only while one is installed; so installing and deleting it alternate. -/
theorem portPool_installed (hapi : api.Documented view) (h0 : (view d₀).installed = none)
    (max_stretch : UInt32) (inputs : List (PoolInput τ PortCall χ))
    (hok : (portPool τ api max_stretch { driver := d₀ }).AllSteps inputs fun _ _ _ _ o =>
      NoInstallFails o) :
    (portPool τ api max_stretch { driver := d₀ }).AllSteps inputs fun _ s _ _ o =>
      (∀ t c a, .served t c ⟨.access .driverDelete, a⟩ ∈ o →
        (view s.resource.driver).installed ≠ none) ∧
      (∀ t c mode a, .served t c ⟨.access (.driverInstall mode), a⟩ ∈ o →
        (view s.resource.driver).installed = none) ∧
      ∀ t c link a, .served t c ⟨.access (.cmdBegin link), a⟩ ∈ o → cfgEqual c.dev.cfg {} = false →
        (view s.resource.driver).installed = some .master ∧
          (view s.resource.driver).params = c.dev.cfg.asMaster := by
  have hadm : (portPool τ api max_stretch { driver := d₀ }).AllSteps inputs fun _ s i _ _ =>
      (portGuard api view True).AdmitsStep (fun _ => True) s i := by
    intro h s i s' o ho
    refine Guard.admitsStep_of_served ho.step (fun _ _ _ => trivial) fun t c r a hmem _ hr => ?_
    exact hok h s i s' o ho _ (mem_accesses hmem) hr
  intro h s i s' o ho
  have hlaw : PortLaw api view True max_stretch s s' o := portPool_steps hapi h0 hadm h s i s' o ho
  refine ⟨fun t c a hmem => ?_, fun t c mode a hmem => ?_, fun t c link a hmem hcfg => ?_⟩
  · obtain ⟨log, x, hok, -⟩ := hlaw.ok_of_served hmem
    exact hok trivial
  · obtain ⟨log, x, hok, -⟩ := hlaw.ok_of_served hmem
    exact hok
  · obtain ⟨log, x, hok, -⟩ := hlaw.ok_of_served hmem
    have hdrv := hok.installed trivial hcfg
    exact ⟨hdrv, (hok.serves.params _ hdrv).2⟩

end

/-- The descriptor of an expander. -/
def slowDev : PortDev :=
  { cfg := { sda_io_num := 21, scl_io_num := 22, clk_speed := 400000 }, addr := 0x38 }

/-- The descriptor of a converter on the same pins. -/
def fastDev : PortDev := { cfg := { slowDev.cfg with clk_speed := 1000000 }, addr := 0x60 }

example : tca9534InitDesc 0x38 21 22 true = .ok slowDev := by decide

example : mcp4728InitDesc 0x60 21 22 true = .ok fastDev := by decide

/-- One task writes to the first device, and then another to the second. -/
def switchInputs : List (PoolInput Bool PortCall DriverOutcome) :=
  [.call true (.write slowDev [0x03] [0x00]), .take true true] ++
    List.replicate 15 (.access true {}) ++ [.give true, .ret true] ++
    [.call false (.write fastDev [] [0x0f, 0xff]), .take false true] ++
    List.replicate 15 (.access false {}) ++ [.give false, .ret false]

/-- The port, with a driver that keeps only what there is to know. -/
def plainPort :
    Machine (Pool Bool PortCall (PortBus I2cDriver) PortReq.Ans (Except EspError (List UInt8)))
      (PoolInput Bool PortCall DriverOutcome)
      (PoolOut Bool PortCall PortReq.Ans (Except EspError (List UInt8))) :=
  portPool Bool plainDriver 0xfffff { driver := {} }

/-- The law holds of this run, which is one. -/
theorem portPool_law_switch :
    (plainPort.run plainPort.init switchInputs).isSome ∧
      plainPort.AllSteps switchInputs fun _ s _ _ o =>
        (∀ t c r a, .served t c ⟨.access r, a⟩ ∈ o → s.owner = some t) ∧
        (∀ t c mode a, .served t c ⟨.access (.driverInstall mode), a⟩ ∈ o →
          s.resource.driver.installed = none) ∧
        (∀ t c link a, .served t c ⟨.access (.cmdBegin link), a⟩ ∈ o →
          Serves 0xfffff c.dev s.resource) ∧
        ∀ t c log res, .returned t c log res ∈ o → PortCallOk c log res ∧ s.owner ≠ some t :=
  ⟨by decide, portPool_law plainDriver_documented rfl _ _⟩

/-- The driver is installed for the first device, and then for the second. -/
theorem portPool_installed_switch :
    (plainPort.run plainPort.init switchInputs).isSome ∧
      plainPort.AllSteps switchInputs fun _ s _ _ o =>
        (∀ t c a, .served t c ⟨.access .driverDelete, a⟩ ∈ o → s.resource.driver.installed ≠ none) ∧
        (∀ t c mode a, .served t c ⟨.access (.driverInstall mode), a⟩ ∈ o →
          s.resource.driver.installed = none) ∧
        ∀ t c link a, .served t c ⟨.access (.cmdBegin link), a⟩ ∈ o →
          cfgEqual c.dev.cfg {} = false → s.resource.driver.installed = some .master ∧
            s.resource.driver.params = c.dev.cfg.asMaster :=
  ⟨by decide, portPool_installed plainDriver_documented rfl _ _ (by decide)⟩

end PartLib.I2c.Port
