import PartLib.I2c.PortRuns
import PartLib.Lib.AtomicPool
import Mathlib.Data.List.Destutter

/-!
# The port as a sequence of transfers

`i2cdev.h` says that a read and a write are thread-safe. `portPool_atomic` says what this means: every
run of any number of tasks on a port is one in which each call goes through its critical section in a
single step, in the order in which the calls gave the mutex. In this order, the driver is installed
once for each change of the configuration (`installs_eq_destutter`): a call for a device with the
configuration of the call before it finds the driver as it needs it.
-/

namespace PartLib.I2c.Port

variable {τ : Type} [DecidableEq τ] {δ χ : Type} {api : I2cApi δ χ} {view : δ → I2cDriver}

/-! ## Transfers as single steps -/

/-- The port whose critical sections are single steps. -/
def atomicPort (τ : Type) [DecidableEq τ] {δ χ : Type} (api : I2cApi δ χ) (max_stretch : UInt32)
    (b : PortBus δ) :
    Machine (Pool τ PortCall (PortBus δ) PortReq.Ans (Except EspError (List UInt8)))
      (AtomicInput τ PortCall χ)
      (PoolOut τ PortCall PortReq.Ans (Except EspError (List UInt8))) :=
  atomicPool τ (fun c => (c.body max_stretch).run) (portAccess api) b

/-- The port behind its mutex, whatever its driver does. -/
def anyGuard {δ χ : Type} (api : I2cApi δ χ) : Guard (PortBus δ) χ PortReq.Ans where
  access := portAccess api
  inv _ := True
  admits _ _ := True

theorem deleteDriver_accesses : deleteDriver.run.Accesses fun _ => true := by
  unfold deleteDriver
  refine Program.Accesses.exceptBind ⟨rfl, fun _ => trivial⟩ fun installed => ?_
  cases installed with
  | false => trivial
  | true => exact ⟨rfl, fun _ => trivial⟩

theorem setupDriver_accesses (dev : PortDev) : (setupDriver dev).run.Accesses fun _ => true := by
  unfold setupDriver
  refine Program.Accesses.exceptBind ⟨rfl, fun _ => trivial⟩ fun config => ?_
  split_ifs
  · trivial
  · unfold reinstall
    refine deleteDriver_accesses.exceptBind fun _ => ?_
    refine Program.Accesses.exceptBind ⟨rfl, fun _ => trivial⟩ fun _ => ?_
    refine Program.Accesses.exceptBind ⟨rfl, fun _ => trivial⟩ fun _ => ?_
    refine Program.Accesses.exceptBind ⟨rfl, fun _ => trivial⟩ fun _ => ?_
    exact ⟨rfl, fun _ => trivial⟩

/-- A transfer neither takes nor gives the mutex. -/
theorem transfer_accesses (max_stretch : UInt32) (dev : PortDev) (cmds : List I2cCmd) :
    (transfer max_stretch dev cmds).run.Accesses fun _ => true := by
  unfold transfer i2cSetupPort
  refine Program.Accesses.exceptBind (Program.Accesses.exceptBind (setupDriver_accesses dev)
    fun _ => (setupTimeout_leaves _ _).mono fun _ _ => rfl) fun _ => ?_
  exact Program.Accesses.exceptBind ((buildLink_leaves cmds).mono fun _ _ => rfl)
    fun link => ⟨rfl, fun _ => trivial⟩

/-- So every call keeps to the protocol of the mutex, whatever the driver does. -/
theorem portBody_anyGuarded {max_stretch : UInt32} (c : PortCall) :
    Guarded (anyGuard api) (fun _ _ _ _ _ => True) (fun _ _ _ => True) c
      (c.body max_stretch).run [] none := by
  refine portBody_guarded_of_transfer (fun _ _ => trivial) (fun _ => trivial) fun _ b hb => ?_
  have haccesses : (transfer max_stretch c.dev c.cmds).run.wpInside (anyGuard api)
      (fun _ _ _ => True) (fun steps _ _ => True ∧ ∀ e ∈ steps, ∃ r a, e = ⟨.access r, a⟩ ∧ true) b :=
    (transfer_accesses max_stretch c.dev c.cmds).wpInside (fun _ _ _ _ _ => ⟨trivial, trivial⟩) hb
  exact Program.wpInside_mono (fun _ _ _ _ => ⟨trivial, trivial⟩) haccesses

/-- Every run of the port that ends with its mutex free is, but for the moments of the critical
sections, a run of the atomic port to the same state: with the same accesses in the same order, the
same steps of every task, and the same calls, returns and results in the same order. Nothing is assumed
of the driver. -/
theorem portPool_atomic {max_stretch : UInt32} {b : PortBus δ} {inputs : List (PoolInput τ PortCall χ)}
    {s : Pool τ PortCall (PortBus δ) PortReq.Ans (Except EspError (List UInt8))}
    {os : List (PoolOut τ PortCall PortReq.Ans (Except EspError (List UInt8)))}
    (hrun : (portPool τ api max_stretch b).run (portPool τ api max_stretch b).init inputs =
      some (s, os)) (hfree : s.owner = none) :
    ∃ inputs' os', (atomicPort τ api max_stretch b).run (atomicPort τ api max_stretch b).init inputs' =
        some (s, os') ∧ SameView os os' ∧ atomicHistory inputs' = history inputs :=
  pool_atomic (G := anyGuard api) (C := fun _ => True) (fun c _ => portBody_anyGuarded c) trivial
    (fun _ _ _ _ _ _ => ⟨fun _ _ _ => trivial, fun _ _ _ _ _ _ _ _ => trivial⟩) hrun hfree

/-! ## How often the driver is installed -/

/-- The step reads the recorded configuration: a transfer begins. -/
def isConfigRead : PortStep → Bool
  | ⟨.access .config, _⟩ => true
  | _ => false

/-- The step installs the driver. -/
def isInstall : PortStep → Bool
  | ⟨.access (.driverInstall _), _⟩ => true
  | _ => false

/-- The requests that do neither. -/
def quiet : PortReq → Bool
  | .config => false
  | .driverInstall _ => false
  | _ => true

section

variable {max_stretch : UInt32} {dev : PortDev} {α β : Type}

variable (api view) in
/-- The part `x` of a critical section reads the recorded configuration `m` times and installs the
driver `k` times, when no installation fails. -/
def CountPart (P : PortBus I2cDriver → Prop) (x : PortM α) (m k : ℕ)
    (Q : PortBus I2cDriver → Except EspError α → Prop) : Prop :=
  Critical (portGuard api view True) (fun _ _ _ => True) (fun b => P (b.known view)) x
    fun steps b res =>
      steps.countP isConfigRead = m ∧ steps.countP isInstall = k ∧ Q (b.known view) res

/-- One part and then another. -/
theorem CountPart.bind (m m' k k' : ℕ) {P : PortBus I2cDriver → Prop} {x : PortM α} {f : α → PortM β}
    {Q : PortBus I2cDriver → Except EspError α → Prop}
    {R : PortBus I2cDriver → Except EspError β → Prop} (hx : CountPart api view P x m k Q)
    (hf : ∀ a, CountPart api view (fun b => Q b (.ok a)) (f a) m' k' R)
    (he : ∀ b e, Q b (.error e) → m' = 0 ∧ k' = 0 ∧ R b (.error e)) :
    CountPart api view P (x >>= f) (m + m') (k + k') R := by
  refine Critical.bind hx (fun steps a b hQ => ?_) fun steps b e hQ => ?_
  · refine Program.wpInside_mono (fun steps' b' res h => ?_) (hf a b hQ.2.2)
    rw [List.countP_append, List.countP_append, hQ.1, hQ.2.1, h.1, h.2.1]
    exact ⟨rfl, rfl, h.2.2⟩
  · obtain ⟨rfl, rfl, hR⟩ := he _ e hQ.2.2
    exact ⟨hQ.1, hQ.2.1, hR⟩

/-- A part without such requests. -/
theorem CountPart.quiet {P : PortBus I2cDriver → Prop} {x : PortM α} {n : ℕ}
    {Q : PortBus I2cDriver → Except EspError α → Prop}
    (hx : Part api view True max_stretch dev P x n Q) (hacc : x.run.Accesses quiet) :
    CountPart api view P x 0 0 Q := by
  intro b hb
  have hquiet : x.run.wpInside (portGuard api view True) (fun _ _ _ => True) _ b :=
    hacc.wpInside (P := fun _ => True) (fun _ _ _ _ _ => ⟨trivial, trivial⟩) trivial
  refine Program.wpInside_mono (fun steps b' res h => ?_) (Program.wpInside_and hquiet (hx b hb))
  obtain ⟨⟨-, hsteps⟩, -, hQ⟩ := h
  refine ⟨?_, ?_, hQ⟩ <;> rw [List.countP_eq_zero] <;> intro e he <;>
    obtain ⟨r, a, rfl, hr⟩ := hsteps e he <;> cases r <;> first | exact Bool.false_ne_true | cases hr

theorem deleteDriver_quiet : deleteDriver.run.Accesses quiet := by
  unfold deleteDriver
  refine Program.Accesses.exceptBind ⟨rfl, fun _ => trivial⟩ fun installed => ?_
  cases installed with
  | false => trivial
  | true => exact ⟨rfl, fun _ => trivial⟩

/-- The part has not failed, and left the port in `P`. -/
def Succeeds (P : PortBus I2cDriver → Prop) (b : PortBus I2cDriver) : Except EspError Unit → Prop
  | .ok _ => P b
  | .error _ => False

/-- A reinstallation that does not fail installs the driver once. -/
theorem reinstall_count (hapi : api.Documented view) :
    CountPart api view (PortInv True) (reinstall dev) 0 1
      fun b _ => b.state.config = dev.cfg.asMaster := by
  have hdelete : CountPart api view (PortInv True) deleteDriver 0 0
      (Succeeds fun b => b.driver.installed = none) :=
    .quiet (@deleteDriver_part _ _ _ _ True 0 dev hapi) deleteDriver_quiet
  have hparam : CountPart api view (fun b => b.driver.installed = none)
      (i2cParamConfig dev.cfg.asMaster) 0 0 (Succeeds fun b => b.driver.installed = none) := by
    refine .request (r := .paramConfig dev.cfg.asMaster) (f := id) rfl fun b y hb hadm => ?_
    obtain ⟨u, hu⟩ := exists_ok_of_errorOf (hadm trivial rfl)
    refine ⟨trivial, rfl, rfl, ?_⟩
    simp only [id, hu]
    exact (hapi.paramConfig_keeps ..).trans hb
  have hinstall : CountPart api view (fun b => b.driver.installed = none)
      (i2cDriverInstall .master) 0 1 (Succeeds fun _ => True) := by
    refine .request (r := .driverInstall .master) (f := id) rfl fun b y hb hadm => ?_
    obtain ⟨u, hu⟩ := exists_ok_of_errorOf (hadm trivial rfl)
    refine ⟨trivial, rfl, rfl, ?_⟩
    simp only [id, hu]
    trivial
  unfold reinstall
  refine CountPart.bind 0 0 0 1 hdelete (fun _ => ?_) fun b e h => h.elim
  refine CountPart.bind 0 0 0 1 hparam (fun _ => ?_) fun b e h => h.elim
  refine CountPart.bind 0 0 1 0 hinstall (fun _ => ?_)
    fun b e h => h.elim
  refine CountPart.bind 0 0 0 0 (Q := fun _ res => res = .ok ()) ?_ (fun _ => ?_) (by simp)
  · exact .request (r := .setInstalled true) (f := .ok) rfl fun b y _ _ => ⟨trivial, rfl, rfl, rfl⟩
  · exact .request (r := .setConfig dev.cfg.asMaster) (f := .ok) rfl
      fun b y _ _ => ⟨trivial, rfl, rfl, rfl⟩

/-- The driver is installed when the configuration of the device is not the recorded one, which it is
afterwards. -/
theorem setupDriver_count (hapi : api.Documented view) (b₀ : PortBus I2cDriver) :
    CountPart api view (fun b => PortInv True b ∧ b = b₀) (setupDriver dev) 1
      (if dev.cfg.asMaster = b₀.state.config.asMaster then 0 else 1)
      fun b _ => b.state.config.asMaster = dev.cfg.asMaster := by
  have hask : CountPart api view (fun b => PortInv True b ∧ b = b₀) (ask .config) 1 0 fun b res =>
      (PortInv True b ∧ b = b₀) ∧ res = .ok b₀.state.config := by
    refine .request (r := .config) (f := .ok) rfl fun b y hb _ => ⟨trivial, rfl, rfl, hb, ?_⟩
    rw [← hb.2]
    rfl
  unfold setupDriver
  by_cases hcfg : dev.cfg.asMaster = b₀.state.config.asMaster
  · rw [if_pos hcfg]
    refine CountPart.bind 1 0 0 0 hask (fun config => ?_) (by simp)
    by_cases heq : config = b₀.state.config
    · rw [heq, if_pos (cfgEqual_iff.mpr hcfg)]
      refine .result rfl ?_
      rintro b ⟨⟨-, hb⟩, -⟩
      exact ⟨rfl, rfl, by rw [hb]; exact hcfg.symm⟩
    · intro b hb
      exact (heq (by simpa using hb.2)).elim
  · rw [if_neg hcfg]
    refine CountPart.bind 1 0 0 1 hask (fun config => ?_) (by simp)
    by_cases heq : config = b₀.state.config
    · rw [heq, if_neg (mt cfgEqual_iff.mp hcfg)]
      refine Critical.mono (reinstall_count hapi) (fun b hb => hb.1.1) fun steps b res h => ?_
      have hconfig : (b.known view).state.config = dev.cfg.asMaster := h.2.2
      refine ⟨h.1, h.2.1, ?_⟩
      dsimp only
      rw [hconfig, I2cConfig.asMaster_asMaster]
    · intro b hb
      exact (heq (by simpa using hb.2)).elim

/-- A part that leaves the record. -/
theorem CountPart.leaves (hapi : api.Documented view) {cfg : I2cConfig} {x : PortM α}
    (hx : x.run.Accesses leaves) :
    CountPart api view (fun b => b.state.config.asMaster = cfg) x 0 0
      fun b _ => b.state.config.asMaster = cfg := by
  intro b hb
  have hkeep : x.run.wpInside (portGuard api view True) (fun _ _ _ => True) _ b :=
    hx.wpInside (P := fun b => (b.known view).state.config.asMaster = cfg)
      (fun b r y hr hb => ⟨trivial, by
        rw [← hb]
        exact congrArg _ (congrArg _ (hapi.leaves hr b y).1)⟩) hb
  refine Program.wpInside_mono (fun steps b' res h => ⟨?_, ?_, h.1⟩) hkeep <;>
    rw [List.countP_eq_zero] <;> intro e he <;> obtain ⟨r, a, rfl, hr⟩ := h.2 e he <;>
    cases r <;> first | exact Bool.false_ne_true | cases hr

/-- A transfer reads the recorded configuration once. -/
theorem transfer_count (hapi : api.Documented view) (cmds : List I2cCmd) (b₀ : PortBus I2cDriver) :
    CountPart api view (fun b => PortInv True b ∧ b = b₀) (transfer max_stretch dev cmds) 1
      (if dev.cfg.asMaster = b₀.state.config.asMaster then 0 else 1)
      fun b _ => b.state.config.asMaster = dev.cfg.asMaster := by
  unfold transfer i2cSetupPort
  refine CountPart.bind 1 0 _ 0 (CountPart.bind 1 0 _ 0 (setupDriver_count hapi b₀)
    (fun _ => .leaves hapi (setupTimeout_leaves _ _)) fun b e h => ⟨rfl, rfl, h⟩) (fun _ => ?_)
    fun b e h => ⟨rfl, rfl, h⟩
  exact .leaves hapi (Program.Accesses.exceptBind (buildLink_leaves cmds) fun link =>
    ⟨rfl, fun _ => trivial⟩)

end

/-! ## The configurations in the order of the transfers -/

/-- The configurations that the transfers are for. -/
def usedConfigs (os : List (PoolOut τ PortCall PortReq.Ans (Except EspError (List UInt8)))) :
    List I2cConfig :=
  ((accesses os).filter fun e => isConfigRead ⟨.access e.2.1, e.2.2⟩).map fun e =>
    e.1.dev.cfg.asMaster

/-- The configurations that the driver is installed with. -/
def installedConfigs (os : List (PoolOut τ PortCall PortReq.Ans (Except EspError (List UInt8)))) :
    List I2cConfig :=
  ((accesses os).filter fun e => isInstall ⟨.access e.2.1, e.2.2⟩).map fun e => e.1.dev.cfg.asMaster

omit [DecidableEq τ] in
theorem usedConfigs_append
    (os os' : List (PoolOut τ PortCall PortReq.Ans (Except EspError (List UInt8)))) :
    usedConfigs (os ++ os') = usedConfigs os ++ usedConfigs os' := by
  simp [usedConfigs, accesses_append]

omit [DecidableEq τ] in
theorem installedConfigs_append
    (os os' : List (PoolOut τ PortCall PortReq.Ans (Except EspError (List UInt8)))) :
    installedConfigs (os ++ os') = installedConfigs os ++ installedConfigs os' := by
  simp [installedConfigs, accesses_append]

omit [DecidableEq τ] in
/-- The steps of one call of a kind, with its configuration. -/
theorem accesses_servedTo (t : τ) (c : PortCall) (steps : List PortStep) (kind : PortStep → Bool)
    (htake : ∀ ok, kind ⟨.take, ok⟩ = false) (hgive : ∀ ok, kind ⟨.give, ok⟩ = false) :
    ((accesses (servedTo t c steps :
      List (PoolOut τ PortCall PortReq.Ans (Except EspError (List UInt8))))).filter
        fun e => kind ⟨.access e.2.1, e.2.2⟩).map (fun e => e.1.dev.cfg.asMaster) =
      List.replicate (steps.countP kind) c.dev.cfg.asMaster := by
  induction steps with
  | nil => rfl
  | cons e steps ih =>
    obtain ⟨_ | _ | r, a⟩ := e
    · simpa [servedTo, accesses, htake] using ih
    · simpa [servedTo, accesses, hgive] using ih
    · have hcons : accesses (servedTo t c (⟨.access r, a⟩ :: steps) :
          List (PoolOut τ PortCall PortReq.Ans (Except EspError (List UInt8)))) =
          (c, ⟨r, a⟩) :: accesses (servedTo t c steps) := rfl
      rw [hcons, List.filter_cons, List.countP_cons]
      cases hkind : kind ⟨.access r, a⟩ with
      | true => simp [ih, List.replicate_succ]
      | false => simp [ih]

/-- Repetitions are dropped one element at a time. -/
theorem destutter_ne_snoc {α : Type} [DecidableEq α] (l : List α) (a : α) :
    (l ++ [a]).destutter (· ≠ ·) =
      l.destutter (· ≠ ·) ++ if l.getLast? = some a then [] else [a] := by
  cases l with
  | nil => rfl
  | cons b l =>
    have hfrom : ∀ (l : List α) (b : α), (l ++ [a]).destutter' (· ≠ ·) b =
        l.destutter' (· ≠ ·) b ++ if (b :: l).getLast? = some a then [] else [a] := by
      intro l
      induction l with
      | nil =>
        intro b
        by_cases hb : b = a <;> simp [List.destutter', hb]
      | cons c l ih =>
        intro b
        rw [List.cons_append, List.destutter'_cons, List.destutter'_cons, List.getLast?_cons_cons]
        by_cases hb : b = c
        · subst hb
          rw [if_neg (by simp), if_neg (by simp), ih]
        · rw [if_pos hb, if_pos hb, ih, List.cons_append]
    exact hfrom l b

/-- A call is one critical section: the mutex is taken, or the call times out, and it is given before
the call returns. -/
theorem withPort_run (max_stretch : UInt32) (dev : PortDev) (cmds : List I2cCmd) :
    (withPort max_stretch dev cmds).run = .request .take fun ok =>
      if ok = true then (transfer max_stretch dev cmds).run >>= fun res =>
        .request .give fun given => .pure (if given = true then res else .error .fail)
      else .pure (.error .timeout) := by
  refine congrArg (Program.request LockReq.take) (funext fun ok => ?_)
  cases ok with
  | false => rfl
  | true =>
    change (ExceptT.lift (transfer max_stretch dev cmds).run >>= _ : PortM (List UInt8)).run = _
    rw [ExceptT.run_bind, ExceptT.run_lift, map_eq_pure_bind, Program.bind_assoc]
    refine congrArg (Program.bind _) (funext fun res => ?_)
    refine congrArg (Program.request LockReq.give) (funext fun given => ?_)
    cases given <;> cases res <;> rfl

/-- A call is for a device that has a configuration, and has yet to begin or has only to return. -/
def AtEdge (max_stretch : UInt32)
    (run : Running PortCall PortReq.Ans (Except EspError (List UInt8))) : Prop :=
  cfgEqual run.call.dev.cfg {} = false ∧
    (run.rest = (run.call.body max_stretch).run ∨ ∃ a, run.rest = .pure a)

variable (view) in
/-- After some moves of the atomic port, when no installation has failed and every call is for a
device that has a configuration: the driver has been installed once for each change of the
configuration, and the last one is recorded. -/
structure Ordered (max_stretch : UInt32)
    (past : List (PoolOut τ PortCall PortReq.Ans (Except EspError (List UInt8))))
    (s : Pool τ PortCall (PortBus δ) PortReq.Ans (Except EspError (List UInt8))) : Prop where
  edge : ∀ t run, s.task t = some run → AtEdge max_stretch run
  inv : PortInv True (s.resource.known view)
  installs : installedConfigs past = (usedConfigs past).destutter (· ≠ ·)
  last : ∀ cfg, cfgEqual cfg {} = false → ((usedConfigs past).getLast? = some cfg.asMaster ↔
    cfg.asMaster = s.resource.state.config.asMaster)

/-- The calls when one task has moved. -/
theorem Ordered.edge_update {max_stretch : UInt32}
    {past : List (PoolOut τ PortCall PortReq.Ans (Except EspError (List UInt8)))}
    {s : Pool τ PortCall (PortBus δ) PortReq.Ans (Except EspError (List UInt8))}
    (h : Ordered view max_stretch past s) {t : τ}
    {run : Option (Running PortCall PortReq.Ans (Except EspError (List UInt8)))}
    (hrun : ∀ r, run = some r → AtEdge max_stretch r) (u : τ)
    (r : Running PortCall PortReq.Ans (Except EspError (List UInt8)))
    (hr : Function.update s.task t run u = some r) : AtEdge max_stretch r := by
  by_cases hu : u = t
  · subst hu
    rw [Function.update_self] at hr
    exact hrun r hr
  · rw [Function.update_of_ne hu] at hr
    exact h.edge u r hr

/-- A move of a task without a transfer. -/
theorem Ordered.other {max_stretch : UInt32}
    {past o : List (PoolOut τ PortCall PortReq.Ans (Except EspError (List UInt8)))}
    {s : Pool τ PortCall (PortBus δ) PortReq.Ans (Except EspError (List UInt8))}
    (h : Ordered view max_stretch past s) {t : τ}
    {run : Option (Running PortCall PortReq.Ans (Except EspError (List UInt8)))}
    (hrun : ∀ r, run = some r → AtEdge max_stretch r) (ho : accesses o = []) :
    Ordered view max_stretch (past ++ o) { s with task := Function.update s.task t run } := by
  have hused : usedConfigs (past ++ o) = usedConfigs past := by
    simp [usedConfigs, accesses_append, ho]
  have hinstalled : installedConfigs (past ++ o) = installedConfigs past := by
    simp [installedConfigs, accesses_append, ho]
  exact ⟨h.edge_update hrun, h.inv, by rw [hused, hinstalled, h.installs], by rw [hused]; exact h.last⟩

/-- Every move of the atomic port keeps the order. -/
theorem Ordered.step (hapi : api.Documented view) {d₀ : δ} {max_stretch : UInt32}
    {past o : List (PoolOut τ PortCall PortReq.Ans (Except EspError (List UInt8)))}
    {s s' : Pool τ PortCall (PortBus δ) PortReq.Ans (Except EspError (List UInt8))}
    {i : AtomicInput τ PortCall χ} (h : Ordered view max_stretch past s)
    (hcall : ∀ t c, i = .call t c → cfgEqual c.dev.cfg {} = false) (hok : NoInstallFails o)
    (hstep : (atomicPort τ api max_stretch { driver := d₀ }).step s i = some (s', o)) :
    Ordered view max_stretch (past ++ o) s' := by
  -- A task that is at a take has yet to begin its transfer.
  have hbegin : ∀ {t : τ} {c : PortCall} {log : ServedLog PortReq.Ans}
      {next : Bool → PortProgram (Except EspError (List UInt8))},
      s.task t = some ⟨c, log, .request .take next⟩ → cfgEqual c.dev.cfg {} = false ∧
        next false = .pure (.error .timeout) ∧
        next true = (transfer max_stretch c.dev c.cmds).run >>= fun res =>
          .request .give fun given => .pure (if given = true then res else .error .fail) := by
    intro t c log next htask
    obtain ⟨hcfg, hbody | ⟨a, ha⟩⟩ := h.edge t _ htask
    · refine ⟨hcfg, ?_⟩
      change Program.request LockReq.take next = (c.body max_stretch).run at hbody
      rw [PortCall.body_eq] at hbody
      cases harg : c.argError with
      | some e =>
        rw [harg] at hbody
        cases hbody
      | none =>
        rw [harg] at hbody
        dsimp only at hbody
        rw [withPort_run] at hbody
        simp only [Program.request.injEq, heq_eq_eq, true_and] at hbody
        exact ⟨by rw [hbody]; rfl, by rw [hbody]; rfl⟩
    · cases ha
  cases atomicPool_step_move hstep with
  | @call t c htask =>
    refine h.other (fun r hr => ?_) rfl
    cases hr
    exact ⟨hcall t c rfl, .inl rfl⟩
  | @timedOut t c log next htask =>
    obtain ⟨hcfg, hfalse, -⟩ := hbegin htask
    refine h.other (fun r hr => ?_) rfl
    cases hr
    exact ⟨hcfg, .inr ⟨_, hfalse⟩⟩
  | @returned t c log a htask => exact h.other (by simp) rfl
  | @critical t c log cur next last xs b htask hcur =>
    obtain ⟨hcfg, -, htrue⟩ := hbegin htask
    rw [htrue] at hcur
    -- The accesses of the section are those of one transfer.
    have hadm : ∀ r a, ⟨.access r, a⟩ ∈ cur → (portGuard api view True).admits r a := by
      intro r a hmem _ hr
      have hserved : .served t c ⟨.access r, a⟩ ∈
          (servedTo t c (⟨.take, true⟩ :: cur ++ [⟨.give, true⟩]) :
            List (PoolOut τ PortCall PortReq.Ans (Except EspError (List UInt8)))) := by
        simp [servedTo, hmem]
      exact hok _ (mem_accesses hserved) hr
    have htransfer := Program.wpInside_and
      (@transfer_count _ _ _ _ max_stretch c.dev hapi c.cmds (s.resource.known view) s.resource
        ⟨h.inv, rfl⟩)
      (@transfer_critical _ _ _ _ True max_stretch c.dev hapi c.cmds s.resource h.inv)
    obtain ⟨res, ⟨⟨hreads, hinstalls, hconfig⟩, -, hinv, -⟩, hlast⟩ :=
      Program.wpInside_accessesWith htransfer (fun res => ⟨_, rfl⟩) hcur hadm
    have hused : usedConfigs (servedTo t c (⟨.take, true⟩ :: cur ++ [⟨.give, true⟩]) :
        List (PoolOut τ PortCall PortReq.Ans (Except EspError (List UInt8)))) =
          [c.dev.cfg.asMaster] := by
      rw [usedConfigs, accesses_servedTo t c _ isConfigRead (fun _ => rfl) fun _ => rfl]
      simp [hreads, isConfigRead]
    have hinstalled : installedConfigs (servedTo t c (⟨.take, true⟩ :: cur ++ [⟨.give, true⟩]) :
        List (PoolOut τ PortCall PortReq.Ans (Except EspError (List UInt8)))) =
        if (usedConfigs past).getLast? = some c.dev.cfg.asMaster then [] else [c.dev.cfg.asMaster] := by
      rw [installedConfigs, accesses_servedTo t c _ isInstall (fun _ => rfl) fun _ => rfl]
      simp only [h.last c.dev.cfg hcfg]
      have hcount : cur.countP isInstall =
          if c.dev.cfg.asMaster = s.resource.state.config.asMaster then 0 else 1 := hinstalls
      split_ifs with hsame <;> simp [hcount, hsame, isInstall]
    refine ⟨h.edge_update fun r hr => ?_, hinv, ?_, fun cfg hcfg' => ?_⟩
    · cases hr
      refine ⟨hcfg, .inr ⟨res, ?_⟩⟩
      simp only [Program.request.injEq, heq_eq_eq, true_and] at hlast
      rw [← hlast]
      rfl
    · rw [installedConfigs_append, usedConfigs_append, hused, hinstalled, h.installs, destutter_ne_snoc]
    · rw [usedConfigs_append, hused, List.getLast?_concat, Option.some.injEq]
      have hrecorded : b.state.config.asMaster = c.dev.cfg.asMaster := hconfig
      change _ ↔ cfg.asMaster = b.state.config.asMaster
      rw [hrecorded]
      exact eq_comm

/-- In a run of the port in which neither `i2c_param_config` nor `i2c_driver_install` fails and that ends
with the mutex free, with calls for devices that have a configuration, the driver is installed once for
each change of the configuration from a transfer to the next one. -/
theorem installs_eq_destutter (hapi : api.Documented view) {d₀ : δ} (h0 : (view d₀).installed = none)
    {max_stretch : UInt32} {inputs : List (PoolInput τ PortCall χ)}
    {s : Pool τ PortCall (PortBus δ) PortReq.Ans (Except EspError (List UInt8))}
    {os : List (PoolOut τ PortCall PortReq.Ans (Except EspError (List UInt8)))}
    (hrun : (portPool τ api max_stretch { driver := d₀ }).run
      (portPool τ api max_stretch { driver := d₀ }).init inputs = some (s, os))
    (hfree : s.owner = none) (hok : NoInstallFails os)
    (hcalls : ∀ t c, .call t c ∈ inputs → cfgEqual c.dev.cfg {} = false) :
    installedConfigs os = (usedConfigs os).destutter (· ≠ ·) := by
  obtain ⟨inputs', os', hrun', hview, hhist⟩ := portPool_atomic hrun hfree
  -- The calls and the accesses of the two runs are the same.
  have hcalls' : ∀ t c, .call t c ∈ inputs' → cfgEqual c.dev.cfg {} = false := by
    intro t c hmem
    have hmem' : (t, some c) ∈ atomicHistory inputs' := List.mem_filterMap.mpr ⟨_, hmem, rfl⟩
    rw [hhist, history, List.mem_filterMap] at hmem'
    obtain ⟨i, hi, heq⟩ := hmem'
    cases i <;> simp only [reduceCtorEq, Option.some.injEq, Prod.mk.injEq, and_false] at heq
    obtain ⟨rfl, rfl⟩ := heq
    exact hcalls _ _ hi
  have hok' : NoInstallFails os' := by
    intro e he
    refine hok e ?_
    rw [hview.same_accesses]
    exact List.mem_append_left _ he
  have hsteps : (atomicPort τ api max_stretch { driver := d₀ }).AllSteps inputs' fun _ _ i _ o =>
      (∀ t c, i = .call t c → cfgEqual c.dev.cfg {} = false) ∧ NoInstallFails o := by
    intro h s₁ i s₂ o ho
    refine ⟨?_, fun e he => hok' e ?_⟩
    · rintro t c rfl
      exact hcalls' t c (ho.isPrefix.subset (by simp))
    · obtain ⟨x, y, hxy⟩ := ho.outputs_infix hrun'
      rw [← hxy, accesses_append, accesses_append]
      exact List.mem_append_left _ (List.mem_append_right _ he)
  have hordered : Ordered view max_stretch os' s :=
    hsteps.inv_outputs (I := fun _ past s => Ordered view max_stretch past s)
      ⟨by simp [atomicPort, atomicPool], portInv_init h0, rfl, fun cfg hcfg => ?_⟩
      (fun _ _ _ _ _ _ hs hC hstep => hs.step hapi hC.1 hC.2 hstep) (List.prefix_refl inputs') hrun'
  · have hsame : accesses os = accesses os' := by
      rw [hview.same_accesses]
      exact List.append_nil _
    have := hordered.installs
    rwa [installedConfigs, usedConfigs, ← hsame] at this
  · -- At first nothing is recorded, and no device has this configuration.
    have hne : cfg.asMaster ≠ ({} : I2cConfig).asMaster := by
      intro heq
      rw [cfgEqual_iff.mpr heq] at hcfg
      cases hcfg
    refine ⟨fun h => ?_, fun h => (hne h).elim⟩
    cases h

/-- While the first task writes to its device, the second one calls and times out; then it calls
again and writes to a device with another configuration, and the first one writes twice more. -/
def mixedInputs : List (PoolInput Bool PortCall DriverOutcome) :=
  [.call true (.write slowDev [0x03] [0x00]), .call false (.write fastDev [] [0x0f, 0xff]),
    .take true true] ++ List.replicate 7 (.access true {}) ++ [.take false false, .ret false] ++
    List.replicate 8 (.access true {}) ++ [.call false (.write fastDev [] [0x0f, 0xff]), .give true,
    .take false true, .ret true, .call true (.write slowDev [0x01] [0xff])] ++
    List.replicate 15 (.access false {}) ++ [.give false, .take true true, .ret false] ++
    List.replicate 16 (.access true {}) ++ [.give true, .ret true] ++
    [.call true (.write slowDev [0x01] [0x00]), .take true true] ++
    List.replicate 9 (.access true {}) ++ [.give true, .ret true]

/-- This is a run of the port, at whose end the mutex is free and in which no installation fails. -/
theorem mixedInputs_run :
    ∃ r, plainPort.run plainPort.init mixedInputs = some r ∧
      r.1.owner = none ∧
      usedConfigs r.2 = [slowDev.cfg.asMaster, fastDev.cfg.asMaster, slowDev.cfg.asMaster,
        slowDev.cfg.asMaster] ∧
      NoInstallFails r.2 :=
  ⟨_, rfl, rfl, by decide, by decide⟩

/-- The sections of the two tasks are one after another. -/
theorem portPool_atomic_mixed :
    ∃ s os, plainPort.run plainPort.init mixedInputs = some (s, os) ∧
      ∃ inputs' os', (atomicPort Bool plainDriver 0xfffff { driver := {} }).run
          (atomicPort Bool plainDriver 0xfffff { driver := {} }).init inputs' = some (s, os') ∧
         SameView os os' ∧ atomicHistory inputs' = history mixedInputs := by
  obtain ⟨⟨s, os⟩, hrun, hfree, -, -⟩ := mixedInputs_run
  exact ⟨s, os, hrun, portPool_atomic hrun hfree⟩

/-- Four transfers, three of which need another configuration than the one before. -/
theorem installs_eq_destutter_mixed :
    ∃ s os, plainPort.run plainPort.init mixedInputs = some (s, os) ∧
      usedConfigs os = [slowDev.cfg.asMaster, fastDev.cfg.asMaster, slowDev.cfg.asMaster,
        slowDev.cfg.asMaster] ∧
      installedConfigs os = (usedConfigs os).destutter (· ≠ ·) := by
  obtain ⟨⟨s, os⟩, hrun, hfree, hused, hok⟩ := mixedInputs_run
  refine ⟨s, os, hrun, hused, installs_eq_destutter plainDriver_documented rfl hrun hfree hok
    fun t c hmem => ?_⟩
  have hall : (mixedInputs.all fun i =>
      match i with
      | .call _ c => !cfgEqual c.dev.cfg {}
      | _ => true) = true := by decide
  simpa using List.all_eq_true.mp hall _ hmem

end PartLib.I2c.Port
