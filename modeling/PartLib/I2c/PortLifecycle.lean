import PartLib.I2c.PortRuns
import PartLib.Lib.Reaches

/-!
# The ports of the library

`i2cdev_init` clears the records of all ports and creates their mutexes, and `i2cdev_done` deletes the
drivers that are recorded, and the mutexes. `i2cLib` is the library over any number of their calls and
of transfers, one after another, each of which fails where the environment lets it.

A port on which an installation has failed is as new after `i2cdev_done` and `i2cdev_init`. But when
`i2cdev_init` clears the record of a port whose driver is installed, nobody deletes this driver any
more, and none can be installed beside it. So a port can still serve a device if and only if that has
not happened (`can_transfer_iff`). The driver is a parameter: what is assumed of it is what its
documentation says, and that there is an outcome with which nothing fails.
-/

namespace PartLib.I2c.Port

/-! ## The library -/

/-- A port: whether `states[port].lock` is a mutex, and what this protects. -/
structure LibPort (δ : Type) where
  lock : Bool := false
  bus : PortBus δ

section

variable {n : ℕ} {δ χ : Type}

/-- The record of a port after `memset`, which does not ask the driver. -/
def LibPort.cleared (p : LibPort δ) : LibPort δ := { bus := { p.bus with state := {} } }

/-- The driver of a port is deleted, and the record says so. -/
def LibPort.uninstalled (api : I2cApi δ χ) (p : LibPort δ) (x : χ) : LibPort δ :=
  { p with bus := (portAccess api (portAccess api p.bus .driverDelete x).1 (.setInstalled false) x).1 }

/-- A port without its mutex, and without the recorded driver. -/
def LibPort.closed (api : I2cApi δ χ) (p : LibPort δ) (x : χ) : LibPort δ :=
  { (if p.bus.state.installed then p.uninstalled api x else p) with lock := false }

/-- The loop of `i2cdev_init`, where `created` says for which ports there is memory. -/
def createLocks (created : Fin n → Bool) :
    List (Fin n) → (Fin n → LibPort δ) → (Fin n → LibPort δ) × Except EspError Unit
  | [], s => (s, .ok ())
  | i :: is, s =>
    if created i then createLocks created is (Function.update s i { s i with lock := true })
    else (s, .error .fail)

/-- `i2cdev_init`. -/
def i2cdevInit (created : Fin n → Bool) (s : Fin n → LibPort δ) :
    (Fin n → LibPort δ) × Except EspError Unit :=
  createLocks created (List.finRange n) fun i => (s i).cleared

/-- The loop of `i2cdev_done`, where `taken` says which mutexes can be taken in time, and `xs` what
becomes of the deletes. Only the mutex of a port with a driver is taken. -/
def closePorts (api : I2cApi δ χ) (taken : Fin n → Bool) (xs : Fin n → χ) :
    List (Fin n) → (Fin n → LibPort δ) → (Fin n → LibPort δ) × Except EspError Unit
  | [], s => (s, .ok ())
  | i :: is, s =>
    if (s i).lock = false then closePorts api taken xs is s
    else if (s i).bus.state.installed = true ∧ taken i = false then (s, .error .timeout)
    else closePorts api taken xs is (Function.update s i ((s i).closed api (xs i)))

/-- `i2cdev_done`. -/
def i2cdevDone (api : I2cApi δ χ) (taken : Fin n → Bool) (xs : Fin n → χ) (s : Fin n → LibPort δ) :
    (Fin n → LibPort δ) × Except EspError Unit := closePorts api taken xs (List.finRange n) s

/-- The moves: the calls of `i2cdev_init` and `i2cdev_done`, and a transfer on a port, with what the
environment decides of it. -/
inductive LibInput (n : ℕ) (χ : Type)
  | init (created : Fin n → Bool)
  | done (taken : Fin n → Bool) (xs : Fin n → χ)
  | call (i : Fin n) (c : PortCall) (taken : Bool) (xs : ℕ → χ)

/-- What is seen: the results of the calls. -/
inductive LibOut (n : ℕ)
  | init (res : Except EspError Unit)
  | done (res : Except EspError Unit)
  | call (i : Fin n) (c : PortCall) (res : Except EspError (List UInt8))

/-- A transfer on a port. -/
def LibPort.call (api : I2cApi δ χ) (max_stretch : UInt32) (p : LibPort δ) (c : PortCall)
    (taken : Bool) (xs : ℕ → χ) : LibPort δ × Except EspError (List UInt8) :=
  let r := (c.body max_stretch).run.eval (Program.lockHandle (portAccess api) taken xs) (p.bus, 0)
  ({ p with bus := r.2.1 }, r.1)

/-- The library, with `n` ports, whose drivers are as `d₀` when the chip starts. A transfer needs the
mutex of its port: to take a null pointer fails an assertion of the kernel. -/
def i2cLib (n : ℕ) (api : I2cApi δ χ) (d₀ : δ) (max_stretch : UInt32) :
    Machine (Fin n → LibPort δ) (LibInput n χ) (LibOut n) where
  init := fun _ => { bus := { driver := d₀ } }
  step s i :=
    match i with
    | .init created => some ((i2cdevInit created s).1, [.init (i2cdevInit created s).2])
    | .done taken xs => some ((i2cdevDone api taken xs s).1, [.done (i2cdevDone api taken xs s).2])
    | .call i c taken xs =>
      if (s i).lock = true ∨ c.argError ≠ none then
        some (Function.update s i ((s i).call api max_stretch c taken xs).1,
          [.call i c ((s i).call api max_stretch c taken xs).2])
      else none

/-- `i2cdev_init` is called while the driver of the port is installed. -/
def Orphans (view : δ → I2cDriver) (i : Fin n) (s : Fin n → LibPort δ) : LibInput n χ → Prop
  | .init _ => (view (s i).bus.driver).installed ≠ none
  | _ => False

instance {view : δ → I2cDriver} {i : Fin n} {s : Fin n → LibPort δ} :
    DecidablePred (Orphans (χ := χ) view i s)
  | .init _ => inferInstanceAs (Decidable (_ ≠ none))
  | .done .. => .isFalse id
  | .call .. => .isFalse id

/-- The transfer goes through on the port. -/
def Transfers (api : I2cApi δ χ) (d₀ : δ) (max_stretch : UInt32) (i : Fin n) (c : PortCall)
    (s : Fin n → LibPort δ) : Prop :=
  ∃ taken xs s' data, (i2cLib n api d₀ max_stretch).step s (.call i c taken xs) =
    some (s', [.call i c (.ok data)])

/-- What the documentation says of a transfer for a device that the driver can serve when all goes well,
which is the outcome `calm` of every call: no call fails that has what it needs, and there is memory. -/
structure I2cApi.Unfailing (api : I2cApi δ χ) (view : δ → I2cDriver) (max_stretch : UInt32)
    (dev : PortDev) (cmds : List I2cCmd) (calm : χ) : Prop where
  paramConfig : ∀ d, (api.paramConfig d dev.cfg.asMaster calm).2 = .ok ()
  driverInstall : ∀ d, (view d).installed = none → (api.driverInstall d .master calm).2 = .ok ()
  getTimeout : ∀ d, ∃ t, (api.getTimeout d calm).2 = .ok t
  setTimeout : ∀ d, (api.setTimeout d (dev.ticks max_stretch).toInt32 calm).2 = .ok ()
  linkCreate : ∀ d, (api.linkCreate d calm).2 = true
  linkAppend : ∀ d cmd, (api.linkAppend d cmd calm).2 = true
  cmdBegin : ∀ d, (view d).installed = some .master →
    ∃ data, (api.cmdBegin d (some cmds) calm).2 = .ok data

/-! ## The loops, seen from one port -/

/-- `i2cdev_init` leaves what it does not clear. -/
theorem createLocks_bus (created : Fin n → Bool) (is : List (Fin n)) (s : Fin n → LibPort δ)
    (i : Fin n) : ((createLocks created is s).1 i).bus = (s i).bus := by
  induction is generalizing s with
  | nil => rfl
  | cons j is ih =>
    unfold createLocks
    split_ifs with hcreated
    · rw [ih]
      by_cases hij : i = j
      · rw [hij, Function.update_self]
      · rw [Function.update_of_ne hij]
    · rfl

/-- With memory for all mutexes, every port gets one. -/
theorem createLocks_lock (is : List (Fin n)) (s : Fin n → LibPort δ) (i : Fin n)
    (h : i ∈ is ∨ (s i).lock = true) : ((createLocks (fun _ => true) is s).1 i).lock = true := by
  induction is generalizing s with
  | nil => simpa [createLocks] using h
  | cons j is ih =>
    unfold createLocks
    rw [if_pos rfl]
    refine ih _ ?_
    by_cases hij : i = j
    · rw [hij, Function.update_self]
      exact .inr rfl
    · rw [Function.update_of_ne hij]
      exact h.imp (fun hmem => (List.mem_cons.mp hmem).resolve_left hij) id

variable {api : I2cApi δ χ} {view : δ → I2cDriver} {d₀ : δ}

/-- What a port keeps when it is closed, it keeps in `i2cdev_done`. -/
theorem closePorts_keeps {P : LibPort δ → Prop} (hP : ∀ p x, P p → P (p.closed api x))
    (taken : Fin n → Bool) (xs : Fin n → χ) (is : List (Fin n)) {s : Fin n → LibPort δ} {i : Fin n}
    (h : P (s i)) : P ((closePorts api taken xs is s).1 i) := by
  induction is generalizing s with
  | nil => exact h
  | cons j is ih =>
    unfold closePorts
    split_ifs with hlock htaken
    · exact ih h
    · exact h
    · refine ih ?_
      by_cases hij : i = j
      · subst hij
        rw [Function.update_self]
        exact hP _ _ h
      · rwa [Function.update_of_ne hij]

/-- When all mutexes can be taken, no port keeps its own. -/
theorem closePorts_lock (xs : Fin n → χ) (is : List (Fin n)) (s : Fin n → LibPort δ) (i : Fin n)
    (hi : i ∈ is) : ((closePorts api (fun _ => true) xs is s).1 i).lock = false := by
  have hkeeps : ∀ {is : List (Fin n)} {s : Fin n → LibPort δ}, (s i).lock = false →
      ((closePorts api (fun _ => true) xs is s).1 i).lock = false :=
    closePorts_keeps (P := fun p => p.lock = false) (fun _ _ _ => rfl) _ _ _
  induction is generalizing s with
  | nil => cases hi
  | cons j is ih =>
    unfold closePorts
    rw [if_neg (fun h => Bool.noConfusion h.2 : ¬ ((s j).bus.state.installed = true ∧ true = false))]
    by_cases hij : i = j
    · subst hij
      split_ifs with hlock
      · exact hkeeps hlock
      · refine hkeeps ?_
        rw [Function.update_self]
        rfl
    · have hmem := (List.mem_cons.mp hi).resolve_left hij
      split_ifs
      · exact ih _ hmem
      · exact ih _ hmem

/-! ## A port that works -/

variable (view) in
/-- A driver that is installed is the recorded one, and a port without a mutex has none. -/
structure Working (p : LibPort δ) : Prop where
  inv : PortInv False (p.bus.known view)
  unlocked : p.lock = false → (view p.bus.driver).installed = none

/-- Without a driver the record may say anything. -/
theorem portInv_of_none {b : PortBus I2cDriver} (h : b.driver.installed = none) : PortInv False b :=
  ⟨fun m hm => (Option.some_ne_none m (hm.symm.trans h)).elim, False.elim⟩

/-- A port that works and is closed has no driver. -/
theorem Working.closed_driver (hapi : api.Documented view) {p : LibPort δ} (hp : Working view p)
    (x : χ) : (view (p.closed api x).bus.driver).installed = none := by
  unfold LibPort.closed
  cases hinstalled : p.bus.state.installed with
  | true =>
    rw [if_pos rfl]
    exact hapi.driverDelete p.bus.driver x
  | false =>
    cases hdrv : (view p.bus.driver).installed with
    | none => exact hdrv
    | some m =>
      have hrecorded : p.bus.state.installed = true := (hp.inv.recorded m hdrv).2.1
      rw [hinstalled] at hrecorded
      cases hrecorded

theorem Working.closed (hapi : api.Documented view) {p : LibPort δ} (hp : Working view p) (x : χ) :
    Working view (p.closed api x) :=
  ⟨portInv_of_none (hp.closed_driver hapi x), fun _ => hp.closed_driver hapi x⟩

/-- A call whose arguments fail the check leaves the port. -/
theorem LibPort.call_of_argError {max_stretch : UInt32} {c : PortCall} (h : c.argError ≠ none)
    (p : LibPort δ) (taken : Bool) (xs : ℕ → χ) : (p.call api max_stretch c taken xs).1 = p := by
  obtain ⟨e, he⟩ := Option.ne_none_iff_exists'.mp h
  rw [LibPort.call, PortCall.body_eq, he]
  rfl

/-- A transfer leaves a port that works, whatever fails in it. -/
theorem Working.call (hapi : api.Documented view) {max_stretch : UInt32} {p : LibPort δ} {c : PortCall}
    (hp : Working view p) (h : p.lock = true ∨ c.argError ≠ none) (taken : Bool) (xs : ℕ → χ) :
    Working view (p.call api max_stretch c taken xs).1 := by
  rcases h with hlock | harg
  · refine ⟨?_, fun hunlocked => Bool.noConfusion (hlock.symm.trans hunlocked)⟩
    exact (Guarded.eval (G := portGuard api view False) (portBody_guarded hapi c)
      (fun _ _ _ h => h.elim) hp.inv).1
  · rwa [LibPort.call_of_argError harg]

/-! ## A port with a driver that is not recorded -/

/-- The record is clear, and the driver is installed. -/
def Orphaned (b : PortBus I2cDriver) : Prop := b.driver.installed ≠ none ∧ b.state = {}

variable (api view) in
/-- The port behind its mutex, while it is so. -/
def orphanGuard : Guard (PortBus δ) χ PortReq.Ans where
  access := portAccess api
  inv b := Orphaned (b.known view)
  admits _ _ := True

section

variable {max_stretch : UInt32} {dev : PortDev} {α β : Type}

variable (api view) in
/-- The part `x` of a critical section leaves the port so, with the result that `Q` tells. -/
def OrphanPart (x : PortM α) (Q : Except EspError α → Prop) : Prop :=
  Critical (orphanGuard api view) (fun _ _ _ => True) (fun b => Orphaned (b.known view)) x
    fun _ b res => Orphaned (b.known view) ∧ Q res

/-- One part and then another. -/
theorem OrphanPart.bind {x : PortM α} {f : α → PortM β} {Q : Except EspError α → Prop}
    {R : Except EspError β → Prop} (hx : OrphanPart api view x Q)
    (hf : ∀ a, Q (.ok a) → OrphanPart api view (f a) R) (he : ∀ e, Q (.error e) → R (.error e)) :
    OrphanPart api view (x >>= f) R :=
  Critical.bind hx (fun _ a b hb => hf a hb.2 b hb.1) fun _ _ e hb => ⟨hb.1, he e hb.2⟩

/-- Requests that leave the port as it is. -/
theorem OrphanPart.leaves (hapi : api.Documented view) {x : PortM α} (hx : x.run.Accesses leaves) :
    OrphanPart api view x fun _ => True :=
  fun b hb => Program.wpInside_mono (fun _ _ _ h => ⟨h.1, trivial⟩)
    (hx.wpInside (P := fun b => Orphaned (b.known view)) (fun b r y hr hb => by
      obtain ⟨hstate, hdrv, -⟩ := hapi.leaves hr b y
      exact ⟨trivial, fun hnone => hb.1 (hdrv.symm.trans hnone), hstate.trans hb.2⟩) hb)

/-- The driver is not deleted, since none is recorded, and so it cannot be installed again. -/
theorem reinstall_orphaned (hapi : api.Documented view) :
    OrphanPart api view (reinstall dev) fun res => errorOf res ≠ none := by
  unfold reinstall
  refine OrphanPart.bind (Q := fun _ => True) ?_ (fun _ _ => ?_) fun _ _ => by simp [errorOf]
  · unfold deleteDriver
    refine OrphanPart.bind (Q := fun res => res = .ok false) ?_ (fun installed h => ?_)
      fun _ _ => trivial
    · refine Critical.request (r := .installed) (f := .ok) rfl fun b y hb _ => ⟨trivial, hb, ?_⟩
      exact congrArg (fun state => Except.ok (I2cPortState.installed state)) hb.2
    · cases h
      exact .result rfl fun b hb => ⟨hb, trivial⟩
  refine OrphanPart.bind (Q := fun _ => True) ?_ (fun _ _ => ?_) fun _ _ => by simp [errorOf]
  · refine Critical.request (r := .paramConfig dev.cfg.asMaster) (f := id) rfl fun b y hb _ =>
      ⟨trivial, ⟨?_, hb.2⟩, trivial⟩
    exact fun hnone => hb.1 ((hapi.paramConfig_keeps ..).symm.trans hnone)
  refine OrphanPart.bind (Q := fun res => errorOf res ≠ none) ?_ (fun _ h => by simp [errorOf] at h)
    fun _ _ => by simp [errorOf]
  refine Critical.request (r := .driverInstall dev.cfg.asMaster.mode) (f := id) rfl fun b y hb _ => ?_
  -- A driver is installed only where there is none.
  cases hres : (api.driverInstall b.driver dev.cfg.asMaster.mode y).2 with
  | ok u => exact absurd (hapi.driverInstall hres).1 hb.1
  | error e =>
    simp only [orphanGuard, portAccess, PortBus.driven, id, hres]
    refine ⟨trivial, ⟨fun hnone => hb.1 ?_, hb.2⟩, by simp [errorOf]⟩
    exact (hapi.driverInstall_fails hres).symm.trans hnone

/-- A transfer leaves the port so, and fails for a device that has a configuration. -/
theorem transfer_orphaned (hapi : api.Documented view) (cmds : List I2cCmd) :
    OrphanPart api view (transfer max_stretch dev cmds) fun res =>
      cfgEqual dev.cfg {} = false → errorOf res ≠ none := by
  unfold transfer i2cSetupPort
  refine OrphanPart.bind (Q := fun res => cfgEqual dev.cfg {} = false → errorOf res ≠ none)
    ?_ (fun _ h => ?_) fun _ h => by simp [errorOf]
  · refine OrphanPart.bind (Q := fun res => cfgEqual dev.cfg {} = false → errorOf res ≠ none)
      ?_ (fun _ h => ?_) fun _ h => by simp [errorOf]
    · unfold setupDriver
      refine OrphanPart.bind (Q := fun res => res = .ok {}) ?_ (fun config h => ?_)
        fun _ _ => by simp [errorOf]
      · refine Critical.request (r := .config) (f := .ok) rfl fun b y hb _ => ⟨trivial, hb, ?_⟩
        exact congrArg (fun state => Except.ok (I2cPortState.config state)) hb.2
      · cases h
        split_ifs with hcfg
        · refine .result rfl fun b hb => ⟨hb, fun hne => ?_⟩
          rw [hcfg] at hne
          cases hne
        · exact (reinstall_orphaned hapi).mono (fun _ hb => hb) fun _ _ _ hb =>
            ⟨hb.1, fun _ => hb.2⟩
    · exact (OrphanPart.leaves hapi (setupTimeout_leaves _ _)).mono (fun _ hb => hb)
        fun _ _ _ hb => ⟨hb.1, fun hne => absurd rfl (h hne)⟩
  · refine OrphanPart.bind (Q := fun _ => True) (.leaves hapi (buildLink_leaves cmds))
      (fun link _ => ?_) fun _ _ => by simp [errorOf]
    refine Critical.request (r := .cmdBegin link) (f := id) rfl fun b y hb _ =>
      ⟨trivial, ⟨fun hnone => hb.1 ?_, hb.2⟩, fun hne => absurd rfl (h hne)⟩
    exact (hapi.leaves (r := .cmdBegin link) rfl b y).2.1.symm.trans hnone

/-- A call leaves the port so, and fails for a device that has a configuration. -/
theorem portBody_orphaned (hapi : api.Documented view) (c : PortCall) :
    Guarded (orphanGuard api view) (fun _ _ _ _ _ => True)
      (fun c _ res => cfgEqual c.dev.cfg {} = false → errorOf res ≠ none) c
      (c.body max_stretch).run [] none := by
  refine portBody_guarded_of_transfer (fun _ _ => by simp [errorOf]) (fun _ => by simp [errorOf])
    fun _ => ?_
  exact transfer_orphaned hapi c.cmds

end

/-! ## A port that is new -/

variable (view) in
/-- Nothing is recorded, and there is no driver. -/
def Fresh (b : PortBus δ) : Prop := b.state = {} ∧ (view b.driver).installed = none

variable (view) in
/-- There is a driver. -/
def HasDriver (b : PortBus δ) : Prop := (view b.driver).installed = some .master

section

variable {max_stretch : UInt32} {dev : PortDev} {calm : χ} {cmds : List I2cCmd} {α β : Type}

variable (api calm) in
/-- When nothing fails, `x` completes on a port that `P` tells, and leaves one that `Q` tells. -/
def Completes (P : PortBus δ → Prop) (x : PortM α) (Q : α → PortBus δ → Prop) : Prop :=
  ∀ b k, P b → ∃ a b' k',
    x.run.eval (Program.lockHandle (portAccess api) true fun _ => calm) (b, k) = (.ok a, b', k') ∧
      Q a b'

/-- One part and then another. -/
theorem Completes.bind {x : PortM α} {f : α → PortM β} {P : PortBus δ → Prop}
    {Q : α → PortBus δ → Prop} {R : β → PortBus δ → Prop} (hx : Completes api calm P x Q)
    (hf : ∀ a, Completes api calm (Q a) (f a) R) : Completes api calm P (x >>= f) R := by
  intro b k hb
  obtain ⟨a, b₁, k₁, heval, hq⟩ := hx b k hb
  obtain ⟨a', b₂, k₂, heval', hr⟩ := hf a b₁ k₁ hq
  exact ⟨a', b₂, k₂, (Program.eval_exceptBind_ok heval f).trans heval', hr⟩

/-- One request that is not refused. -/
theorem Completes.request {x : PortM α} {P : PortBus δ → Prop} {Q : α → PortBus δ → Prop}
    {r : PortReq} {f : r.Ans → Except EspError α}
    (hx : x.run = .request (.access r) fun a => .pure (f a))
    (h : ∀ b, P b → ∃ a, f (portAccess api b r calm).2 = .ok a ∧ Q a (portAccess api b r calm).1) :
    Completes api calm P x Q := by
  intro b k hb
  obtain ⟨a, ha, hq⟩ := h b hb
  refine ⟨a, (portAccess api b r calm).1, k + 1, ?_, hq⟩
  rw [hx, ← ha]
  rfl

/-- A result, without a request. -/
theorem Completes.pure {P : PortBus δ → Prop} {Q : α → PortBus δ → Prop} {a : α}
    (h : ∀ b, P b → Q a b) : Completes api calm P (Pure.pure a) Q :=
  fun b k hb => ⟨a, b, k, rfl, h b hb⟩

/-- The driver is installed on a port that has none. -/
theorem reinstall_completes (hapi : api.Documented view)
    (hcalm : api.Unfailing view max_stretch dev cmds calm) :
    Completes api calm (Fresh view) (reinstall dev) fun _ => HasDriver view := by
  unfold reinstall
  refine Completes.bind (Q := fun _ b => (view b.driver).installed = none) ?_ fun _ => ?_
  · unfold deleteDriver
    refine Completes.bind (Q := fun installed b =>
      installed = false ∧ (view b.driver).installed = none) ?_ fun installed => ?_
    · refine .request (r := .installed) (f := .ok) rfl fun b hb => ⟨_, rfl, ?_, hb.2⟩
      exact congrArg I2cPortState.installed hb.1
    · rintro b k ⟨rfl, hb⟩
      exact ⟨(), b, k, rfl, hb⟩
  refine Completes.bind (Q := fun _ b => (view b.driver).installed = none) ?_ fun _ => ?_
  · exact .request (r := .paramConfig dev.cfg.asMaster) (f := id) rfl fun b hb =>
      ⟨(), hcalm.paramConfig _, (hapi.paramConfig_keeps ..).trans hb⟩
  refine Completes.bind (Q := fun _ => HasDriver view) ?_ fun _ => ?_
  · refine .request (r := .driverInstall dev.cfg.asMaster.mode) (f := id) rfl fun b hb => ?_
    have hok := hcalm.driverInstall b.driver hb
    exact ⟨(), hok, (hapi.driverInstall hok).2.1⟩
  refine Completes.bind (Q := fun _ => HasDriver view) ?_ fun _ => ?_
  · exact .request (r := .setInstalled true) (f := .ok) rfl fun b hb => ⟨(), rfl, hb⟩
  · exact .request (r := .setConfig dev.cfg.asMaster) (f := .ok) rfl fun b hb => ⟨(), rfl, hb⟩

theorem setupDriver_completes (hapi : api.Documented view)
    (hcalm : api.Unfailing view max_stretch dev cmds calm) (hcfg : cfgEqual dev.cfg {} = false) :
    Completes api calm (Fresh view) (setupDriver dev) fun _ => HasDriver view := by
  unfold setupDriver
  refine Completes.bind (Q := fun config b => config = {} ∧ Fresh view b) ?_ fun config => ?_
  · exact .request (r := .config) (f := .ok) rfl fun b hb =>
      ⟨_, rfl, congrArg I2cPortState.config hb.1, hb⟩
  · rintro b k ⟨rfl, hb⟩
    rw [if_neg (fun h => Bool.noConfusion (hcfg.symm.trans h))]
    exact reinstall_completes hapi hcalm b k hb

theorem setupTimeout_completes (hapi : api.Documented view)
    (hcalm : api.Unfailing view max_stretch dev cmds calm) :
    Completes api calm (HasDriver view) (setupTimeout max_stretch dev) fun _ => HasDriver view := by
  unfold setupTimeout
  refine Completes.bind (Q := fun _ => HasDriver view) ?_ fun t => ?_
  · refine .request (r := .getTimeout) (f := id) rfl fun b hb => ?_
    obtain ⟨t, ht⟩ := hcalm.getTimeout b.driver
    exact ⟨t, ht, (hapi.leaves (r := .getTimeout) rfl b calm).2.1.trans hb⟩
  split_ifs with hticks
  · exact .request (r := .setTimeout (dev.ticks max_stretch).toInt32) (f := id) rfl fun b hb =>
      ⟨(), hcalm.setTimeout _, (hapi.setTimeout_keeps ..).1.trans hb⟩
  · exact .pure fun _ hb => hb

/-- All commands are appended. -/
theorem appendCmds_completes (hapi : api.Documented view)
    (hcalm : api.Unfailing view max_stretch dev cmds calm) (link rest : List I2cCmd) :
    Completes api calm (HasDriver view) (appendCmds link rest) fun l b =>
      l = link ++ rest ∧ HasDriver view b := by
  induction rest generalizing link with
  | nil => exact .pure fun b hb => ⟨(List.append_nil link).symm, hb⟩
  | cons cmd rest ih =>
    unfold appendCmds
    refine Completes.bind (Q := fun memory b => memory = true ∧ HasDriver view b) ?_ fun memory => ?_
    · exact .request (r := .linkAppend cmd) (f := .ok) rfl fun b hb => ⟨_, rfl,
        hcalm.linkAppend .., (hapi.leaves (r := .linkAppend cmd) rfl b calm).2.1.trans hb⟩
    · rintro b k ⟨rfl, hb⟩
      simpa using ih (link ++ [cmd]) b k hb

theorem buildLink_completes (hapi : api.Documented view)
    (hcalm : api.Unfailing view max_stretch dev cmds calm) :
    Completes api calm (HasDriver view) (buildLink cmds) fun link b =>
      link = some cmds ∧ HasDriver view b := by
  unfold buildLink
  refine Completes.bind (Q := fun memory b => memory = true ∧ HasDriver view b) ?_ fun memory => ?_
  · exact .request (r := .linkCreate) (f := .ok) rfl fun b hb => ⟨_, rfl,
      hcalm.linkCreate .., (hapi.leaves (r := .linkCreate) rfl b calm).2.1.trans hb⟩
  · rintro b k ⟨rfl, hb⟩
    exact Completes.bind (appendCmds_completes hapi hcalm [] cmds)
      (fun link => .pure fun b hb => ⟨congrArg some hb.1, hb.2⟩) b k hb

theorem transfer_completes (hapi : api.Documented view)
    (hcalm : api.Unfailing view max_stretch dev cmds calm) (hcfg : cfgEqual dev.cfg {} = false) :
    Completes api calm (Fresh view) (transfer max_stretch dev cmds) fun _ _ => True := by
  unfold transfer i2cSetupPort
  refine Completes.bind (Q := fun _ => HasDriver view) ?_ fun _ => ?_
  · exact Completes.bind (setupDriver_completes hapi hcalm hcfg) fun _ =>
      setupTimeout_completes hapi hcalm
  refine Completes.bind (buildLink_completes hapi hcalm) fun link => ?_
  refine .request (r := .cmdBegin link) (f := id) rfl ?_
  rintro b ⟨rfl, hb⟩
  obtain ⟨data, hdata⟩ := hcalm.cmdBegin b.driver hb
  exact ⟨data, hdata, trivial⟩

/-- On a port that is new, a call for a device with a configuration succeeds when nothing fails. -/
theorem portBody_completes (hapi : api.Documented view) {c : PortCall}
    (hcalm : api.Unfailing view max_stretch c.dev c.cmds calm) (harg : c.argError = none)
    (hcfg : cfgEqual c.dev.cfg {} = false) :
    Completes api calm (Fresh view) (c.body max_stretch) fun _ _ => True := by
  rw [PortCall.body_eq, harg]
  refine Completes.bind (Q := fun _ => Fresh view) (fun b k hb => ⟨(), b, k, rfl, hb⟩) fun _ => ?_
  refine Completes.bind (Q := fun res _ => ∃ data, res = .ok data) (fun b k hb => ?_) fun res => ?_
  · obtain ⟨data, b', k', heval, -⟩ := transfer_completes hapi hcalm hcfg b k hb
    refine ⟨.ok data, b', k', ?_, data, rfl⟩
    rw [ExceptT.run_lift, ← bind_pure_comp, Program.eval_bind, heval]
    rfl
  · rintro b k ⟨data, rfl⟩
    exact ⟨data, b, k, rfl, trivial⟩

end

/-! ## Runs of the library -/

variable {max_stretch : UInt32} {i : Fin n} {c : PortCall} {s s' : Fin n → LibPort δ}
  {inp : LibInput n χ} {o : List (LibOut n)}

/-- What a step does to a port. -/
theorem i2cLib_step (h : (i2cLib n api d₀ max_stretch).step s inp = some (s', o)) (i : Fin n) :
    (∃ created, inp = .init created ∧ (s' i).bus = { (s i).bus with state := {} }) ∨
      (∃ taken xs, inp = .done taken xs ∧ s' i = (closePorts api taken xs (List.finRange n) s).1 i) ∨
      (∃ c taken xs, inp = .call i c taken xs ∧ ((s i).lock = true ∨ c.argError ≠ none) ∧
        s' i = ((s i).call api max_stretch c taken xs).1) ∨
      (∃ j c taken xs, inp = .call j c taken xs ∧ s' i = s i) := by
  cases inp with
  | init created =>
    cases h
    exact .inl ⟨created, rfl, createLocks_bus created _ _ i⟩
  | done taken xs =>
    cases h
    exact .inr (.inl ⟨taken, xs, rfl, rfl⟩)
  | call j c taken xs =>
    simp only [i2cLib, Option.ite_none_right_eq_some] at h
    obtain ⟨hgo, h⟩ := h
    cases h
    by_cases hij : i = j
    · subst hij
      exact .inr (.inr (.inl ⟨c, taken, xs, rfl, hgo, Function.update_self ..⟩))
    · exact .inr (.inr (.inr ⟨j, c, taken, xs, rfl, Function.update_of_ne hij ..⟩))

/-- A port works until its driver loses its record. -/
theorem Working.step (hapi : api.Documented view) (hs : Working view (s i))
    (h : (i2cLib n api d₀ max_stretch).step s inp = some (s', o)) :
    (Orphans view i s inp → Orphaned ((s' i).bus.known view)) ∧
      (¬ Orphans view i s inp → Working view (s' i)) := by
  obtain ⟨created, rfl, hbus⟩ | ⟨taken, xs, rfl, hport⟩ | ⟨c, taken, xs, rfl, hgo, hport⟩ |
    ⟨j, c, taken, xs, rfl, hport⟩ := i2cLib_step h i
  · refine ⟨fun hdrv => ?_, fun hdrv => ?_⟩
    · rw [hbus]
      exact ⟨hdrv, rfl⟩
    · have hnone : (view (s' i).bus.driver).installed = none := by
        rw [hbus]
        exact not_not.mp hdrv
      exact ⟨portInv_of_none hnone, fun _ => hnone⟩
  · refine ⟨False.elim, fun _ => ?_⟩
    rw [hport]
    exact closePorts_keeps (fun _ x hp => hp.closed hapi x) taken xs _ hs
  · refine ⟨False.elim, fun _ => ?_⟩
    rw [hport]
    exact hs.call hapi hgo taken xs
  · refine ⟨False.elim, fun _ => ?_⟩
    rwa [hport]

/-- A call leaves a driver without its record, and fails for a device that has a configuration. -/
theorem Orphaned.call (hapi : api.Documented view) {p : LibPort δ} (hp : Orphaned (p.bus.known view))
    (c : PortCall) (taken : Bool) (xs : ℕ → χ) :
    Orphaned ((p.call api max_stretch c taken xs).1.bus.known view) ∧
      (cfgEqual c.dev.cfg {} = false → errorOf (p.call api max_stretch c taken xs).2 ≠ none) := by
  obtain ⟨hbus, -, hres⟩ := (portBody_orphaned hapi c).eval (fun _ _ _ => trivial) hp
  exact ⟨hbus, hres⟩

/-- A driver without its record stays so. -/
theorem Orphaned.step (hapi : api.Documented view) (hs : Orphaned ((s i).bus.known view))
    (h : (i2cLib n api d₀ max_stretch).step s inp = some (s', o)) :
    Orphaned ((s' i).bus.known view) := by
  obtain ⟨created, -, hbus⟩ | ⟨taken, xs, -, hport⟩ | ⟨c, taken, xs, -, -, hport⟩ |
    ⟨j, c, taken, xs, -, hport⟩ := i2cLib_step h i
  · rw [hbus]
    exact ⟨hs.1, rfl⟩
  · rw [hport]
    refine closePorts_keeps (P := fun p => Orphaned (p.bus.known view)) (fun p x hp => ?_) taken xs _ hs
    have hclear : p.bus.state = {} := hp.2
    have hrecord : ¬ p.bus.state.installed = true := by
      rw [hclear]
      exact Bool.false_ne_true
    simp only [LibPort.closed, if_neg hrecord]
    exact hp
  · rw [hport]
    exact (hs.call hapi c taken xs).1
  · rwa [hport]

/-- No device with a configuration is served on such a port. -/
theorem Orphaned.not_transfers (hapi : api.Documented view) (hs : Orphaned ((s i).bus.known view))
    (hcfg : cfgEqual c.dev.cfg {} = false) : ¬ Transfers api d₀ max_stretch i c s := by
  rintro ⟨taken, xs, s', data, h⟩
  simp only [i2cLib, Option.ite_none_right_eq_some, Option.some.injEq, Prod.mk.injEq,
    List.cons.injEq, LibOut.call.injEq, true_and, and_true] at h
  have hfails : errorOf ((s i).call api max_stretch c taken xs).2 ≠ none :=
    (hs.call hapi c taken xs).2 hcfg
  rw [h.2.2] at hfails
  exact hfails rfl

/-- After `i2cdev_done` and `i2cdev_init` a port that works can be used. -/
theorem Working.reaches (hapi : api.Documented view) {calm : χ}
    (hcalm : api.Unfailing view max_stretch c.dev c.cmds calm) (hs : Working view (s i))
    (harg : c.argError = none) (hcfg : cfgEqual c.dev.cfg {} = false) :
    ∃ t, (i2cLib n api d₀ max_stretch).Reaches s t ∧ Transfers api d₀ max_stretch i c t := by
  have hclosed : Working view ((i2cdevDone api (fun _ => true) (fun _ => calm) s).1 i) :=
    closePorts_keeps (fun _ x hp => hp.closed hapi x) _ _ _ hs
  have hdrv : (view ((i2cdevDone api (fun _ => true) (fun _ => calm) s).1 i).bus.driver).installed =
      none := hclosed.unlocked (closePorts_lock _ _ s i (List.mem_finRange i))
  set s₁ := (i2cdevDone api (fun _ => true) (fun _ => calm) s).1
  set s₂ := (i2cdevInit (fun _ => true) s₁).1
  have hbus : (s₂ i).bus = { (s₁ i).bus with state := {} } := createLocks_bus _ _ _ i
  have hlock : (s₂ i).lock = true := createLocks_lock _ _ i (.inl (List.mem_finRange i))
  refine ⟨s₂, .head (i := .done (fun _ => true) fun _ => calm) rfl
    (.head (i := .init fun _ => true) rfl (.refl _)), ?_⟩
  have hfresh : Fresh view (s₂ i).bus := by
    rw [hbus]
    exact ⟨rfl, hdrv⟩
  obtain ⟨data, b', k', heval, -⟩ := portBody_completes hapi hcalm harg hcfg _ 0 hfresh
  have hres : ((s₂ i).call api max_stretch c true fun _ => calm).2 = .ok data :=
    congrArg Prod.fst heval
  refine ⟨true, fun _ => calm,
    Function.update s₂ i ((s₂ i).call api max_stretch c true fun _ => calm).1, data, ?_⟩
  simp only [i2cLib, if_pos (Or.inl hlock), hres]

/-- A port is broken when its driver loses its record, and by nothing else. -/
theorem i2cLib_breaks (hapi : api.Documented view) (h0 : (view d₀).installed = none) (n : ℕ)
    (max_stretch : UInt32) (i : Fin n) :
    (i2cLib n api d₀ max_stretch).Breaks (fun _ _ _ _ _ => True) (Orphans view i)
      (fun s => Working view (s i)) (fun s => Orphaned ((s i).bus.known view)) where
  init := ⟨portInv_init h0, fun _ => h0⟩
  good _ _ _ _ _ hs _ h := hs.step hapi h
  bad _ _ _ _ hs h := hs.step hapi h

/-- After any run, a port can still serve a device that has a configuration, however the run goes on,
if and only if `i2cdev_init` has not been called while the driver of the port was installed. -/
theorem can_transfer_iff (hapi : api.Documented view) (h0 : (view d₀).installed = none) {calm : χ}
    (hcalm : api.Unfailing view max_stretch c.dev c.cmds calm) (harg : c.argError = none)
    (hcfg : cfgEqual c.dev.cfg {} = false) {inputs : List (LibInput n χ)} {os : List (LibOut n)}
    (hrun : (i2cLib n api d₀ max_stretch).run (i2cLib n api d₀ max_stretch).init inputs = some (s, os)) :
    (∃ t, (i2cLib n api d₀ max_stretch).Reaches s t ∧ Transfers api d₀ max_stretch i c t) ↔
      (i2cLib n api d₀ max_stretch).AllSteps inputs fun _ s inp _ _ => ¬ Orphans view i s inp := by
  have hworking : ∀ s, Working view (s i) →
      ∃ t, (i2cLib n api d₀ max_stretch).Reaches s t ∧ Transfers api d₀ max_stretch i c t :=
    fun _ hs => hs.reaches hapi hcalm harg hcfg
  have horphaned : ∀ s, Orphaned ((s i).bus.known view) → ¬ Transfers api d₀ max_stretch i c s :=
    fun _ hs => hs.not_transfers hapi hcfg
  exact (i2cLib_breaks hapi h0 n max_stretch i).reaches_iff hworking horphaned
    (fun _ _ _ _ _ _ => trivial) hrun

/-- With no errors and with memory, nothing fails in the driver that keeps only what there is to
know. -/
theorem plainDriver_unfailing (max_stretch : UInt32) (dev : PortDev) (cmds : List I2cCmd) :
    plainDriver.Unfailing id max_stretch dev cmds {} where
  paramConfig _ := rfl
  driverInstall d hd := by
    have hnone : d.installed = none := hd
    simp [plainDriver, DriverOutcome.result, hnone]
  getTimeout _ := ⟨_, rfl⟩
  setTimeout _ := rfl
  linkCreate _ := rfl
  linkAppend _ _ := rfl
  cmdBegin d hd := by
    have hmaster : d.installed = some .master := hd
    simp [plainDriver, DriverOutcome.result, hmaster]

/-- The library, with two ports and this driver. -/
def plainLib : Machine (Fin 2 → LibPort I2cDriver) (LibInput 2 DriverOutcome) (LibOut 2) :=
  i2cLib 2 plainDriver {} 0

/-- The mutexes are created, and a register of a device on a port is written. -/
def firstWrite (i : Fin n) (xs : ℕ → DriverOutcome) : List (LibInput n DriverOutcome) :=
  [.init fun _ => true, .call i (.write slowDev [1] [2]) true xs]

/-- `i2c_driver_install` fails. -/
def failedWrite (i : Fin n) : List (LibInput n DriverOutcome) :=
  firstWrite i fun k => if k = 3 then { error := some .fail } else {}

/-- The library is initialized a second time. -/
def secondInit (i : Fin n) : List (LibInput n DriverOutcome) :=
  firstWrite i (fun _ => {}) ++ [.init fun _ => true]

/-- After a failure of `i2c_driver_install` the port can serve the device. After the second
`i2cdev_init` it cannot, and the other port can. -/
theorem can_transfer_iff_two_ports :
    (∃ s os, plainLib.run plainLib.init (failedWrite 0) = some (s, os) ∧
      ∃ t, plainLib.Reaches s t ∧ Transfers plainDriver {} 0 0 (.write slowDev [1] [2]) t) ∧
    ∃ s os, plainLib.run plainLib.init (secondInit 0) = some (s, os) ∧
      (¬ ∃ t, plainLib.Reaches s t ∧ Transfers plainDriver {} 0 0 (.write slowDev [1] [2]) t) ∧
      ∃ t, plainLib.Reaches s t ∧ Transfers plainDriver {} 0 1 (.write slowDev [1] [2]) t := by
  have hiff : ∀ (i : Fin 2) inputs {s os}, plainLib.run plainLib.init inputs = some (s, os) →
      ((∃ t, plainLib.Reaches s t ∧ Transfers plainDriver {} 0 i (.write slowDev [1] [2]) t) ↔
        plainLib.AllSteps inputs fun _ s inp _ _ => ¬ Orphans id i s inp) := fun i _ _ _ =>
    can_transfer_iff plainDriver_documented rfl (plainDriver_unfailing ..) (by decide) (by decide)
  refine ⟨⟨_, _, rfl, ?_⟩, _, _, rfl, ?_, ?_⟩
  · refine (hiff 0 (failedWrite 0) rfl).mpr ?_
    decide +kernel
  · refine fun h => absurd ((hiff 0 (secondInit 0) rfl).mp h) ?_
    decide +kernel
  · refine (hiff 1 (secondInit 0) rfl).mpr ?_
    decide +kernel

end

end PartLib.I2c.Port
