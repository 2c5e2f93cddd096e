import PartLib.Lib.LockInvariant
import PartLib.I2c.I2cDev

/-!
# A port of the I2C bus

The port of `i2cdev.c` under the functions of the drivers: what `states[port]` records of the driver
that is installed, `i2c_setup_port`, which installs the driver again when the configuration of a
device is another one than the recorded one, and `i2c_dev_read` and `i2c_dev_write` as they are
between the mutex of the port and `i2c_master_cmd_begin`, on the ESP32.

Each read and write of the record and each call of the ESP-IDF driver is one request, so the tasks
that use the devices of a port are a pool behind the mutex of the port. The driver is a parameter,
`I2cApi`, and what the port relies on is what its documentation says, `I2cApi.Documented`. A link is
local to a call, `ack_en` is always true, and a read ends with a NACK.
-/

namespace PartLib.I2c

namespace Port

/-! ## Configurations -/

/-- `i2c_mode_t`. -/
inductive I2cMode
  | slave
  | master
  deriving DecidableEq

/-- `i2c_config_t`, in the fields that the ESP32 has. -/
structure I2cConfig where
  mode : I2cMode := .slave
  sda_io_num : ℤ := 0
  scl_io_num : ℤ := 0
  sda_pullup_en : Bool := false
  scl_pullup_en : Bool := false
  clk_speed : UInt32 := 0
  deriving DecidableEq

/-- The configuration as the driver is given it: `temp` of `i2c_setup_port`. -/
def I2cConfig.asMaster (cfg : I2cConfig) : I2cConfig := { cfg with mode := .master }

/-- `cfg_equal`, which does not look at the mode. -/
def cfgEqual (a b : I2cConfig) : Bool :=
  a.scl_io_num == b.scl_io_num && a.sda_io_num == b.sda_io_num && a.clk_speed == b.clk_speed &&
    a.scl_pullup_en == b.scl_pullup_en && a.sda_pullup_en == b.sda_pullup_en

/-- Configurations are equal for `cfg_equal` when the driver is given the same one for both. -/
theorem cfgEqual_iff {a b : I2cConfig} : cfgEqual a b = true ↔ a.asMaster = b.asMaster := by
  simp only [cfgEqual, I2cConfig.asMaster, Bool.and_eq_true, beq_iff_eq, I2cConfig.mk.injEq,
    true_and]
  tauto

@[simp]
theorem I2cConfig.asMaster_asMaster (cfg : I2cConfig) : cfg.asMaster.asMaster = cfg.asMaster := rfl

/-- `i2c_dev_t`, but for its port and its mutex. -/
structure PortDev where
  cfg : I2cConfig
  addr : UInt8
  timeout_ticks : UInt32 := 0
  deriving DecidableEq

/-! ## The descriptors of the drivers -/

/-- `tca9534_init_desc` on a descriptor that is all zero; `mutex` says whether
`i2c_dev_create_mutex` finds memory. -/
def tca9534InitDesc (addr : UInt8) (sda_gpio scl_gpio : ℤ) (mutex : Bool) : Except EspError PortDev :=
  if addr &&& 0x20 = 0 then .error .invalidArg
  else if mutex then
    .ok { cfg := { sda_io_num := sda_gpio, scl_io_num := scl_gpio, clk_speed := 400000 }, addr := addr }
  else .error .fail

/-- `mcp4728_init_desc` on a descriptor that is all zero. -/
def mcp4728InitDesc (addr : UInt8) (sda_gpio scl_gpio : ℤ) (mutex : Bool) : Except EspError PortDev :=
  if addr < 0x60 ∨ 0x68 < addr then .error .invalidArg
  else if mutex then
    .ok { cfg := { sda_io_num := sda_gpio, scl_io_num := scl_gpio, clk_speed := 1000000 }, addr := addr }
  else .error .fail

/-- A descriptor of the drivers has a configuration, whatever its pins are. -/
theorem initDesc_configured {addr : UInt8} {sda_gpio scl_gpio : ℤ} {mutex : Bool} {dev : PortDev}
    (h : tca9534InitDesc addr sda_gpio scl_gpio mutex = .ok dev ∨
      mcp4728InitDesc addr sda_gpio scl_gpio mutex = .ok dev) : cfgEqual dev.cfg {} = false := by
  rcases h with h | h
  · unfold tca9534InitDesc at h
    split_ifs at h
    cases h
    simp [cfgEqual]
  · unfold mcp4728InitDesc at h
    split_ifs at h
    cases h
    simp [cfgEqual]

/-! ## Command links -/

/-- The commands of a link. -/
inductive I2cCmd
  | start
  | writeByte (data : UInt8)
  | write (data : List UInt8)
  | read (size : ℕ)
  | stop
  deriving DecidableEq

/-- The bytes that a link reads. -/
def readSize : List I2cCmd → ℕ
  | [] => 0
  | .read size :: cmds => size + readSize cmds
  | _ :: cmds => readSize cmds

/-- The commands of `i2c_dev_read`. -/
def readCmds (dev : PortDev) (out_data : List UInt8) (in_size : ℕ) : List I2cCmd :=
  (if out_data ≠ [] then [.start, .writeByte (dev.addr <<< 1), .write out_data] else []) ++
    [.start, .writeByte (dev.addr <<< 1 ||| 1), .read in_size, .stop]

/-- The commands of `i2c_dev_write`. -/
def writeCmds (dev : PortDev) (out_reg out_data : List UInt8) : List I2cCmd :=
  [.start, .writeByte (dev.addr <<< 1)] ++ (if out_reg ≠ [] then [.write out_reg] else []) ++
    [.write out_data, .stop]

/-! ## The record and the driver -/

/-- `i2c_port_state_t`, but for its lock. -/
structure I2cPortState where
  config : I2cConfig := {}
  installed : Bool := false
  deriving DecidableEq

/-- The functions of the driver of a port, as they change its state `δ`. What nobody has a say in, such
as which calls fail, whether a command finds memory in its link, and what is read, is a `χ`. -/
structure I2cApi (δ χ : Type) where
  driverDelete : δ → χ → δ × Except EspError Unit
  paramConfig : δ → I2cConfig → χ → δ × Except EspError Unit
  driverInstall : δ → I2cMode → χ → δ × Except EspError Unit
  getTimeout : δ → χ → δ × Except EspError Int32
  setTimeout : δ → Int32 → χ → δ × Except EspError Unit
  /-- Whether there is memory for a link. -/
  linkCreate : δ → χ → δ × Bool
  /-- Whether there is memory for one more command of it. -/
  linkAppend : δ → I2cCmd → χ → δ × Bool
  cmdBegin : δ → Option (List I2cCmd) → χ → δ × Except EspError (List UInt8)

/-- What there is to know of the driver of a port: the mode in which it is installed, and how the
peripheral is set. -/
structure I2cDriver where
  installed : Option I2cMode := none
  params : I2cConfig := {}
  timeout : Int32 := 0
  deriving DecidableEq

/-- What the documentation says of the driver, of which `view` tells what there is to know. -/
structure I2cApi.Documented {δ χ : Type} (api : I2cApi δ χ) (view : δ → I2cDriver) : Prop where
  /-- A driver that is deleted is not there any more. -/
  driverDelete : ∀ d x, (view (api.driverDelete d x).1).installed = none
  paramConfig_keeps : ∀ d cfg x, (view (api.paramConfig d cfg x).1).installed = (view d).installed
  paramConfig : ∀ {d cfg x u}, (api.paramConfig d cfg x).2 = .ok u →
    (view (api.paramConfig d cfg x).1).params = cfg
  /-- A driver is installed only where there is none. -/
  driverInstall : ∀ {d mode x u}, (api.driverInstall d mode x).2 = .ok u →
    (view d).installed = none ∧ (view (api.driverInstall d mode x).1).installed = some mode ∧
      (view (api.driverInstall d mode x).1).params = (view d).params
  driverInstall_fails : ∀ {d mode x e}, (api.driverInstall d mode x).2 = .error e →
    (view (api.driverInstall d mode x).1).installed = (view d).installed
  getTimeout_keeps : ∀ d x, view (api.getTimeout d x).1 = view d
  getTimeout : ∀ {d x t}, (api.getTimeout d x).2 = .ok t → t = (view d).timeout
  setTimeout_keeps : ∀ d t x, (view (api.setTimeout d t x).1).installed = (view d).installed ∧
    (view (api.setTimeout d t x).1).params = (view d).params
  setTimeout : ∀ {d t x u}, (api.setTimeout d t x).2 = .ok u →
    (view (api.setTimeout d t x).1).timeout = t
  linkCreate_keeps : ∀ d x, view (api.linkCreate d x).1 = view d
  linkAppend_keeps : ∀ d cmd x, view (api.linkAppend d cmd x).1 = view d
  cmdBegin_keeps : ∀ d link x, view (api.cmdBegin d link x).1 = view d
  /-- Without a driver no transaction begins. -/
  cmdBegin_refuses : ∀ {d}, (view d).installed = none → ∀ link x,
    (api.cmdBegin d link x).2 = .error .invalidState
  /-- Without a link neither; with one, its commands read as many bytes as they are told. -/
  cmdBegin : ∀ {d link x data}, (api.cmdBegin d link x).2 = .ok data →
    ∃ cmds, link = some cmds ∧ data.length = readSize cmds

/-- What the mutex of a port protects: the record of the port, and the driver. -/
structure PortBus (δ : Type) where
  state : I2cPortState := {}
  driver : δ

/-- What there is to know of a port. -/
def PortBus.known {δ : Type} (view : δ → I2cDriver) (b : PortBus δ) : PortBus I2cDriver :=
  ⟨b.state, view b.driver⟩

/-- The port after a call of the driver, with what this returns. -/
def PortBus.driven {δ α : Type} (b : PortBus δ) (r : δ × α) : PortBus δ × α :=
  ({ b with driver := r.1 }, r.2)

/-- The requests of a call: reads and writes of the record, calls of the driver, and memory for the
link or for one more command of it. -/
inductive PortReq
  | config
  | installed
  | setInstalled (b : Bool)
  | setConfig (cfg : I2cConfig)
  | driverDelete
  | paramConfig (cfg : I2cConfig)
  | driverInstall (mode : I2cMode)
  | getTimeout
  | setTimeout (timeout : Int32)
  | linkCreate
  | linkAppend (cmd : I2cCmd)
  | cmdBegin (link : Option (List I2cCmd))
  deriving DecidableEq

/-- The answers to the requests. -/
abbrev PortReq.Ans : PortReq → Type
  | .config => I2cConfig
  | .installed => Bool
  | .setInstalled _ => Unit
  | .setConfig _ => Unit
  | .driverDelete => Except EspError Unit
  | .paramConfig _ => Except EspError Unit
  | .driverInstall _ => Except EspError Unit
  | .getTimeout => Except EspError Int32
  | .setTimeout _ => Except EspError Unit
  | .linkCreate => Bool
  | .linkAppend _ => Bool
  | .cmdBegin _ => Except EspError (List UInt8)

/-- The effect of a request and its answer. -/
def portAccess {δ χ : Type} (api : I2cApi δ χ) (b : PortBus δ) :
    (r : PortReq) → χ → PortBus δ × r.Ans
  | .config, _ => (b, b.state.config)
  | .installed, _ => (b, b.state.installed)
  | .setInstalled v, _ => ({ b with state := { b.state with installed := v } }, ())
  | .setConfig cfg, _ => ({ b with state := { b.state with config := cfg } }, ())
  | .driverDelete, x => b.driven (api.driverDelete b.driver x)
  | .paramConfig cfg, x => b.driven (api.paramConfig b.driver cfg x)
  | .driverInstall mode, x => b.driven (api.driverInstall b.driver mode x)
  | .getTimeout, x => b.driven (api.getTimeout b.driver x)
  | .setTimeout t, x => b.driven (api.setTimeout b.driver t x)
  | .linkCreate, x => b.driven (api.linkCreate b.driver x)
  | .linkAppend cmd, x => b.driven (api.linkAppend b.driver cmd x)
  | .cmdBegin link, x => b.driven (api.cmdBegin b.driver link x)

/-! ## The functions -/

/-- The programs of the port, without their errors. -/
abbrev PortProgram := Program (LockReq.Ans PortReq.Ans)

/-- The functions of the port. -/
abbrev PortM := ExceptT EspError PortProgram

/-- A request that is answered, with its answer. -/
def ask (r : PortReq) : PortM r.Ans := ExceptT.lift (Program.ask (LockReq.access r))

/-- `i2c_param_config`, whose error is returned. -/
def i2cParamConfig (cfg : I2cConfig) : PortM Unit :=
  ExceptT.mk (Program.ask (LockReq.access (PortReq.paramConfig cfg)) : PortProgram (Except EspError Unit))

/-- `i2c_driver_install`, whose error is returned. -/
def i2cDriverInstall (mode : I2cMode) : PortM Unit :=
  ExceptT.mk (Program.ask (LockReq.access (PortReq.driverInstall mode)) : PortProgram (Except EspError Unit))

/-- `i2c_get_timeout`, whose error is returned. -/
def i2cGetTimeout : PortM Int32 :=
  ExceptT.mk (Program.ask (LockReq.access PortReq.getTimeout) : PortProgram (Except EspError Int32))

/-- `i2c_set_timeout`, whose error is returned. -/
def i2cSetTimeout (timeout : Int32) : PortM Unit :=
  ExceptT.mk (Program.ask (LockReq.access (PortReq.setTimeout timeout)) : PortProgram (Except EspError Unit))

/-- `i2c_master_cmd_begin`, whose error is returned. -/
def i2cMasterCmdBegin (link : Option (List I2cCmd)) : PortM (List UInt8) :=
  ExceptT.mk (Program.ask (LockReq.access (PortReq.cmdBegin link)) :
    PortProgram (Except EspError (List UInt8)))

/-- `SEMAPHORE_TAKE`. -/
def semaphoreTake : PortM Unit := do
  let ok : Bool ← ExceptT.lift (Program.ask LockReq.take : PortProgram Bool)
  if ok then pure () else throw .timeout

/-- `SEMAPHORE_GIVE`. -/
def semaphoreGive : PortM Unit := do
  let ok : Bool ← ExceptT.lift (Program.ask LockReq.give : PortProgram Bool)
  if ok then pure () else throw .fail

/-- The driver is deleted when the port has one; the result is not looked at. -/
def deleteDriver : PortM Unit := do
  let installed : Bool ← ask .installed
  if installed then discard (ask .driverDelete) else pure ()

/-- The driver is installed again: the branch of `i2c_setup_port` where the configurations differ. -/
def reinstall (dev : PortDev) : PortM Unit := do
  let temp := dev.cfg.asMaster
  deleteDriver
  i2cParamConfig temp
  i2cDriverInstall temp.mode
  let _ : Unit ← ask (.setInstalled true)
  ask (.setConfig temp)

/-- The configuration of the device is compared with the recorded one. -/
def setupDriver (dev : PortDev) : PortM Unit := do
  let config : I2cConfig ← ask .config
  if cfgEqual dev.cfg config then pure () else reinstall dev

/-- The ticks that a device is served with; `max_stretch` is `I2CDEV_MAX_STRETCH_TIME`. -/
def PortDev.ticks (max_stretch : UInt32) (dev : PortDev) : UInt32 :=
  if dev.timeout_ticks ≠ 0 then dev.timeout_ticks else max_stretch

/-- The timeout of the peripheral is set when it is another one: the end of `i2c_setup_port`. -/
def setupTimeout (max_stretch : UInt32) (dev : PortDev) : PortM Unit := do
  let t ← i2cGetTimeout
  if dev.ticks max_stretch ≠ t.toUInt32 then i2cSetTimeout (dev.ticks max_stretch).toInt32
  else pure ()

/-- `i2c_setup_port`, on a port that exists. -/
def i2cSetupPort (max_stretch : UInt32) (dev : PortDev) : PortM Unit := do
  setupDriver dev
  setupTimeout max_stretch dev

/-- The commands that find memory are appended to the link, one after another. -/
def appendCmds : List I2cCmd → List I2cCmd → PortM (List I2cCmd)
  | link, [] => pure link
  | link, cmd :: cmds => do
    let memory : Bool ← ask (.linkAppend cmd)
    appendCmds (if memory then link ++ [cmd] else link) cmds

/-- `i2c_cmd_link_create`, and then the commands; without a link no command is appended. -/
def buildLink (cmds : List I2cCmd) : PortM (Option (List I2cCmd)) := do
  let memory : Bool ← ask .linkCreate
  if memory then
    let link ← appendCmds [] cmds
    pure (some link)
  else pure none

/-- What `i2c_dev_read` and `i2c_dev_write` do with the mutex of the port. -/
def transfer (max_stretch : UInt32) (dev : PortDev) (cmds : List I2cCmd) : PortM (List UInt8) := do
  i2cSetupPort max_stretch dev
  let link ← buildLink cmds
  i2cMasterCmdBegin link

/-- The mutex is taken, and given whatever the transfer returns. -/
def withPort (max_stretch : UInt32) (dev : PortDev) (cmds : List I2cCmd) : PortM (List UInt8) := do
  semaphoreTake
  let res ← ExceptT.lift (transfer max_stretch dev cmds).run
  semaphoreGive
  match res with
  | .ok data => pure data
  | .error e => throw e

/-- `i2c_dev_read`: the bytes read are those of `in_data`. -/
def i2cDevRead (max_stretch : UInt32) (dev : PortDev) (out_data : List UInt8) (in_size : ℕ) :
    PortM (List UInt8) :=
  if in_size = 0 then throw .invalidArg
  else withPort max_stretch dev (readCmds dev out_data in_size)

/-- `i2c_dev_write`. -/
def i2cDevWrite (max_stretch : UInt32) (dev : PortDev) (out_reg out_data : List UInt8) :
    PortM (List UInt8) :=
  if out_data = [] then throw .invalidArg
  else withPort max_stretch dev (writeCmds dev out_reg out_data)

/-- The requests that leave the record, and whether there is a driver. -/
def leaves : PortReq → Bool
  | .getTimeout => true
  | .setTimeout _ => true
  | .linkCreate => true
  | .linkAppend _ => true
  | .cmdBegin _ => true
  | _ => false

/-- These requests do so with every driver that does what its documentation says. -/
theorem I2cApi.Documented.leaves {δ χ : Type} {api : I2cApi δ χ} {view : δ → I2cDriver}
    (hapi : api.Documented view) {r : PortReq} (hr : leaves r = true) (b : PortBus δ) (y : χ) :
    (portAccess api b r y).1.state = b.state ∧
      (view (portAccess api b r y).1.driver).installed = (view b.driver).installed ∧
      (view (portAccess api b r y).1.driver).params = (view b.driver).params := by
  have hkeeps : ∀ d, view d = view b.driver →
      (view d).installed = (view b.driver).installed ∧ (view d).params = (view b.driver).params :=
    fun d hd => ⟨by rw [hd], by rw [hd]⟩
  cases r with
  | getTimeout => exact ⟨rfl, hkeeps _ (hapi.getTimeout_keeps _ _)⟩
  | setTimeout t => exact ⟨rfl, hapi.setTimeout_keeps _ _ _⟩
  | linkCreate => exact ⟨rfl, hkeeps _ (hapi.linkCreate_keeps _ _)⟩
  | linkAppend cmd => exact ⟨rfl, hkeeps _ (hapi.linkAppend_keeps _ _ _)⟩
  | cmdBegin link => exact ⟨rfl, hkeeps _ (hapi.cmdBegin_keeps _ _ _)⟩
  | _ => cases hr

theorem setupTimeout_leaves (max_stretch : UInt32) (dev : PortDev) :
    (setupTimeout max_stretch dev).run.Accesses leaves := by
  unfold setupTimeout
  refine Program.Accesses.exceptBind ⟨rfl, fun _ => trivial⟩ fun t => ?_
  by_cases hticks : dev.ticks max_stretch ≠ t.toUInt32
  · rw [if_pos hticks]
    exact ⟨rfl, fun _ => trivial⟩
  · rw [if_neg hticks]
    trivial

theorem appendCmds_leaves (link cmds : List I2cCmd) : (appendCmds link cmds).run.Accesses leaves := by
  induction cmds generalizing link with
  | nil => trivial
  | cons cmd cmds ih =>
    unfold appendCmds
    exact Program.Accesses.exceptBind ⟨rfl, fun _ => trivial⟩ fun _ => ih _

theorem buildLink_leaves (cmds : List I2cCmd) : (buildLink cmds).run.Accesses leaves := by
  unfold buildLink
  refine Program.Accesses.exceptBind ⟨rfl, fun _ => trivial⟩ fun memory => ?_
  cases memory with
  | false => trivial
  | true => exact Program.Accesses.exceptBind (appendCmds_leaves [] cmds) fun _ => trivial

/-! ## The calls of a port -/

/-- The calls of the tasks. -/
inductive PortCall
  | read (dev : PortDev) (out_data : List UInt8) (in_size : ℕ)
  | write (dev : PortDev) (out_reg out_data : List UInt8)
  deriving DecidableEq

/-- The device of a call. -/
def PortCall.dev : PortCall → PortDev
  | .read dev _ _ => dev
  | .write dev _ _ => dev

/-- The commands of a call. -/
def PortCall.cmds : PortCall → List I2cCmd
  | .read dev out_data in_size => readCmds dev out_data in_size
  | .write dev out_reg out_data => writeCmds dev out_reg out_data

/-- The error of the check of the arguments. -/
def PortCall.argError : PortCall → Option EspError
  | .read _ _ in_size => if in_size = 0 then some .invalidArg else none
  | .write _ _ out_data => if out_data = [] then some .invalidArg else none

/-- The function called. -/
def PortCall.body (max_stretch : UInt32) : PortCall → PortM (List UInt8)
  | .read dev out_data in_size => i2cDevRead max_stretch dev out_data in_size
  | .write dev out_reg out_data => i2cDevWrite max_stretch dev out_reg out_data

/-- A call whose arguments pass the check uses the port; another returns the error at once. -/
theorem PortCall.body_eq (max_stretch : UInt32) (c : PortCall) :
    c.body max_stretch =
      match c.argError with
      | some e => throw e
      | none => withPort max_stretch c.dev c.cmds := by
  cases c with
  | read dev out_data in_size =>
    by_cases h : in_size = 0
    · simp [PortCall.body, PortCall.argError, i2cDevRead, h]
    · simp [PortCall.body, PortCall.argError, i2cDevRead, h, PortCall.dev, PortCall.cmds]
  | write dev out_reg out_data =>
    by_cases h : out_data = []
    · simp [PortCall.body, PortCall.argError, i2cDevWrite, h]
    · simp [PortCall.body, PortCall.argError, i2cDevWrite, h, PortCall.dev, PortCall.cmds]

/-- The tasks `τ` use the devices of a port, from the state `b` of it on. -/
def portPool (τ : Type) [DecidableEq τ] {δ χ : Type} (api : I2cApi δ χ) (max_stretch : UInt32)
    (b : PortBus δ) :
    Machine (Pool τ PortCall (PortBus δ) PortReq.Ans (Except EspError (List UInt8)))
      (PoolInput τ PortCall χ)
      (PoolOut τ PortCall PortReq.Ans (Except EspError (List UInt8))) :=
  pool τ (fun c => (c.body max_stretch).run) (portAccess api) b

/-! ## A driver -/

/-- What the environment decides of a call: its error, the timeout that a new configuration leaves,
whether there is memory, and the bytes that are read. -/
structure DriverOutcome where
  error : Option EspError := none
  timeout : Int32 := 0
  memory : Bool := true
  data : ℕ → UInt8 := fun _ => 0

/-- The result of a call that leaves the driver as `d` unless it fails. -/
def DriverOutcome.result {δ α : Type} (x : DriverOutcome) (d d' : δ) (a : α) : δ × Except EspError α :=
  match x.error with
  | some e => (d, .error e)
  | none => (d', .ok a)

/-- A driver that keeps only what there is to know of it. It can be deleted when it is installed, and is
installed only when it is not; without it, and without a link, no transaction begins. -/
def plainDriver : I2cApi I2cDriver DriverOutcome where
  driverDelete d _ :=
    match d.installed with
    | some _ => ({ d with installed := none }, .ok ())
    | none => (d, .error .fail)
  paramConfig d cfg x := x.result d { d with params := cfg, timeout := x.timeout } ()
  driverInstall d mode x :=
    match d.installed with
    | some _ => (d, .error .fail)
    | none => x.result d { d with installed := some mode } ()
  getTimeout d x := x.result d d d.timeout
  setTimeout d t x := x.result d { d with timeout := t } ()
  linkCreate d x := (d, x.memory)
  linkAppend d _ x := (d, x.memory)
  cmdBegin d link x :=
    match d.installed, link with
    | none, _ => (d, .error .invalidState)
    | some _, none => (d, .error .invalidArg)
    | some _, some cmds => x.result d d ((List.range (readSize cmds)).map x.data)

/-- It does what the documentation says. -/
theorem plainDriver_documented : plainDriver.Documented id where
  driverDelete d x := by
    rcases hd : d.installed <;> simp [plainDriver, hd]
  paramConfig_keeps d cfg x := by
    rcases hx : x.error <;> simp [plainDriver, DriverOutcome.result, hx]
  paramConfig {d cfg x u} h := by
    rcases hx : x.error <;> simp [plainDriver, DriverOutcome.result, hx] at h ⊢
  driverInstall {d mode x u} h := by
    rcases hd : d.installed <;> rcases hx : x.error <;>
      simp [plainDriver, DriverOutcome.result, hd, hx] at h ⊢
  driverInstall_fails {d mode x e} h := by
    rcases hd : d.installed <;> rcases hx : x.error <;>
      simp [plainDriver, DriverOutcome.result, hd, hx] at h ⊢
  getTimeout_keeps d x := by
    rcases hx : x.error <;> simp [plainDriver, DriverOutcome.result, hx]
  getTimeout {d x t} h := by
    rcases hx : x.error <;> simp [plainDriver, DriverOutcome.result, hx] at h
    exact h.symm
  setTimeout_keeps d t x := by
    rcases hx : x.error <;> simp [plainDriver, DriverOutcome.result, hx]
  setTimeout {d t x u} h := by
    rcases hx : x.error <;> simp [plainDriver, DriverOutcome.result, hx] at h ⊢
  linkCreate_keeps _ _ := rfl
  linkAppend_keeps _ _ _ := rfl
  cmdBegin_keeps d link x := by
    rcases hd : d.installed <;> cases link <;> rcases hx : x.error <;>
      simp [plainDriver, DriverOutcome.result, hd, hx]
  cmdBegin_refuses {d} hd link x := by
    have hnone : d.installed = none := hd
    simp [plainDriver, hnone]
  cmdBegin {d link x data} h := by
    rcases hd : d.installed <;> rcases link with _ | cmds <;> rcases hx : x.error <;>
      simp [plainDriver, DriverOutcome.result, hd, hx] at h
    exact ⟨cmds, rfl, by simp [← h]⟩

end Port

end PartLib.I2c
