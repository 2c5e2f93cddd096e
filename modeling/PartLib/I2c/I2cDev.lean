import PartLib.EspErr
import PartLib.Lib.LockedPool

/-!
# Device descriptors on the I2C bus

What `i2cdev.h` gives to a device driver: the mutex of the descriptor, a read and a write on the bus,
and the macros around them. A driver function is a `Dev` program, whose errors leave it early as the
hidden `return`s of the macros do. A transaction on the bus is one request, and it answers with the
bytes read or with any error; `ESP_OK` is a plain result.

Descriptors and pointers to results are never null here, so `CHECK_ARG` has nothing to say of them.
-/

namespace PartLib.I2c

/-- The transactions on the bus: `in_size` bytes are read after the bytes `out_data`, or the bytes
of `out_reg` and `out_data` are written. -/
inductive BusReq
  | read (out_data : List UInt8) (in_size : ℕ)
  | write (out_reg out_data : List UInt8)
  deriving DecidableEq

/-- The outcome of a transaction. -/
abbrev BusReq.Ans : BusReq → Type
  | .read _ in_size => Except EspError (Vector UInt8 in_size)
  | .write _ _ => Except EspError Unit

/-- A step of a driver function, as it was served. -/
abbrev DevStep := Served (LockReq.Ans BusReq.Ans)

/-- The programs of a driver, without their errors. -/
abbrev DevProgram := Program (LockReq.Ans BusReq.Ans)

/-- One request of a driver. -/
abbrev serve (r : LockReq BusReq) : DevProgram (LockReq.Ans BusReq.Ans r) := Program.ask r

/-- The functions of a driver. -/
abbrev Dev := ExceptT EspError DevProgram

/-- `i2c_dev_take_mutex`. -/
def i2cDevTakeMutex : Dev Unit := do
  let ok : Bool ← ExceptT.lift (serve .take : DevProgram Bool)
  if ok then pure () else throw .timeout

/-- `i2c_dev_give_mutex`. -/
def i2cDevGiveMutex : Dev Unit := do
  let ok : Bool ← ExceptT.lift (serve .give : DevProgram Bool)
  if ok then pure () else throw .fail

/-- `i2c_dev_read`. -/
def i2cDevRead (out_data : List UInt8) (in_size : ℕ) : Dev (Vector UInt8 in_size) :=
  ExceptT.mk (serve (.access (.read out_data in_size)))

/-- `i2c_dev_write`. -/
def i2cDevWrite (out_reg out_data : List UInt8) : Dev Unit :=
  ExceptT.mk (serve (.access (.write out_reg out_data)))

/-- `i2c_dev_read_reg`. -/
def i2cDevReadReg (reg : UInt8) (in_size : ℕ) : Dev (Vector UInt8 in_size) :=
  i2cDevRead [reg] in_size

/-- `i2c_dev_write_reg`. -/
def i2cDevWriteReg (reg : UInt8) (out_data : List UInt8) : Dev Unit := i2cDevWrite [reg] out_data

/-- `I2C_DEV_CHECK`: an error of `x` is returned, once the mutex is given. -/
def i2cDevCheck {α : Type} (x : Dev α) : Dev α :=
  tryCatch x fun e => do
    i2cDevGiveMutex
    throw e

/-- The error with which a result leaves. -/
def errorOf {α : Type} : Except EspError α → Option EspError
  | .ok _ => none
  | .error e => some e

/-- A result that leaves with no error. -/
theorem exists_ok_of_errorOf {α : Type} {res : Except EspError α} (h : errorOf res = none) :
    ∃ a, res = .ok a := by
  cases res with
  | ok a => exact ⟨a, rfl⟩
  | error e => cases h

/-! ## The weakest precondition of a driver function -/

section

variable {δ χ α β : Type} {access : δ → (r : BusReq) → χ → δ × r.Ans}
  {ok : ServedLog BusReq.Ans → δ → BusReq → χ → Prop} {log : ServedLog BusReq.Ans}
  {held : Option δ}

/-- The weakest precondition of a function of a driver, whose result may be an error. -/
def Dev.wp (access : δ → (r : BusReq) → χ → δ × r.Ans)
    (ok : ServedLog BusReq.Ans → δ → BusReq → χ → Prop) (x : Dev α)
    (post : ServedLog BusReq.Ans → Option δ → Except EspError α → Prop)
    (log : ServedLog BusReq.Ans) (held : Option δ) : Prop :=
  Program.wp access ok x.run post log held

@[simp]
theorem wp_devPure {a : α} {post : ServedLog BusReq.Ans → Option δ → Except EspError α → Prop} :
    Dev.wp access ok (pure a) post log held ↔ post log held (.ok a) := Iff.rfl

@[simp]
theorem wp_devThrow {e : EspError}
    {post : ServedLog BusReq.Ans → Option δ → Except EspError α → Prop} :
    Dev.wp access ok (throw e) post log held ↔ post log held (.error e) := Iff.rfl

/-- An error of the first part is returned at once. -/
@[simp]
theorem wp_devBind {x : Dev α} {f : α → Dev β}
    {post : ServedLog BusReq.Ans → Option δ → Except EspError β → Prop} :
    Dev.wp access ok (x >>= f) post log held ↔
      Dev.wp access ok x (fun log held a =>
        match a with
        | .ok a => Dev.wp access ok (f a) post log held
        | .error e => post log held (.error e)) log held := by
  rw [Dev.wp, ExceptT.run_bind, Program.wp_bind]
  refine iff_of_eq (congrArg (fun post => Program.wp access ok x.run post log held) ?_)
  funext log held a
  cases a with
  | ok a => rfl
  | error e => exact propext Program.wp_pure

/-- A take succeeds, and the resource is as the others left it, or it times out. -/
@[simp]
theorem wp_takeMutex {post : ServedLog BusReq.Ans → Option δ → Except EspError Unit → Prop} :
    Dev.wp access ok i2cDevTakeMutex post log held ↔
      held = none ∧ (∀ d, post (log ++ [⟨.take, true⟩]) (some d) (.ok ())) ∧
        post (log ++ [⟨.take, false⟩]) none (.error .timeout) := Iff.rfl

/-- A give succeeds, while the mutex is held. -/
@[simp]
theorem wp_giveMutex {post : ServedLog BusReq.Ans → Option δ → Except EspError Unit → Prop} :
    Dev.wp access ok i2cDevGiveMutex post log held ↔
      held.isSome = true ∧ post (log ++ [⟨.give, true⟩]) none (.ok ()) := Iff.rfl

/-- A read of the bus, while the mutex is held. -/
@[simp]
theorem wp_read {out_data : List UInt8} {in_size : ℕ}
    {post : ServedLog BusReq.Ans → Option δ → Except EspError (Vector UInt8 in_size) → Prop} :
    Dev.wp access ok (i2cDevRead out_data in_size) post log held ↔
      ∃ d, held = some d ∧ ∀ x, ok log d (.read out_data in_size) x ∧
        post (log ++ [⟨.access (.read out_data in_size), (access d (.read out_data in_size) x).2⟩])
          (some (access d (.read out_data in_size) x).1)
          (access d (.read out_data in_size) x).2 := Iff.rfl

/-- A write on the bus, while the mutex is held. -/
@[simp]
theorem wp_write {out_reg out_data : List UInt8}
    {post : ServedLog BusReq.Ans → Option δ → Except EspError Unit → Prop} :
    Dev.wp access ok (i2cDevWrite out_reg out_data) post log held ↔
      ∃ d, held = some d ∧ ∀ x, ok log d (.write out_reg out_data) x ∧
        post (log ++
            [⟨.access (.write out_reg out_data), (access d (.write out_reg out_data) x).2⟩])
          (some (access d (.write out_reg out_data) x).1)
          (access d (.write out_reg out_data) x).2 := Iff.rfl

/-- An error is returned once the mutex is given, which was held. -/
@[simp]
theorem wp_check {x : Dev α}
    {post : ServedLog BusReq.Ans → Option δ → Except EspError α → Prop} :
    Dev.wp access ok (i2cDevCheck x) post log held ↔
      Dev.wp access ok x (fun log held a =>
        match a with
        | .ok a => post log held (.ok a)
        | .error e => held.isSome = true ∧ post (log ++ [⟨.give, true⟩]) none (.error e))
        log held := by
  rw [Dev.wp, i2cDevCheck, ExceptT.run_tryCatch, Program.wp_bind]
  refine iff_of_eq (congrArg (fun post => Program.wp access ok x.run post log held) ?_)
  funext log held a
  cases a with
  | ok a => exact propext Program.wp_pure
  | error e =>
    have hgive : Dev.wp access ok (do i2cDevGiveMutex; throw e : Dev α) post log held ↔
        held.isSome = true ∧ post (log ++ [⟨.give, true⟩]) none (.error e) := by simp
    exact propext hgive

end

/-! ## The calls that write -/

/-- The transaction is a write that succeeded. -/
def isWritten : Served BusReq.Ans → Bool
  | ⟨.write _ _, .ok _⟩ => true
  | _ => false

/-- The step is a write that succeeded. -/
def stepWritten : DevStep → Bool
  | ⟨.access r, a⟩ => isWritten ⟨r, a⟩
  | _ => false

/-- The calls whose write succeeded, in the order of the writes. -/
def writers {τ κ α : Type} (os : List (PoolOut τ κ BusReq.Ans α)) : List κ :=
  ((accesses os).filter fun e => isWritten e.2).map Prod.fst

end PartLib.I2c
