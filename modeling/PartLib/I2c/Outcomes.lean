import PartLib.I2c.I2cDev

/-!
# One call against given outcomes

A call of a driver function by itself, when the outcomes of its requests are given: `busHandle`
answers its requests, keeps the device, and records the transactions on the bus in their order.
-/

namespace PartLib.I2c

/-- Whether the mutex is taken and given, and the errors of a read and of a write. -/
structure Outcomes where
  take : Bool := true
  give : Bool := true
  read : Option EspError := none
  write : Option EspError := none
  deriving DecidableEq

/-- The outcome of a transaction. -/
def Outcomes.of (oc : Outcomes) : BusReq → Option EspError
  | .read _ _ => oc.read
  | .write _ _ => oc.write

/-- A device, and the transactions with it so far. -/
structure Bus (δ : Type) where
  device : δ
  transactions : List BusReq

/-- The answers to the requests of a call. -/
def busHandle {δ : Type} (access : δ → (r : BusReq) → Option EspError → δ × r.Ans) (oc : Outcomes)
    (bus : Bus δ) : (r : LockReq BusReq) → LockReq.Ans BusReq.Ans r × Bus δ
  | .take => (oc.take, bus)
  | .give => (oc.give, bus)
  | .access r =>
    ((access bus.device r (oc.of r)).2,
      ⟨(access bus.device r (oc.of r)).1, bus.transactions ++ [r]⟩)

/-- What a call returns, with the device and the transactions after it. -/
def callOn {δ α : Type} (access : δ → (r : BusReq) → Option EspError → δ × r.Ans) (oc : Outcomes)
    (d : δ) (p : DevProgram α) : α × Bus δ := p.eval (busHandle access oc) ⟨d, []⟩

/-- The frames that were put on the bus. -/
def writtenFrames (transactions : List BusReq) : List (List UInt8) :=
  transactions.filterMap fun r =>
    match r with
    | .write out_reg out_data => some (out_reg ++ out_data)
    | .read _ _ => none

end PartLib.I2c
