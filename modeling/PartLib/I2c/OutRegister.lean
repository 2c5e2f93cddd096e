import PartLib.I2c.Tca9534

/-!
# Pins that several tasks set

Tasks call `tca9534_set_level` and `tca9534_port_write` on one descriptor. Setting a pin reads the
output register and writes it back, two transactions between which other tasks may run; but the
mutex is held over both, so no other write comes in between. The register is at any time the result
of the calls whose write succeeded, one after another in the order of the writes, where a call changes
its own pins only (`outRegister_law`).
-/

namespace PartLib.I2c

/-- The calls, with the pins that the expander has. -/
inductive PortCall
  | setLevel (pin : Fin 8) (val : UInt8)
  | portWrite (val : UInt8)
  deriving DecidableEq

/-- The function called. -/
def PortCall.body : PortCall → Dev Unit
  | .setLevel pin val => tca9534SetLevel pin val
  | .portWrite val => tca9534PortWrite val

/-- The registers of the expander. -/
abbrev Tca9534Regs := UInt8 → UInt8

/-- A transaction with the expander: it fails with an error and leaves the registers, or a read
returns the register that it names, and a write sets it to the last byte. -/
def tca9534Access (regs : Tca9534Regs) : (r : BusReq) → Option EspError → Tca9534Regs × r.Ans
  | .read out_data in_size, none =>
    (regs, .ok (Vector.replicate in_size (regs (out_data.headD 0))))
  | .write out_reg out_data, none =>
    (Function.update regs (out_reg.headD 0) (out_data.getLastD (regs (out_reg.headD 0))), .ok ())
  | .read _ _, some e => (regs, .error e)
  | .write _ _, some e => (regs, .error e)

/-- The tasks `τ` call the two functions, and find `regs` in the registers. -/
def portPool (τ : Type) [DecidableEq τ] (regs : Tca9534Regs) :
    Machine (Pool τ PortCall Tca9534Regs BusReq.Ans (Except EspError Unit))
      (PoolInput τ PortCall (Option EspError)) (PoolOut τ PortCall BusReq.Ans (Except EspError Unit)) :=
  pool τ (fun c => c.body.run) tca9534Access regs

/-! ## What the calls are for -/

/-- The levels of the pins, as the bits of the output register. -/
def pins (out : UInt8) (pin : Fin 8) : Bool := out.toBitVec.getLsbD pin

/-- What a call is to do with the levels. -/
def PortCall.apply : PortCall → (Fin 8 → Bool) → Fin 8 → Bool
  | .setLevel pin val, levels => Function.update levels pin (val ≠ 0)
  | .portWrite val, _ => pins val

/-! ## One call -/

@[simp]
theorem pins_and (a b : UInt8) (i : Fin 8) : pins (a &&& b) i = (pins a i && pins b i) := by
  simp [pins]

@[simp]
theorem pins_or (a b : UInt8) (i : Fin 8) : pins (a ||| b) i = (pins a i || pins b i) := by
  simp [pins]

@[simp]
theorem pins_not (a : UInt8) (i : Fin 8) : pins (~~~a) i = !pins a i := by
  simp [pins]

@[simp]
theorem pins_zero (i : Fin 8) : pins 0 i = false := by
  simp [pins]

/-- `BV (pin)` has the bit of its pin. -/
@[simp]
theorem pins_bv (pin i : Fin 8) : pins (bv pin) i = decide (i = pin) := by
  revert pin i
  decide

/-- What `tca9534_set_level` writes differs from what it has read in the bit of its pin only. -/
theorem pins_setLevelBits (v : UInt8) (pin : Fin 8) (val : UInt8) :
    pins (setLevelBits v pin val) = Function.update (pins v) pin (val ≠ 0) := by
  funext i
  by_cases hi : i = pin
  · subst hi
    by_cases hval : val = 0 <;> simp [setLevelBits, hval]
  · by_cases hval : val = 0 <;> simp [setLevelBits, hval, hi]

/-- The effect of a transaction of the call `c`. -/
def portEffect (c : PortCall) (e : Served BusReq.Ans) (levels : Fin 8 → Bool) : Fin 8 → Bool :=
  if isWritten e then c.apply levels else levels

/-- A transaction has its effect on the output register. -/
def PortOk (c : PortCall) (_ : ServedLog BusReq.Ans) (regs : Tca9534Regs) (r : BusReq)
    (x : Option EspError) : Prop :=
  pins ((tca9534Access regs r x).1 regOut0) =
    portEffect c ⟨r, (tca9534Access regs r x).2⟩ (pins (regs regOut0))

/-- A call returns `ESP_OK` after one write that succeeded, and an error after none. -/
def PortReturn (log : ServedLog BusReq.Ans) (res : Except EspError Unit) : Prop :=
  log.countP stepWritten = if res = .ok () then 1 else 0

/-- A call makes one write, of the levels that it is to leave. -/
theorem portCall_keeps (c : PortCall) :
    Keeps tca9534Access PortOk (fun _ log res => PortReturn log res) c c.body.run [] none := by
  change Dev.wp tca9534Access (PortOk c) c.body _ [] none
  cases c with
  | setLevel pin val =>
    simp only [PortCall.body, tca9534SetLevel, i2cDevReadReg, i2cDevWriteReg, wp_devBind,
      wp_takeMutex, wp_check, wp_read, wp_write, wp_giveMutex, true_and]
    refine ⟨fun regs => ⟨regs, rfl, fun x => ⟨?_, ?_⟩⟩, rfl⟩
    · cases x <;> rfl
    cases x with
    | some e => exact ⟨rfl, rfl⟩
    | none =>
      -- The register that was read is still the one that is written.
      refine ⟨regs, rfl, fun y => ⟨?_, ?_⟩⟩
      · cases y with
        | some e => rfl
        | none =>
          simp [PortOk, tca9534Access, portEffect, isWritten, PortCall.apply, pins_setLevelBits]
      · cases y with
        | some e => exact ⟨rfl, rfl⟩
        | none => exact ⟨rfl, rfl⟩
  | portWrite val =>
    simp only [PortCall.body, tca9534PortWrite, writeReg8, i2cDevWriteReg, wp_devBind,
      wp_takeMutex, wp_check, wp_write, wp_giveMutex, true_and]
    refine ⟨fun regs => ⟨regs, rfl, fun x => ⟨?_, ?_⟩⟩, rfl⟩
    · cases x with
      | some e => rfl
      | none => simp [PortOk, tca9534Access, portEffect, isWritten, PortCall.apply]
    · cases x with
      | some e => exact ⟨rfl, rfl⟩
      | none => exact ⟨rfl, rfl⟩

/-- The effects of the transactions are those of the calls whose write succeeded. -/
theorem foldl_portEffect {α : Type} (os : List (PoolOut τ PortCall BusReq.Ans α))
    (levels : Fin 8 → Bool) :
    (accesses os).foldl (fun v e => portEffect e.1 e.2 v) levels =
      (writers os).foldl (fun v c => c.apply v) levels := by
  rw [writers]
  generalize accesses os = es
  induction es generalizing levels with
  | nil => rfl
  | cons e es ih =>
    rw [List.foldl_cons, ih, portEffect]
    by_cases he : isWritten e.2 <;> simp [he]

/-- Whatever calls any number of tasks make, in any order of their requests, with any take timing out
and any transaction failing: the pins are at any time as the calls leave them whose write succeeded,
one after another in the order of the writes, and a call that returns an error made no write. -/
theorem outRegister_law {τ : Type} [DecidableEq τ] (regs : Tca9534Regs)
    (inputs : List (PoolInput τ PortCall (Option EspError))) :
    (∀ s os, (portPool τ regs).run (portPool τ regs).init inputs = some (s, os) →
      pins (s.resource regOut0) = (writers os).foldl (fun v c => c.apply v) (pins (regs regOut0))) ∧
    (portPool τ regs).AllSteps inputs fun _ _ _ _ o =>
      ∀ t c log res, .returned t c log res ∈ o → PortReturn log res := by
  constructor
  · intro s os hrun
    rw [← foldl_portEffect]
    exact pool_foldl (fun regs : Tca9534Regs => pins (regs regOut0)) portEffect portCall_keeps
      (fun c log d r x hok => hok) hrun
  · intro h s i s' o ho t c log res hmem
    exact ((pool_law portCall_keeps inputs h s i s' o ho).returned t c log res hmem).1

/-- Two tasks set the pins 0 and 1. The second times out on the mutex while the first holds it, and
calls again once it is free. -/
def twoPins : List (PoolInput Bool PortCall (Option EspError)) :=
  [.call false (.setLevel 0 1), .call true (.setLevel 1 1), .take false true, .access false none,
    .take true false, .ret true, .access false none, .give false, .ret false,
    .call true (.setLevel 1 1), .take true true, .access true none, .access true none]

/-- Both pins are set. -/
theorem outRegister_law_two_pins : ∃ s os,
    (portPool Bool fun _ => 0).run (portPool Bool fun _ => 0).init twoPins = some (s, os) ∧
      writers os = [.setLevel 0 1, .setLevel 1 1] ∧
      pins (s.resource regOut0) = (writers os).foldl (fun v c => c.apply v) (pins 0) :=
  ⟨_, _, rfl, rfl, (outRegister_law (fun _ => 0) twoPins).1 _ _ rfl⟩

end PartLib.I2c
