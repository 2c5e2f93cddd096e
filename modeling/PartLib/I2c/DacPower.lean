import PartLib.I2c.DacChannels
import PartLib.Lib.PoolRuns
import Mathlib.Data.Fintype.Basic
import Mathlib.Data.List.Permutation

/-!
# The power mode and the output value

`mcp4728_set_power_mode` reads the output value and writes it back with the mode, in two critical
sections: the mutex is given in between, so a `mcp4728_set_raw_output` of another task may come there,
and its value is then overwritten by the old one. `tca9534_set_level`, which also reads before it
writes, holds the mutex over both.

`powerPool` runs the two functions against a device that stores the last mode and value. As long as
no other value is written between the read and the write of a `mcp4728_set_power_mode`, the device is
at any time as the calls leave it, one after another in the order of their writes (`powerDac_law`).
-/

namespace PartLib.I2c

/-- The calls. -/
inductive PowerCall
  | setPowerMode (eeprom : Bool) (mode : PowerMode)
  | setRawOutput (value : UInt16) (eeprom : Bool)
  deriving DecidableEq

/-- The function called. -/
def PowerCall.body : PowerCall → Dev Unit
  | .setPowerMode eeprom mode => mcp4728SetPowerMode eeprom mode
  | .setRawOutput value eeprom => mcp4728SetRawOutput value eeprom

/-! ## The device -/

/-- The low twelve bits. -/
def RawValue.ofUInt16 (v : UInt16) : RawValue := ⟨v &&& 0x0fff, UInt16.and_le_right⟩

/-- The last mode and the last value written. -/
structure PowerDac where
  mode : PowerMode
  value : RawValue
  deriving DecidableEq

/-- The bytes in which the driver finds the value. -/
def PowerDac.bytes (d : PowerDac) : List UInt8 :=
  [(d.value.val >>> 4).toUInt8, (d.value.val <<< 4).toUInt8, 0, (d.value.val >>> 8).toUInt8,
    d.value.val.toUInt8]

/-- The value behind a command. -/
def frameValue (hi lo : UInt8) : UInt16 := (hi.toUInt16 <<< 4) ||| (lo >>> 4).toUInt16

/-- The device after a frame: `MCP4728_CMD_PWRDWNWRITE` has the mode in its bits 1 and 2. -/
def PowerDac.load (d : PowerDac) : List UInt8 → PowerDac
  | b0 :: b1 :: b2 :: _ =>
    if b0 >>> 5 = 0b101 then ⟨.ofUInt8 (b0 >>> 1), .ofUInt16 (frameValue b1 b2)⟩
    else ⟨d.mode, .ofUInt16 (frameValue b1 b2)⟩
  | _ => d

/-- A transaction with the device, which succeeds. -/
def powerAccess (d : PowerDac) : (r : BusReq) → Unit → PowerDac × r.Ans
  | .read _ _, _ => (d, .ok (Vector.ofFn fun i => d.bytes.getD i 0))
  | .write out_reg out_data, _ => (d.load (out_reg ++ out_data), .ok ())

/-- The tasks `τ` call the two functions, and find `d₀` in the device. -/
def powerPool (τ : Type) [DecidableEq τ] (d₀ : PowerDac) :
    Machine (Pool τ PowerCall PowerDac BusReq.Ans (Except EspError Unit))
      (PoolInput τ PowerCall Unit) (PoolOut τ PowerCall BusReq.Ans (Except EspError Unit)) :=
  pool τ (fun c => c.body.run) powerAccess d₀

/-! ## What the calls are for -/

/-- What a call is to do. -/
def PowerCall.apply : PowerCall → PowerDac → PowerDac
  | .setPowerMode _ mode, d => { d with mode := mode }
  | .setRawOutput value _, d => { d with value := .ofUInt16 value }

/-- The calls that returned `ESP_OK`. -/
def completed {τ : Type} (os : List (PoolOut τ PowerCall BusReq.Ans (Except EspError Unit))) :
    List PowerCall :=
  (succeeded (fun res => (errorOf res).isNone) os).map Prod.snd

/-- The value that `mcp4728_set_power_mode` has read and not written back yet, after one more step. -/
def pendingStep (eeprom : Bool) (pending : Option UInt16) : DevStep → Option UInt16
  | ⟨.access (.read _ _), .ok buf⟩ => some (rawOutputOf eeprom buf)
  | ⟨.access (.write _ _), _⟩ => none
  | _ => pending

/-- The value that a call has read and not written back yet. -/
def PowerCall.pending (c : PowerCall) (log : ServedLog BusReq.Ans) : Option UInt16 :=
  match c with
  | .setPowerMode eeprom _ => log.foldl (pendingStep eeprom) none
  | .setRawOutput _ _ => none

/-- The value that the call of the task `t` has read and not written back yet. -/
def pendingOf {τ α : Type} (s : Pool τ PowerCall PowerDac BusReq.Ans α) (t : τ) : Option UInt16 :=
  (s.task t).bind fun run => run.call.pending run.log

/-- The step is no write of a `mcp4728_set_raw_output` whose value differs from one that a
`mcp4728_set_power_mode` has read and not written back yet. -/
def Undisturbed {τ α : Type} (s : Pool τ PowerCall PowerDac BusReq.Ans α) :
    PoolInput τ PowerCall Unit → Prop
  | .access t _ =>
    match s.task t with
    | some ⟨.setRawOutput value _, _, _⟩ =>
      ∀ u, pendingOf s u = none ∨ pendingOf s u = some (RawValue.ofUInt16 value).val
    | _ => True
  | _ => True

instance {τ α : Type} [Fintype τ] (s : Pool τ PowerCall PowerDac BusReq.Ans α)
    (i : PoolInput τ PowerCall Unit) : Decidable (Undisturbed s i) := by
  unfold Undisturbed
  split
  · split <;> infer_instance
  · infer_instance

/-! ## One call -/

/-- The value in the two bytes that follow a command, or come first in a read. -/
theorem toNat_frameValue (hi lo : UInt8) :
    (frameValue hi lo).toNat = hi.toNat * 16 + lo.toNat / 16 := by
  have hhi_lt := hi.toNat_lt
  have hlo_lt := lo.toNat_lt
  have hhi : (hi.toUInt16 <<< 4).toNat = hi.toNat <<< 4 := by
    simp [Nat.shiftLeft_eq]
    omega
  have hlo : (lo >>> 4).toUInt16.toNat = lo.toNat / 16 := by
    simp [Nat.shiftRight_eq_div_pow]
  rw [frameValue, UInt16.toNat_or, hhi, hlo, ← Nat.shiftLeft_add_eq_or_of_lt (by omega),
    Nat.shiftLeft_eq]

/-- The value behind a command is the low twelve bits. -/
theorem frameValue_command (v : UInt16) :
    frameValue (v >>> 4).toUInt8 (v <<< 4).toUInt8 = v &&& 0x0fff := by
  have hhi : (v >>> 4).toUInt8.toNat = v.toNat / 16 % 256 := by
    simp [Nat.shiftRight_eq_div_pow]
  have hlo : (v <<< 4).toUInt8.toNat = v.toNat * 16 % 256 := by
    simp [Nat.shiftLeft_eq]
  rw [← UInt16.toNat_inj, toNat_frameValue, toNat_and_mask, hhi, hlo]
  omega

theorem RawValue.ofUInt16_val (v : RawValue) : RawValue.ofUInt16 v.val = v := by
  simp only [RawValue.ofUInt16, v.and_mask]

/-- What the driver reads is the value. -/
theorem rawOutputOf_read (d : PowerDac) (eeprom : Bool) :
    rawOutputOf eeprom (Vector.ofFn fun i : Fin (if eeprom then 5 else 3) => d.bytes.getD i 0) =
      d.value.val := by
  cases eeprom with
  | false => exact (frameValue_command d.value.val).trans d.value.and_mask
  | true =>
    have hle : d.value.val.toNat ≤ 0x0fff := d.value.le
    change dacValue (d.value.val >>> 8).toUInt8 d.value.val.toUInt8 = d.value.val
    rw [← UInt16.toNat_inj, toNat_dacValue]
    simp [Nat.shiftRight_eq_div_pow]
    omega

/-- The device keeps the low twelve bits. -/
theorem RawValue.ofUInt16_and_mask (v : UInt16) :
    RawValue.ofUInt16 (v &&& 0x0fff) = RawValue.ofUInt16 v := by
  simp [RawValue.ofUInt16, UInt16.and_assoc]

/-- The frame of `mcp4728_set_power_mode` sets the mode and the value. -/
theorem load_powerMode (d : PowerDac) (mode : PowerMode) (v : UInt16) :
    d.load (powerModeFrame mode v) = ⟨mode, .ofUInt16 v⟩ := by
  have hload : d.load (powerModeFrame mode v) = ⟨mode, .ofUInt16 (v &&& 0x0fff)⟩ := by
    rw [← frameValue_command]
    cases mode <;> rfl
  rw [hload, RawValue.ofUInt16_and_mask]

/-- The frame of `mcp4728_set_raw_output` sets the value. -/
theorem load_rawOutput (d : PowerDac) (v : UInt16) (eeprom : Bool) :
    d.load (rawOutputFrame v eeprom) = ⟨d.mode, .ofUInt16 v⟩ := by
  have hload : d.load (rawOutputFrame v eeprom) = ⟨d.mode, .ofUInt16 (v &&& 0x0fff)⟩ := by
    rw [← frameValue_command]
    cases eeprom <;> rfl
  rw [hload, RawValue.ofUInt16_and_mask]

/-- A value that is to be written back is the one in the device. -/
def Fresh (c : PowerCall) (log : ServedLog BusReq.Ans) (d : PowerDac) : Prop :=
  ∀ v, c.pending log = some v → v = d.value.val

/-- A transaction leaves the values that are to be written back as fresh as they were, and a write
has the effect of its call when the value is. -/
def PowerOk (c : PowerCall) (log : ServedLog BusReq.Ans) (d : PowerDac) (r : BusReq) (x : Unit) :
    Prop :=
  Fresh c (log ++ [⟨.access r, (powerAccess d r x).2⟩]) (powerAccess d r x).1 ∧
    (Fresh c log d → (powerAccess d r x).1 =
      if isWritten ⟨r, (powerAccess d r x).2⟩ then c.apply d else d)

/-- A call returns `ESP_OK` after one write, and an error after none. -/
def PowerReturn (log : ServedLog BusReq.Ans) (res : Except EspError Unit) : Prop :=
  log.countP stepWritten = (errorOf res).isNone.toNat

/-- A call makes one write, of what it has read. -/
theorem powerCall_keeps (c : PowerCall) :
    Keeps powerAccess PowerOk (fun _ log res => PowerReturn log res) c c.body.run [] none := by
  change Dev.wp powerAccess (PowerOk c) c.body _ [] none
  cases c with
  | setPowerMode eeprom mode =>
    simp only [PowerCall.body, mcp4728SetPowerMode, mcp4728GetRawOutput, readData, wp_devBind,
      wp_takeMutex, wp_check, wp_read, wp_write, wp_giveMutex, wp_devPure, true_and]
    refine ⟨fun d => ⟨d, rfl, fun _ => ⟨⟨?_, fun _ => rfl⟩, ?_⟩⟩, rfl⟩
    · rintro v ⟨⟩
      exact rawOutputOf_read d eeprom
    refine ⟨rfl, fun d' => ⟨d', rfl, fun _ => ⟨⟨?_, fun hfresh => ?_⟩, rfl, rfl⟩⟩, rfl⟩
    · rintro v ⟨⟩
    · -- The value that was read is still the one in the device.
      have hvalue := hfresh _ rfl
      refine (load_powerMode d' mode _).trans ?_
      rw [hvalue, RawValue.ofUInt16_val]
      rfl
  | setRawOutput value eeprom =>
    simp only [PowerCall.body, mcp4728SetRawOutput, wp_devBind, wp_takeMutex, wp_check, wp_write,
      wp_giveMutex, true_and]
    refine ⟨fun d => ⟨d, rfl, fun _ => ⟨⟨?_, fun _ => ?_⟩, rfl, rfl⟩⟩, rfl⟩
    · rintro v ⟨⟩
    · exact load_rawOutput d value eeprom

/-! ## Any number of calls -/

/-- The calls whose write succeeded, found among the steps that wrote. -/
theorem map_marked_stepWritten {τ κ α : Type} (os : List (PoolOut τ κ BusReq.Ans α)) :
    (marked stepWritten os).map Prod.snd = writers os := by
  induction os with
  | nil => rfl
  | cons o os ih =>
    rw [← List.singleton_append, marked_append, List.map_append, ih, writers, writers,
      accesses_append, List.filter_append, List.map_append]
    congr 1
    rcases o with ⟨t, c, e⟩ | ⟨t, c, log, a⟩
    · rcases e with ⟨_ | _ | r, a⟩
      · rfl
      · rfl
      · by_cases hw : isWritten ⟨r, a⟩ <;> simp [marked, accesses, stepWritten, hw]
    · rfl

theorem writers_append {τ κ α : Type} (os₁ os₂ : List (PoolOut τ κ BusReq.Ans α)) :
    writers (os₁ ++ os₂) = writers os₁ ++ writers os₂ := by
  simp [writers, accesses_append]

section

variable {τ : Type} [DecidableEq τ] {d₀ : PowerDac}
  {s s' : Pool τ PowerCall PowerDac BusReq.Ans (Except EspError Unit)}
  {i : PoolInput τ PowerCall Unit}
  {o : List (PoolOut τ PowerCall BusReq.Ans (Except EspError Unit))}

omit [DecidableEq τ] in
/-- A transaction that is not disturbed leaves what the other calls rely on. -/
theorem fresh_of_undisturbed {t : τ} {x : Unit} {c : PowerCall} {log : ServedLog BusReq.Ans}
    {r : BusReq} {next : r.Ans → DevProgram (Except EspError Unit)} {u : τ}
    {run : Running PowerCall BusReq.Ans (Except EspError Unit)} (hC : Undisturbed s (.access t x))
    (ht : s.task t = some ⟨c, log, .request (.access r) next⟩) (hok : PowerOk c log s.resource r x)
    (hfresh : Fresh c log s.resource) (hu : s.task u = some run)
    (hrun : Fresh run.call run.log s.resource) :
    Fresh run.call run.log (powerAccess s.resource r x).1 := by
  intro v hv
  rw [hok.2 hfresh]
  by_cases hw : isWritten ⟨r, (powerAccess s.resource r x).2⟩
  · rw [if_pos hw]
    cases c with
    | setPowerMode eeprom mode => exact hrun v hv
    | setRawOutput value eeprom =>
      -- The value that is written is the one that the other call has read.
      simp only [Undisturbed, ht] at hC
      have hpending : pendingOf s u = some v := by simp [pendingOf, hu, hv]
      rcases hC u with hnone | hsome
      · rw [hpending] at hnone
        cases hnone
      · rw [hpending] at hsome
        cases hsome
        rfl
  · rw [if_neg hw]
    exact hrun v hv

/-- The calls keep to the protocol, and the values that are to be written back are those in the
device. -/
structure PowerInv (s : Pool τ PowerCall PowerDac BusReq.Ans (Except EspError Unit)) : Prop where
  pool : PoolInv powerAccess PowerOk (fun _ log res => PowerReturn log res) s
  fresh : s.Relies Fresh

theorem powerInv_init : PowerInv (powerPool τ d₀).init := ⟨poolInv_init, by simp [powerPool, pool, Pool.Relies]⟩

/-- A step that is not disturbed keeps the values fresh that are to be written back. -/
theorem PowerInv.step (hC : Undisturbed s i) (hs : PowerInv s)
    (hstep : (powerPool τ d₀).step s i = some (s', o)) : PowerInv s' := by
  refine ⟨(pool_step powerCall_keeps hs.pool hstep).1,
    pool_rely ?_ ?_ ?_ ?_ hs.pool hs.fresh hstep⟩
  · rintro c d v hv
    cases c <;> cases hv
  · intro c log d ok h
    constructor <;> intro v hv <;> refine h v (hv ▸ ?_)
    · cases c with
      | setPowerMode eeprom mode => simp [PowerCall.pending, pendingStep]
      | setRawOutput value eeprom => rfl
    · cases c with
      | setPowerMode eeprom mode => simp [PowerCall.pending, pendingStep]
      | setRawOutput value eeprom => rfl
  · intro c log d r x hok _
    exact hok.1
  · rintro t x c log r next u run rfl ht hok hc _ hu hrun
    exact fresh_of_undisturbed hC ht hok hc hu hrun

/-- A step has the effect of the call whose write it is, and leaves the device otherwise. -/
theorem PowerInv.effect (hs : PowerInv s) (hstep : (powerPool τ d₀).step s i = some (s', o)) :
    s'.resource = (writers o).foldl (fun d c => c.apply d) s.resource ∧
      ∀ e ∈ accesses o, ∀ eeprom mode, e.1 = .setPowerMode eeprom mode →
        s'.resource.value = s.resource.value := by
  rcases (pool_step powerCall_keeps hs.pool hstep).2.resource with
    ⟨hnil, hres⟩ | ⟨t, c, log, r, next, x, htask, hone, hok, hres⟩
  · simp [writers, hnil, hres]
  · have hres' := hok.2 (hs.fresh t _ htask)
    rw [writers, hone, hres, hres']
    by_cases hw : isWritten ⟨r, (powerAccess s.resource r x).2⟩
    · refine ⟨by simp [hw], ?_⟩
      rintro e he eeprom mode heq
      obtain rfl := List.mem_singleton.mp he
      dsimp only at heq
      rw [if_pos hw, heq]
      rfl
    · refine ⟨by simp [hw], fun _ _ _ _ _ => ?_⟩
      rw [if_neg hw]

end

/-- As long as no other value is written between the read and the write of a
`mcp4728_set_power_mode`, the device is at any time as the calls leave it, one after another in the
order of their writes; when no call is in progress, these are the calls that returned `ESP_OK`. And
`mcp4728_set_power_mode` never writes another value than the one in the device. -/
theorem powerDac_law {τ : Type} [DecidableEq τ] (d₀ : PowerDac)
    (inputs : List (PoolInput τ PowerCall Unit))
    (h : (powerPool τ d₀).AllSteps inputs fun _ s i _ _ => Undisturbed s i) :
    (∀ s os, (powerPool τ d₀).run (powerPool τ d₀).init inputs = some (s, os) →
      s.resource = (writers os).foldl (fun d c => c.apply d) d₀ ∧
      ((∀ t, s.task t = none) → (writers os).Perm (completed os))) ∧
    (powerPool τ d₀).AllSteps inputs fun _ s _ s' o =>
      ∀ t eeprom mode out_reg out_data a, .served t (.setPowerMode eeprom mode)
        ⟨.access (.write out_reg out_data), a⟩ ∈ o → s'.resource.value = s.resource.value := by
  constructor
  · intro s os hrun
    constructor
    · refine (h.inv_outputs (I := fun _ past s => PowerInv s ∧
        s.resource = (writers past).foldl (fun d c => c.apply d) d₀) ⟨powerInv_init, rfl⟩
        (fun _ past s i s' o hs hC hstep => ⟨hs.1.step hC hstep, ?_⟩) (List.prefix_refl _) hrun).2
      rw [(hs.1.effect hstep).1, hs.2, writers_append, List.foldl_append]
    · intro hidle
      rw [← map_marked_stepWritten]
      exact (pool_marks_perm powerCall_keeps (fun _ _ _ hlog => hlog) hrun hidle).map _
  · refine h.mono_inv (I := fun _ s => PowerInv s) powerInv_init
      (fun _ _ _ _ _ hs hC hstep => hs.step hC hstep) ?_
    intro _ s i s' o hs _ hstep t eeprom mode out_reg out_data a hmem
    exact (hs.effect hstep).2 _ (mem_accesses hmem) eeprom mode rfl

/-- The device with the output off and the value zero. -/
def dacOff : PowerDac := ⟨.pd1k, .ofUInt16 0⟩

/-- A task sets the power mode, and another the output value before this. -/
def valueThenMode : List (PoolInput Bool PowerCall Unit) :=
  [.call false (.setPowerMode false .normal), .call true (.setRawOutput 5 false), .take true true,
    .access true (), .give true, .take false true, .access false (), .give false, .ret true,
    .take false true, .access false (), .give false, .ret false]

/-- The device has the mode and the value. -/
theorem powerDac_law_value_then_mode : ∃ s os,
    (powerPool Bool dacOff).run (powerPool Bool dacOff).init valueThenMode = some (s, os) ∧
      s.resource = ⟨.normal, .ofUInt16 5⟩ ∧
      s.resource = (writers os).foldl (fun d c => c.apply d) dacOff :=
  ⟨_, _, rfl, by decide, ((powerDac_law dacOff valueThenMode (by decide)).1 _ _ rfl).1⟩

/-- The output value is set between the read and the write of the power mode. -/
def valueInMode : List (PoolInput Bool PowerCall Unit) :=
  [.call false (.setPowerMode false .normal), .call true (.setRawOutput 5 false), .take false true,
    .access false (), .give false, .take true true, .access true (), .give true, .ret true,
    .take false true, .access false (), .give false, .ret false]

/-- The value is lost: the two calls, one after another, leave another state, in either order. -/
theorem setPowerMode_loses_value : ∃ s os,
    (powerPool Bool dacOff).run (powerPool Bool dacOff).init valueInMode = some (s, os) ∧
      (∀ t, s.task t = none) ∧
      ∀ order : List PowerCall, order.Perm (completed os) →
        order.foldl (fun d c => c.apply d) dacOff ≠ s.resource := by
  refine ⟨_, _, rfl, by decide, fun order hperm => ?_⟩
  have horder : order ∈ [PowerCall.setRawOutput 5 false, .setPowerMode false .normal].permutations' :=
    List.mem_permutations'.mpr hperm
  have hne : ∀ order ∈ [PowerCall.setRawOutput 5 false, .setPowerMode false .normal].permutations',
      order.foldl (fun d c => c.apply d) dacOff ≠ ⟨.normal, .ofUInt16 0⟩ := by decide
  exact hne order horder

end PartLib.I2c
