import PartLib.I2c.DacPower
import PartLib.I2c.Outcomes

/-!
# The status bits in a read of the DAC

Three functions decode what the MCP4728 returns: `mcp4728_eeprom_busy` the ready bit,
`mcp4728_get_power_mode` the power bits, and `mcp4728_get_raw_output` the value. Of the EEPROM the
value is taken from the bits below the power bits. Of the volatile registers it is taken from the
whole first byte, where the ready bit and the power bits are; so there two reads that differ only in
status bits give different values, and `mcp4728_set_power_mode` writes them back (`statusFree_iff`).
-/

namespace PartLib.I2c

/-- The five bytes that the device returns, of which a read takes the first ones. -/
abbrev Readout := Vector UInt8 5

/-- A transaction with a device that returns the given bytes. -/
def readoutAccess (bytes : Readout) : (r : BusReq) → Option EspError → Readout × r.Ans
  | .read _ in_size, none => (bytes, .ok (Vector.ofFn fun i : Fin in_size => byteAt bytes i))
  | .write _ _, none => (bytes, .ok ())
  | .read _ _, some e => (bytes, .error e)
  | .write _ _, some e => (bytes, .error e)

/-- What `mcp4728_get_raw_output` returns. -/
def rawOutputOn (eeprom : Bool) (bytes : Readout) : Except EspError UInt16 :=
  (callOn readoutAccess {} bytes (mcp4728GetRawOutput eeprom).run).1

/-- What `mcp4728_eeprom_busy` returns. -/
def eepromBusyOn (bytes : Readout) : Except EspError Bool :=
  (callOn readoutAccess {} bytes mcp4728EepromBusy.run).1

/-- What `mcp4728_get_power_mode` returns. -/
def powerModeOn (eeprom : Bool) (bytes : Readout) : Except EspError PowerMode :=
  (callOn readoutAccess {} bytes (mcp4728GetPowerMode eeprom).run).1

/-- The bytes after the command in the frames that `mcp4728_set_power_mode` writes. -/
def writtenBack (eeprom : Bool) (mode : PowerMode) (bytes : Readout) : List (List UInt8) :=
  (writtenFrames
    (callOn readoutAccess {} bytes (mcp4728SetPowerMode eeprom mode).run).2.transactions).map
      (List.drop 1)

/-- The ready bit and the power bits of the volatile registers, in the first byte. -/
def volatileStatus : UInt8 := 0x86

/-- The power bits of the EEPROM, in the fourth byte. -/
def eepromStatus : UInt8 := 0x60

/-- The status bits in a byte. -/
def statusMask (i : ℕ) : UInt8 := if i = 0 then volatileStatus else if i = 3 then eepromStatus else 0

/-- Two reads differ in status bits only. -/
def SameButStatus (bytes bytes' : Readout) : Prop :=
  ∀ i < 5, byteAt bytes i &&& ~~~statusMask i = byteAt bytes' i &&& ~~~statusMask i

instance (bytes bytes' : Readout) : Decidable (SameButStatus bytes bytes') :=
  inferInstanceAs (Decidable (∀ i < 5, _))

/-! ## The bits of a byte -/

/-- A byte is made up of the bits of a mask and the others. -/
theorem eq_of_masked {b b' mask : UInt8} (h : b &&& mask = b' &&& mask)
    (hnot : b &&& ~~~mask = b' &&& ~~~mask) : b = b' := by
  rw [← UInt8.toBitVec_inj] at h hnot ⊢
  ext i hi
  have hi₁ := congrArg (fun v : BitVec 8 => v[i]) h
  have hi₂ := congrArg (fun v : BitVec 8 => v[i]) hnot
  simp only [UInt8.toBitVec_and, UInt8.toBitVec_not, BitVec.getElem_and, BitVec.getElem_not] at hi₁ hi₂
  -- The bit is in the mask or not.
  cases hmask : mask.toBitVec[i] <;> simpa [hmask] using And.intro hi₁ hi₂

/-- The status bits of a byte are its ready bit and its power bits. -/
theorem volatileStatus_eq_iff {b b' : UInt8} :
    b &&& volatileStatus = b' &&& volatileStatus ↔
      (b &&& bitReady = 0 ↔ b' &&& bitReady = 0) ∧
        PowerMode.ofUInt8 ((b >>> 1) &&& 0x03) = PowerMode.ofUInt8 ((b' >>> 1) &&& 0x03) := by
  have hbytes : ∀ n : Fin 256,
      (UInt8.ofNat n &&& bitReady = 0 ↔ UInt8.ofNat n &&& volatileStatus &&& bitReady = 0) ∧
      PowerMode.ofUInt8 ((UInt8.ofNat n >>> 1) &&& 0x03) =
        PowerMode.ofUInt8 (((UInt8.ofNat n &&& volatileStatus) >>> 1) &&& 0x03) ∧
      UInt8.ofNat n &&& volatileStatus = (if UInt8.ofNat n &&& bitReady = 0 then 0 else bitReady) |||
        ((PowerMode.ofUInt8 ((UInt8.ofNat n >>> 1) &&& 0x03)).toUInt8 <<< 1) := by
    decide +kernel
  have hbyte := fun b : UInt8 => hbytes ⟨b.toNat, b.toNat_lt⟩
  simp only [UInt8.ofNat_toNat] at hbyte
  constructor
  · intro h
    rw [(hbyte b).1, (hbyte b').1, (hbyte b).2.1, (hbyte b').2.1, h]
    exact ⟨Iff.rfl, rfl⟩
  · rintro ⟨hready, hmode⟩
    rw [(hbyte b).2.2, (hbyte b').2.2, hmode]
    simp only [hready]

/-! ## One read -/

section

variable {bytes bytes' : Readout}

/-- The bytes that a read returns. -/
theorem byteAt_ofFn {size i : ℕ} (h : i < size) :
    byteAt (Vector.ofFn fun j : Fin size => byteAt bytes j) i = byteAt bytes i := by
  simp [byteAt, h]

/-- The status bits of the first byte are what `mcp4728_eeprom_busy` and `mcp4728_get_power_mode`
return. -/
theorem decoded_eq_iff :
    eepromBusyOn bytes = eepromBusyOn bytes' ∧ powerModeOn false bytes = powerModeOn false bytes' ↔
      byteAt bytes 0 &&& volatileStatus = byteAt bytes' 0 &&& volatileStatus := by
  have hbusy : ∀ bytes, eepromBusyOn bytes = .ok (decide (byteAt bytes 0 &&& bitReady = 0)) :=
    fun _ => rfl
  have hmode : ∀ bytes, powerModeOn false bytes =
      .ok (.ofUInt8 ((byteAt bytes 0 >>> 1) &&& 0x03)) := fun _ => rfl
  simp only [hbusy, hmode, Except.ok.injEq, decide_eq_decide, volatileStatus_eq_iff]

/-- The value in the bytes that a read for it returns. -/
theorem rawOutputOf_ofFn (eeprom : Bool) :
    rawOutputOf eeprom (Vector.ofFn fun i : Fin (if eeprom then 5 else 3) => byteAt bytes i) =
      rawOutputOf eeprom bytes := by
  cases eeprom <;> simp [rawOutputOf, byteAt_ofFn]

/-- What `mcp4728_get_raw_output` returns, in the bytes of the device. -/
theorem rawOutputOn_eq (eeprom : Bool) :
    rawOutputOn eeprom bytes = .ok (rawOutputOf eeprom bytes) := by
  rw [← rawOutputOf_ofFn]
  rfl

/-- What `mcp4728_set_power_mode` writes back is the value. -/
theorem writtenBack_eq (eeprom : Bool) (mode : PowerMode) :
    writtenBack eeprom mode bytes =
      [[(rawOutputOf eeprom bytes >>> 4).toUInt8, (rawOutputOf eeprom bytes <<< 4).toUInt8]] := by
  rw [← rawOutputOf_ofFn]
  rfl

/-- The value of the EEPROM does not depend on the status bits. -/
theorem rawOutputOf_eeprom (h : SameButStatus bytes bytes') :
    rawOutputOf true bytes = rawOutputOf true bytes' := by
  have hmask : ~~~statusMask 3 &&& 0x0f = 0x0f := by decide
  have h3 : byteAt bytes 3 &&& 0x0f = byteAt bytes' 3 &&& 0x0f := by
    rw [← hmask, ← UInt8.and_assoc, h 3 (by decide), UInt8.and_assoc]
  have h4 : byteAt bytes 4 = byteAt bytes' 4 := by simpa [statusMask] using h 4 (by decide)
  simp [rawOutputOf, h3, h4]

/-- The value of the volatile registers contains the whole first byte. -/
theorem rawOutputOf_volatile_inj (h : rawOutputOf false bytes = rawOutputOf false bytes') :
    byteAt bytes 0 = byteAt bytes' 0 := by
  have hnat := congrArg UInt16.toNat h
  change (frameValue (byteAt bytes 0) (byteAt bytes 1)).toNat =
    (frameValue (byteAt bytes' 0) (byteAt bytes' 1)).toNat at hnat
  rw [toNat_frameValue, toNat_frameValue] at hnat
  have hlt := (byteAt bytes 1).toNat_lt
  have hlt' := (byteAt bytes' 1).toNat_lt
  rw [← UInt8.toNat_inj]
  omega

end

/-- Whatever two reads that differ in status bits only: `mcp4728_get_raw_output` returns the same
value, and `mcp4728_set_power_mode` writes the same value back, if and only if the mode is that of the
EEPROM or the status bits of the first byte are the same. -/
theorem statusFree_iff (eeprom : Bool) (bytes bytes' : Readout) (h : SameButStatus bytes bytes') :
    (rawOutputOn eeprom bytes = rawOutputOn eeprom bytes' ∧
        ∀ mode, writtenBack eeprom mode bytes = writtenBack eeprom mode bytes') ↔
      eeprom = true ∨ byteAt bytes 0 &&& volatileStatus = byteAt bytes' 0 &&& volatileStatus := by
  have hvalue : (rawOutputOn eeprom bytes = rawOutputOn eeprom bytes' ∧
      ∀ mode, writtenBack eeprom mode bytes = writtenBack eeprom mode bytes') ↔
        rawOutputOf eeprom bytes = rawOutputOf eeprom bytes' := by
    simp only [rawOutputOn_eq, writtenBack_eq, Except.ok.injEq]
    exact ⟨fun h => h.1, fun h => ⟨h, by simp [h]⟩⟩
  rw [hvalue]
  cases eeprom with
  | true => exact iff_of_true (rawOutputOf_eeprom h) (.inl rfl)
  | false =>
    constructor
    · intro heq
      rw [rawOutputOf_volatile_inj heq]
      exact .inr rfl
    · rintro (hfalse | hstatus)
      · cases hfalse
      -- Then the first byte is the same, and so are the others.
      have h0 : byteAt bytes 0 = byteAt bytes' 0 := eq_of_masked hstatus (h 0 (by decide))
      have h1 : byteAt bytes 1 = byteAt bytes' 1 := by simpa [statusMask] using h 1 (by decide)
      simp [rawOutputOf, h0, h1]

/-- Of the EEPROM, two reads with other power bits give the same value. -/
theorem statusFree_iff_eeprom :
    rawOutputOn true #v[0x80, 0, 0, 0x0a, 0xbc] = rawOutputOn true #v[0x80, 0, 0, 0x6a, 0xbc] :=
  ((statusFree_iff true #v[0x80, 0, 0, 0x0a, 0xbc] #v[0x80, 0, 0, 0x6a, 0xbc] (by decide)).mpr
    (.inl rfl)).1

/-- Of the volatile registers, a device that is ready gives another value than one that is busy, which
is written back. -/
theorem not_statusFree_busy :
    SameButStatus #v[0x80, 0, 0, 0, 0] #v[0, 0, 0, 0, 0] ∧
      ¬ (rawOutputOn false #v[0x80, 0, 0, 0, 0] = rawOutputOn false #v[0, 0, 0, 0, 0] ∧
        ∀ mode, writtenBack false mode #v[0x80, 0, 0, 0, 0] =
          writtenBack false mode #v[0, 0, 0, 0, 0]) := by
  refine ⟨by decide, fun h => ?_⟩
  have hvalue : rawOutputOf false #v[0x80, 0, 0, 0, 0] = rawOutputOf false #v[0, 0, 0, 0, 0] := by
    have := h.1
    rwa [rawOutputOn_eq, rawOutputOn_eq, Except.ok.injEq] at this
  exact absurd hvalue (by decide)

end PartLib.I2c
