import PartLib.I2c.StatusBits

/-!
# The limit of the output range

With `CONFIG_MCP4728_LIMITRANGE` the output is to stay below `CONFIG_MCP4728_OUTMAX`, so the code that
a frame carries is not to exceed `MCP4728_MAX_VALUE`. The functions that write a raw value do not look
at the limit, and keep the low twelve bits of the value. So a call keeps to the limit exactly when its
value does, or when its low bits happen to be the limit (`limited_iff`).
-/

namespace PartLib.I2c

/-- `CONFIG_MCP4728_OUTMAX` and `CONFIG_MCP4728_VDD`, in millivolts. -/
structure LimitRange where
  outmax : ℕ
  vdd : ℕ
  pos : 0 < outmax
  le : outmax ≤ vdd

/-- `MCP4728_MAX_VALUE`. -/
def LimitRange.maxValue (range : LimitRange) : UInt16 :=
  UInt16.ofNat (0x0fff * range.outmax / range.vdd)

/-- The limit is the quotient, and has twelve bits. -/
theorem LimitRange.toNat_maxValue (range : LimitRange) :
    range.maxValue.toNat = 0x0fff * range.outmax / range.vdd ∧ range.maxValue.toNat ≤ 0x0fff := by
  have hle : 0x0fff * range.outmax / range.vdd ≤ 0x0fff :=
    Nat.div_le_of_le_mul (by rw [Nat.mul_comm range.vdd]; exact Nat.mul_le_mul_left _ range.le)
  have hnat : range.maxValue.toNat = 0x0fff * range.outmax / range.vdd := by
    rw [maxValue, UInt16.toNat_ofNat', Nat.mod_eq_of_lt (lt_of_le_of_lt hle (by decide))]
  exact ⟨hnat, hnat ▸ hle⟩

/-- The calls that write a raw value. -/
inductive RawCall
  | setRawOutput (value : UInt16) (eeprom : Bool)
  | fastWrite (value : UInt16)
  | writeChannelRaw (ch : UInt8) (value : UInt16)
  | dacWriteChannel (ch : UInt8) (value : UInt16)
  deriving DecidableEq

/-- `dac_write_channel`. Its `ESP_ERROR_CHECK` stops the program on an error. -/
def dacWriteChannel (ch : UInt8) (value : UInt16) : Dev Unit := mcp4728WriteChannelRaw ch value

/-- The function called. -/
def RawCall.body : RawCall → Dev Unit
  | .setRawOutput value eeprom => mcp4728SetRawOutput value eeprom
  | .fastWrite value => mcp4728FastWrite value
  | .writeChannelRaw ch value => mcp4728WriteChannelRaw ch value
  | .dacWriteChannel ch value => I2c.dacWriteChannel ch value

/-- The value that a call is given. -/
def RawCall.value : RawCall → UInt16
  | .setRawOutput value _ | .fastWrite value | .writeChannelRaw _ value
  | .dacWriteChannel _ value => value

/-- The twelve bits that the frame of a call carries. -/
def RawCall.code (c : RawCall) (frame : List UInt8) : UInt16 :=
  match c with
  | .setRawOutput _ _ => frameValue (frame.getD 1 0) (frame.getD 2 0)
  | .fastWrite _ => dacValue (frame.getD 0 0) (frame.getD 1 0)
  | .writeChannelRaw _ _ | .dacWriteChannel _ _ => dacValue (frame.getD 1 0) (frame.getD 2 0)

/-- The frames that a call puts on the bus. -/
def RawCall.frames (oc : Outcomes) (bytes : Readout) (c : RawCall) : List (List UInt8) :=
  writtenFrames (callOn readoutAccess oc bytes c.body.run).2.transactions

/-- The call returns an error and puts nothing on the bus. -/
def RawCall.Refused (oc : Outcomes) (bytes : Readout) (c : RawCall) : Prop :=
  (∃ e, (callOn readoutAccess oc bytes c.body.run).1 = .error e) ∧ c.frames oc bytes = []

/-- No frame carries more than the limit; and a value of more than twelve bits is refused, or the
frames carry the limit instead. -/
structure Limited (range : LimitRange) (oc : Outcomes) (bytes : Readout) (c : RawCall) : Prop where
  code : ∀ frame ∈ c.frames oc bytes, c.code frame ≤ range.maxValue
  high : 0x0fff < c.value →
    c.Refused oc bytes ∨ ∀ frame ∈ c.frames oc bytes, c.code frame = range.maxValue

/-- The channel of the call is not refused. -/
def RawCall.Accepted : RawCall → Prop
  | .setRawOutput _ _ | .fastWrite _ => True
  | .writeChannelRaw ch _ | .dacWriteChannel ch _ => ch < 3

instance : DecidablePred RawCall.Accepted := fun c => by
  unfold RawCall.Accepted
  split <;> infer_instance

/-! ## The frames -/

section

variable {oc : Outcomes} {bytes : Readout} {c : RawCall}

/-- A call whose mutex is taken puts one frame on the bus, with the low twelve bits of the value. -/
theorem frames_of_accepted (hc : c.Accepted) (htake : oc.take = true) :
    ∃ frame, c.frames oc bytes = [frame] ∧ c.code frame = c.value &&& 0x0fff := by
  obtain ⟨take, give, read, write⟩ := oc
  obtain rfl : take = true := htake
  cases c with
  | setRawOutput value eeprom =>
    refine ⟨rawOutputFrame value eeprom, ?_, frameValue_command value⟩
    cases write <;> cases give <;> rfl
  | fastWrite value =>
    refine ⟨fastFrame value, ?_, dacValue_fast value⟩
    cases write <;> cases give <;> rfl
  | writeChannelRaw ch value | dacWriteChannel ch value =>
    refine ⟨channelFrame ch value, ?_, dacValue_channel value⟩
    simp only [RawCall.frames, RawCall.body, dacWriteChannel, mcp4728WriteChannelRaw_of_lt hc]
    cases write <;> cases give <;> rfl

/-- A call whose channel is refused, or whose take times out, is refused. -/
theorem refused_of_not (h : ¬ (c.Accepted ∧ oc.take = true)) : c.Refused oc bytes := by
  obtain ⟨take, give, read, write⟩ := oc
  by_cases hc : c.Accepted
  · obtain rfl : take = false := by simpa [hc] using h
    cases c with
    | setRawOutput value eeprom => exact ⟨⟨.timeout, rfl⟩, rfl⟩
    | fastWrite value => exact ⟨⟨.timeout, rfl⟩, rfl⟩
    | writeChannelRaw ch value | dacWriteChannel ch value =>
      simp only [RawCall.Refused, RawCall.frames, RawCall.body, dacWriteChannel,
        mcp4728WriteChannelRaw_of_lt hc]
      exact ⟨⟨.timeout, rfl⟩, rfl⟩
  · cases c with
    | setRawOutput | fastWrite => exact absurd trivial hc
    | writeChannelRaw ch value | dacWriteChannel ch value =>
      simp only [RawCall.Refused, RawCall.frames, RawCall.body, dacWriteChannel,
        mcp4728WriteChannelRaw_of_not_lt hc]
      exact ⟨⟨.invalidArg, rfl⟩, rfl⟩

end

/-- For every limit, call, value, and outcome of the mutex and of the bus: the limit is kept if and
only if the call is refused for its channel or by the mutex, or the value does not exceed the limit,
or it has more than twelve bits and the low ones are the limit. -/
theorem limited_iff (range : LimitRange) (oc : Outcomes) (bytes : Readout) (c : RawCall) :
    Limited range oc bytes c ↔
      (c.Accepted ∧ oc.take = true → c.value ≤ range.maxValue ∨
        0x0fff < c.value ∧ c.value &&& 0x0fff = range.maxValue) := by
  by_cases hsent : c.Accepted ∧ oc.take = true
  · obtain ⟨frame, hframes, hcode⟩ : ∃ frame, c.frames oc bytes = [frame] ∧
        c.code frame = c.value &&& 0x0fff := frames_of_accepted hsent.1 hsent.2
    have hlimit : Limited range oc bytes c ↔ c.value &&& 0x0fff ≤ range.maxValue ∧
        (0x0fff < c.value → c.value &&& 0x0fff = range.maxValue) := by
      have hsends : ¬ c.Refused oc bytes := fun h => by simp [RawCall.Refused, hframes] at h
      constructor
      · intro h
        exact ⟨by simpa [hframes, hcode] using h.code,
          fun hv => by simpa [hframes, hcode, hsends] using h.high hv⟩
      · rintro ⟨hle, hv⟩
        exact ⟨by simpa [hframes, hcode] using hle,
          fun hlt => .inr (by simpa [hframes, hcode] using hv hlt)⟩
    rw [hlimit, imp_iff_right hsent]
    by_cases hv : 0x0fff < c.value
    · -- More than twelve bits: the value exceeds every limit.
      have hnot : ¬ c.value ≤ range.maxValue := by
        intro hle
        have hmax : range.maxValue.toNat ≤ 0x0fff := range.toNat_maxValue.2
        have hlt : 0x0fff < c.value.toNat := hv
        have hle' : c.value.toNat ≤ range.maxValue.toNat := hle
        omega
      simp only [hv, hnot, true_and, false_or, forall_const]
      exact ⟨fun h => h.2, fun h => ⟨h ▸ UInt16.le_refl _, h⟩⟩
    · have hval : c.value &&& 0x0fff = c.value := RawValue.and_mask ⟨c.value, UInt16.not_lt.mp hv⟩
      simp [hv, hval]
  · have hrefused : c.Refused oc bytes := refused_of_not hsent
    exact iff_of_true ⟨by simp [hrefused.2], fun _ => .inl hrefused⟩ fun h => absurd h hsent

/-- The default limit of 3000 of 3300 millivolts, which is the value 3722. -/
def defaultRange : LimitRange := ⟨3000, 3300, by decide, by decide⟩

/-- The value 4095 goes out above the limit. -/
theorem not_limited_full_scale :
    ¬ Limited defaultRange {} (.replicate 5 0) (.dacWriteChannel 0 0x0fff) := by
  intro h
  have hle := h.code (channelFrame 0 0x0fff) (by decide)
  exact absurd hle (by decide)

end PartLib.I2c
