import PartLib.I2c.Mcp4728
import Mathlib.Tactic.IntervalCases

/-!
# The channel that a write reaches

The MCP4728 has four channels, and loads what the command of a frame says. `dac` runs calls of the
driver, one after another, against such a device, with every take and every transaction succeeding.

`mcp4728_fast_write` reaches channel A, and `mcp4728_write_channel_raw` the channel it names, but
channel D, which it refuses. `mcp4728_set_raw_output` sends the frame of a device with one channel:
its command byte and the high bits make up the pair that is loaded into channel A, and the low bits
are dropped. So a call has the effect it should have exactly when it is none of these two
(`dac_write_iff`).
-/

namespace PartLib.I2c

/-- The calls that write a channel. -/
inductive DacCall
  | setRawOutput (value : RawValue)
  | fastWrite (value : RawValue)
  | writeChannelRaw (ch : UInt8) (value : RawValue)
  deriving DecidableEq

/-- The function called. -/
def DacCall.body : DacCall → Dev Unit
  | .setRawOutput value => mcp4728SetRawOutput value.val false
  | .fastWrite value => mcp4728FastWrite value.val
  | .writeChannelRaw ch value => mcp4728WriteChannelRaw ch value.val

/-! ## The device -/

/-- The values of the channels A, B, C, and D. -/
abbrev Channels := Fin 4 → UInt16

/-- The value of a pair of bytes. -/
def dacValue (hi lo : UInt8) : UInt16 := ((hi &&& 0x0f).toUInt16 <<< 8) ||| lo.toUInt16

/-- A fast write: the pairs of bytes are loaded into the channels in turn, and an incomplete last
pair is ignored. -/
def loadPairs (channels : Channels) : List (Fin 4) → List UInt8 → Channels
  | ch :: chs, hi :: lo :: bytes =>
    loadPairs (Function.update channels ch (dacValue hi lo)) chs bytes
  | _, _ => channels

/-- The channel of a single write. -/
def singleChannel (b0 : UInt8) : Fin 4 := Fin.ofNat 4 ((b0 >>> 1) &&& 3).toNat

/-- The channels after a frame, which is told by the highest bits of its first byte. -/
def loadFrame (channels : Channels) (frame : List UInt8) : Channels :=
  match frame with
  | [] => channels
  | b0 :: bytes =>
    if b0 >>> 6 = 0 then loadPairs channels [0, 1, 2, 3] frame
    else if b0 >>> 3 = 0b01011 then
      match bytes with
      | b1 :: b2 :: _ => Function.update channels (singleChannel b0) (dacValue b1 b2)
      | _ => channels
    else channels

/-- The device, and the frames written to it. -/
structure DacBus where
  channels : Channels
  frames : List (List UInt8)

/-- Every request succeeds; a read, which these calls do not make, returns zeros. -/
def dacHandle (bus : DacBus) : (r : LockReq BusReq) → LockReq.Ans BusReq.Ans r × DacBus
  | .take => (true, bus)
  | .give => (true, bus)
  | .access (.read _ in_size) => (.ok (Vector.replicate in_size 0), bus)
  | .access (.write out_reg out_data) =>
    (.ok (), ⟨loadFrame bus.channels (out_reg ++ out_data), bus.frames ++ [out_reg ++ out_data]⟩)

/-- What a call returns, and the frames that it writes. -/
structure DacOut where
  res : Except EspError Unit
  frames : List (List UInt8)
  deriving DecidableEq

/-- The calls, one after another, with `channels` in the device at first. -/
def dac (channels : Channels) : Machine Channels DacCall DacOut where
  init := channels
  step s c :=
    let q := c.body.run.eval dacHandle ⟨s, []⟩
    some (q.2.channels, [⟨q.1, q.2.frames⟩])

/-! ## What a call is for -/

/-- The channel that a call addresses, when there is one. -/
def DacCall.channel : DacCall → Option (Fin 4)
  | .setRawOutput _ => some 0
  | .fastWrite _ => some 0
  | .writeChannelRaw ch _ => if h : ch.toNat < 4 then some ⟨ch.toNat, h⟩ else none

/-- The value that a call writes. -/
def DacCall.value : DacCall → UInt16
  | .setRawOutput value => value.val
  | .fastWrite value => value.val
  | .writeChannelRaw _ value => value.val

/-- The call returns `ESP_OK`, and the addressed channel holds the value while the others are
unchanged; or it addresses no channel, is refused, and writes nothing. -/
def DacWritten (s : Channels) (c : DacCall) (s' : Channels) (o : List DacOut) : Prop :=
  match c.channel with
  | some ch => (∃ frames, o = [⟨.ok (), frames⟩]) ∧ s' = Function.update s ch c.value
  | none => o = [⟨.error .invalidArg, []⟩] ∧ s' = s

/-- The call is no write of a nonzero value by `mcp4728_set_raw_output`, and does not name
channel D. -/
def DacCall.Supported : DacCall → Prop
  | .setRawOutput value => value.val = 0
  | .fastWrite _ => True
  | .writeChannelRaw ch _ => ch ≠ 3

/-! ## The bits of the frames -/

theorem and_15 (n : ℕ) : n &&& 15 = n % 16 := Nat.and_two_pow_sub_one_eq_mod n 4

theorem toNat_dacValue (hi lo : UInt8) :
    (dacValue hi lo).toNat = hi.toNat % 16 * 256 + lo.toNat := by
  have hshift : ((hi &&& 0x0f).toUInt16 <<< 8).toNat = (hi.toNat % 16) <<< 8 := by
    simp [and_15, Nat.shiftLeft_eq]
    omega
  rw [dacValue, UInt16.toNat_or, hshift, UInt8.toNat_toUInt16,
    ← Nat.shiftLeft_add_eq_or_of_lt lo.toNat_lt, Nat.shiftLeft_eq]

/-- The high bits of a value. -/
theorem toNat_highBits (v : UInt16) :
    ((v >>> 8) &&& 0x0F).toUInt8.toNat = v.toNat / 256 % 16 := by
  simp [Nat.shiftRight_eq_div_pow, and_15]

/-- The low bits of a value. -/
theorem toNat_lowBits (v : UInt16) : (v &&& 0xFF).toUInt8.toNat = v.toNat % 256 := by
  simpa using Nat.and_two_pow_sub_one_eq_mod (v.toNat % 256) 8

/-- The low twelve bits of a value. -/
theorem toNat_and_mask (v : UInt16) : (v &&& 0x0fff).toNat = v.toNat % 4096 := by
  rw [UInt16.toNat_and]
  exact Nat.and_two_pow_sub_one_eq_mod v.toNat 12

/-- The low twelve bits of a value that fits are the value. -/
theorem RawValue.and_mask (v : RawValue) : v.val &&& 0x0fff = v.val := by
  have hle : v.val.toNat ≤ 0x0fff := v.le
  rw [← UInt16.toNat_inj, toNat_and_mask]
  omega

/-- The bytes of `mcp4728_fast_write` give back the low twelve bits of the value. -/
theorem dacValue_fast (v : UInt16) :
    dacValue ((v >>> 8) &&& 0x0F).toUInt8 (v &&& 0xFF).toUInt8 = v &&& 0x0fff := by
  rw [← UInt16.toNat_inj, toNat_dacValue, toNat_highBits, toNat_lowBits, toNat_and_mask]
  omega

/-- The bytes of `mcp4728_write_channel_raw` give back the low twelve bits of the value: the bit set
above them is not part of it. -/
theorem dacValue_channel (v : UInt16) :
    dacValue (((1 : UInt8) <<< 4) ||| ((v >>> 8) &&& 0x0F).toUInt8) (v &&& 0xFF).toUInt8 =
      v &&& 0x0fff := by
  have hhi : (((1 : UInt8) <<< 4) ||| ((v >>> 8) &&& 0x0F).toUInt8).toNat % 16 =
      v.toNat / 256 % 16 := by
    rw [UInt8.toNat_or, toNat_highBits, ← and_15, Nat.and_or_distrib_right]
    simp [and_15]
  rw [← UInt16.toNat_inj, toNat_dacValue, hhi, toNat_lowBits, toNat_and_mask]
  omega

/-- The first two bytes of `mcp4728_set_raw_output` are the value without its low four bits. -/
theorem toNat_dacValue_rawOutput (v : RawValue) :
    (dacValue cmdFastwrite (v.val >>> 4).toUInt8).toNat = v.val.toNat / 16 := by
  have hle : v.val.toNat ≤ 0x0fff := v.le
  have hcmd : cmdFastwrite.toNat = 0 := rfl
  rw [toNat_dacValue, hcmd]
  simp [Nat.shiftRight_eq_div_pow]
  omega

/-- A fast write is told by its first byte. -/
theorem highBits_fast (v : UInt16) : ((v >>> 8) &&& 0x0F).toUInt8 >>> 6 = 0 := by
  have hlt : v.toNat / 256 % 16 < 16 := Nat.mod_lt _ (by decide)
  rw [← UInt8.toNat_inj, UInt8.toNat_shiftRight, toNat_highBits, Nat.shiftRight_eq_div_pow]
  exact Nat.div_eq_of_lt (lt_trans hlt (by decide))

/-- The command byte of `mcp4728_write_channel_raw`. -/
theorem channelFrame_head {ch : UInt8} (h : ch < 3) :
    (cmdDacwriteSingle ||| (ch <<< 1)) >>> 6 ≠ 0 ∧
      (cmdDacwriteSingle ||| (ch <<< 1)) >>> 3 = 0b01011 ∧
        (singleChannel (cmdDacwriteSingle ||| (ch <<< 1))).val = ch.toNat := by
  have hlt : ch.toNat < 3 := h
  obtain ⟨n, hn, rfl⟩ : ∃ n < 3, ch = UInt8.ofNat n := ⟨ch.toNat, hlt, by simp⟩
  interval_cases n <;> decide

/-! ## The calls -/

variable {channels s s' : Channels} {o : List DacOut}

/-- `mcp4728_set_raw_output` leaves the value without its low four bits in channel A. -/
theorem dac_setRawOutput (v : RawValue) :
    (dac channels).step s (.setRawOutput v) =
      some (Function.update s 0 (dacValue cmdFastwrite (v.val >>> 4).toUInt8),
        [⟨.ok (), [rawOutputFrame v.val false]⟩]) := rfl

/-- `mcp4728_fast_write` leaves the value in channel A. -/
theorem dac_fastWrite (v : RawValue) :
    (dac channels).step s (.fastWrite v) =
      some (Function.update s 0 v.val, [⟨.ok (), [fastFrame v.val]⟩]) := by
  have hload : loadFrame s (fastFrame v.val) = Function.update s 0 v.val := by
    simp only [fastFrame, loadFrame, highBits_fast, if_true]
    exact congrArg (Function.update s 0) ((dacValue_fast v.val).trans v.and_mask)
  rw [← hload]
  rfl

/-- Below D, `mcp4728_write_channel_raw` writes its frame. -/
theorem mcp4728WriteChannelRaw_of_lt {ch : UInt8} (h : ch < 3) (value : UInt16) :
    mcp4728WriteChannelRaw ch value = (do
      i2cDevTakeMutex
      i2cDevCheck (i2cDevWrite [] (channelFrame ch value))
      i2cDevGiveMutex) := if_pos h

/-- From D on, `mcp4728_write_channel_raw` makes no request. -/
theorem mcp4728WriteChannelRaw_of_not_lt {ch : UInt8} (h : ¬ ch < 3) (value : UInt16) :
    mcp4728WriteChannelRaw ch value = throw .invalidArg := if_neg h

/-- `mcp4728_write_channel_raw` on a channel below D leaves the value in it. -/
theorem dac_writeChannelRaw {ch : UInt8} (h : ch < 3) (v : RawValue) :
    ∃ chan : Fin 4, chan.val = ch.toNat ∧ (dac channels).step s (.writeChannelRaw ch v) =
      some (Function.update s chan v.val, [⟨.ok (), [channelFrame ch v.val]⟩]) := by
  obtain ⟨hfast, hsingle, hchan⟩ := channelFrame_head h
  refine ⟨_, hchan, ?_⟩
  have hload : loadFrame s (channelFrame ch v.val) =
      Function.update s (singleChannel (cmdDacwriteSingle ||| (ch <<< 1))) v.val := by
    rw [channelFrame, loadFrame, if_neg hfast, if_pos hsingle]
    simp only [dacValue_channel, v.and_mask]
  rw [← hload, dac]
  simp only [DacCall.body, mcp4728WriteChannelRaw_of_lt h]
  rfl

/-- From channel D on, `mcp4728_write_channel_raw` writes nothing. -/
theorem dac_writeChannelRaw_refused {ch : UInt8} (h : ¬ ch < 3) (v : RawValue) :
    (dac channels).step s (.writeChannelRaw ch v) = some (s, [⟨.error .invalidArg, []⟩]) := by
  rw [dac]
  simp only [DacCall.body, mcp4728WriteChannelRaw_of_not_lt h]
  rfl

/-- A call has the effect it should have exactly when it is supported. -/
theorem dac_step_iff {c : DacCall} (h : (dac channels).step s c = some (s', o)) :
    DacWritten s c s' o ↔ c.Supported := by
  cases c with
  | setRawOutput v =>
    rw [dac_setRawOutput] at h
    cases h
    have hinj : Function.update s 0 (dacValue cmdFastwrite (v.val >>> 4).toUInt8) =
        Function.update s 0 v.val ↔ dacValue cmdFastwrite (v.val >>> 4).toUInt8 = v.val :=
      (Function.update_injective s 0).eq_iff
    simp only [DacWritten, DacCall.channel, DacCall.value, DacCall.Supported, hinj]
    -- The value without its low bits is the value only when it is zero.
    rw [← UInt16.toNat_inj, ← UInt16.toNat_inj, toNat_dacValue_rawOutput]
    simp
    omega
  | fastWrite v =>
    rw [dac_fastWrite] at h
    cases h
    simp [DacWritten, DacCall.channel, DacCall.value, DacCall.Supported]
  | writeChannelRaw ch v =>
    by_cases hlt : ch < 3
    · obtain ⟨chan, hchan, hstep⟩ : ∃ chan : Fin 4, chan.val = ch.toNat ∧
          (dac channels).step s (.writeChannelRaw ch v) =
            some (Function.update s chan v.val, [⟨.ok (), [channelFrame ch v.val]⟩]) :=
        dac_writeChannelRaw hlt v
      rw [hstep] at h
      cases h
      have hlt' : ch.toNat < 3 := hlt
      have hne : ch ≠ 3 := by
        rintro rfl
        exact absurd hlt (by decide)
      have hfour : ch.toNat < 4 := by omega
      have hch : (⟨ch.toNat, hfour⟩ : Fin 4) = chan := Fin.ext hchan.symm
      simp [DacWritten, DacCall.channel, DacCall.value, DacCall.Supported, hfour, hch, hne]
    · rw [dac_writeChannelRaw_refused hlt] at h
      cases h
      have hge : 3 ≤ ch.toNat := not_lt.mp hlt
      by_cases hch : ch = 3
      · subst hch
        simp [DacWritten, DacCall.channel, DacCall.Supported]
      · have hfour : ¬ ch.toNat < 4 := by
          intro hlt
          have heq : ch.toNat = 3 := by omega
          exact hch (UInt8.toNat_inj.mp heq)
        simp [DacWritten, DacCall.channel, DacCall.Supported, hfour, hch]

/-- In every run of calls, each call returns `ESP_OK` and leaves its value in the channel it
addresses, with the other channels unchanged, or is refused without a write when there is no such
channel, if and only if each call is supported. -/
theorem dac_write_iff (channels : Channels) (calls : List DacCall) :
    ((dac channels).AllSteps calls fun _ s c s' o => DacWritten s c s' o) ↔
      (dac channels).AllSteps calls fun _ _ c _ _ => c.Supported :=
  Machine.allSteps_congr (fun _ _ => True) trivial (fun _ _ _ _ _ _ _ => trivial)
    fun _ _ _ _ _ _ hstep => dac_step_iff hstep

/-- `mcp4728_set_raw_output` on the value 0x0fff leaves 0xff in channel A. -/
theorem dac_setRawOutput_truncates :
    ¬ (dac fun _ => 0).AllSteps [.setRawOutput ⟨0x0fff, by decide⟩] fun _ s c s' o =>
      DacWritten s c s' o := by
  intro h
  have hwritten := h [] (fun _ => 0) (.setRawOutput ⟨0x0fff, by decide⟩) _ _ ⟨by simp, ⟨[], rfl⟩, rfl⟩
  have hchannel : (0xff : UInt16) = 0x0fff := congrFun hwritten.2 0
  exact absurd hchannel (by decide)

end PartLib.I2c
