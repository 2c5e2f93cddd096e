import PartLib.I2c.I2cDev

/-!
# The driver of the MCP4728

The functions of `mcp4728.c` on a descriptor, but for those that compute with voltages.
-/

namespace PartLib.I2c

/-- `MCP4728_CMD_FASTWRITE`. -/
def cmdFastwrite : UInt8 := 0x00

/-- `MCP4728_CMD_DACWRITE_SEQ`. -/
def cmdDacwriteSeq : UInt8 := 0x50

/-- `MCP4728_CMD_DACWRITE_SINGLE`. -/
def cmdDacwriteSingle : UInt8 := 0x58

/-- `MCP4728_CMD_PWRDWNWRITE`. -/
def cmdPwrdwnwrite : UInt8 := 0xA0

/-- `BIT_READY`. -/
def bitReady : UInt8 := 0x80

/-- `mcp4728_power_mode_t`. -/
inductive PowerMode
  | normal
  | pd1k
  | pd100k
  | pd500k
  deriving DecidableEq, Repr

/-- The value of an enumerator. -/
def PowerMode.toUInt8 : PowerMode → UInt8
  | .normal => 0
  | .pd1k => 1
  | .pd100k => 2
  | .pd500k => 3

/-- The enumerator with the value of the low two bits. -/
def PowerMode.ofUInt8 (b : UInt8) : PowerMode :=
  if b &&& 0x03 = 0 then .normal
  else if b &&& 0x03 = 1 then .pd1k
  else if b &&& 0x03 = 2 then .pd100k
  else .pd500k

/-- A value that fits in the twelve bits of a channel. -/
structure RawValue where
  val : UInt16
  le : val ≤ 0x0fff
  deriving DecidableEq

/-- A byte of a buffer whose first bytes have been read; the others are not looked at. -/
def byteAt {size : ℕ} (buf : Vector UInt8 size) (i : ℕ) : UInt8 := buf.toList.getD i 0

/-- `read_data`. -/
def readData (size : ℕ) : Dev (Vector UInt8 size) := do
  i2cDevTakeMutex
  let data ← i2cDevCheck (i2cDevRead [] size)
  i2cDevGiveMutex
  return data

/-- `mcp4728_eeprom_busy`. -/
def mcp4728EepromBusy : Dev Bool := do
  let res ← readData 1
  return byteAt res 0 &&& bitReady = 0

/-- `mcp4728_get_power_mode`. -/
def mcp4728GetPowerMode (eeprom : Bool) : Dev PowerMode := do
  let buf ← readData (if eeprom then 4 else 1)
  return .ofUInt8 ((if eeprom then byteAt buf 3 >>> 5 else byteAt buf 0 >>> 1) &&& 0x03)

/-- The value that `mcp4728_get_raw_output` finds in what it has read. -/
def rawOutputOf {size : ℕ} (eeprom : Bool) (buf : Vector UInt8 size) : UInt16 :=
  if eeprom then ((byteAt buf 3 &&& 0x0f).toUInt16 <<< 8) ||| (byteAt buf 4).toUInt16
  else ((byteAt buf 0).toUInt16 <<< 4) ||| (byteAt buf 1 >>> 4).toUInt16

/-- `mcp4728_get_raw_output`. -/
def mcp4728GetRawOutput (eeprom : Bool) : Dev UInt16 := do
  let buf ← readData (if eeprom then 5 else 3)
  return rawOutputOf eeprom buf

/-- The three bytes of a command with a value behind it. -/
def commandFrame (cmd : UInt8) (value : UInt16) : List UInt8 :=
  [cmd, (value >>> 4).toUInt8, (value <<< 4).toUInt8]

/-- The frame of `mcp4728_set_power_mode`. -/
def powerModeFrame (mode : PowerMode) (value : UInt16) : List UInt8 :=
  commandFrame (cmdPwrdwnwrite ||| ((mode.toUInt8 &&& 3) <<< 1)) value

/-- `mcp4728_set_power_mode`: the value is read, and written back with the mode. -/
def mcp4728SetPowerMode (eeprom : Bool) (mode : PowerMode) : Dev Unit := do
  let value ← mcp4728GetRawOutput eeprom
  i2cDevTakeMutex
  i2cDevCheck (i2cDevWrite [] (powerModeFrame mode value))
  i2cDevGiveMutex

/-- The frame of `mcp4728_set_raw_output`. -/
def rawOutputFrame (value : UInt16) (eeprom : Bool) : List UInt8 :=
  commandFrame (if eeprom then cmdDacwriteSeq else cmdFastwrite) value

/-- `mcp4728_set_raw_output`. -/
def mcp4728SetRawOutput (value : UInt16) (eeprom : Bool) : Dev Unit := do
  i2cDevTakeMutex
  i2cDevCheck (i2cDevWrite [] (rawOutputFrame value eeprom))
  i2cDevGiveMutex

/-- The frame of `mcp4728_fast_write`. -/
def fastFrame (value : UInt16) : List UInt8 :=
  [((value >>> 8) &&& 0x0F).toUInt8, (value &&& 0xFF).toUInt8]

/-- `mcp4728_fast_write`. -/
def mcp4728FastWrite (value : UInt16) : Dev Unit := do
  i2cDevTakeMutex
  i2cDevCheck (i2cDevWrite [] (fastFrame value))
  i2cDevGiveMutex

/-- The frame of `mcp4728_write_channel_raw`. -/
def channelFrame (ch : UInt8) (value : UInt16) : List UInt8 :=
  [cmdDacwriteSingle ||| (ch <<< 1), ((1 : UInt8) <<< 4) ||| ((value >>> 8) &&& 0x0F).toUInt8,
    (value &&& 0xFF).toUInt8]

/-- `mcp4728_write_channel_raw`. -/
def mcp4728WriteChannelRaw (ch : UInt8) (value : UInt16) : Dev Unit := do
  -- The last channel, `MCP4728_CH_D`, is 3.
  if ch < 0x03 then
    i2cDevTakeMutex
    i2cDevCheck (i2cDevWrite [] (channelFrame ch value))
    i2cDevGiveMutex
  else
    throw .invalidArg

end PartLib.I2c
