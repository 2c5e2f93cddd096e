import PartLib.I2c.I2cDev

/-!
# The driver of the TCA9534

The functions of `tca9534.c` on a descriptor.
-/

namespace PartLib.I2c

/-- `REG_IN0`. -/
def regIn0 : UInt8 := 0x00

/-- `REG_OUT0`. -/
def regOut0 : UInt8 := 0x01

/-- `REG_POL0`. -/
def regPol0 : UInt8 := 0x02

/-- `REG_CONF0`. -/
def regConf0 : UInt8 := 0x03

/-- `BV`, in the eight bits that are kept of it. -/
def bv (x : ℕ) : UInt8 := UInt8.ofNat (1 <<< x)

/-- `read_reg_8`. -/
def readReg8 (reg : UInt8) : Dev UInt8 := do
  i2cDevTakeMutex
  let val ← i2cDevCheck (i2cDevReadReg reg 1)
  i2cDevGiveMutex
  return val[0]

/-- `write_reg_8`. -/
def writeReg8 (reg val : UInt8) : Dev Unit := do
  i2cDevTakeMutex
  i2cDevCheck (i2cDevWriteReg reg [val])
  i2cDevGiveMutex

/-- `tca9534_port_get_mode`. -/
def tca9534PortGetMode : Dev UInt8 := readReg8 regConf0

/-- `tca9534_port_set_mode`. -/
def tca9534PortSetMode (mode : UInt8) : Dev Unit := writeReg8 regConf0 mode

/-- `tca9534_port_get_polarity`. -/
def tca9534PortGetPolarity : Dev UInt8 := readReg8 regPol0

/-- `tca9534_port_set_polarity`. -/
def tca9534PortSetPolarity (polarity : UInt8) : Dev Unit := writeReg8 regPol0 polarity

/-- `tca9534_port_read`. -/
def tca9534PortRead : Dev UInt8 := readReg8 regIn0

/-- `tca9534_port_write`. -/
def tca9534PortWrite (val : UInt8) : Dev Unit := writeReg8 regOut0 val

/-- `tca9534_get_level`. -/
def tca9534GetLevel (pin : ℕ) : Dev UInt8 := do
  let v ← readReg8 regIn0
  return if v &&& bv pin ≠ 0 then 1 else 0

/-- The value that `tca9534_set_level` writes when it has read `v`. -/
def setLevelBits (v : UInt8) (pin : ℕ) (val : UInt8) : UInt8 :=
  (v &&& ~~~bv pin) ||| (if val ≠ 0 then bv pin else 0)

/-- `tca9534_set_level`. -/
def tca9534SetLevel (pin : ℕ) (val : UInt8) : Dev Unit := do
  i2cDevTakeMutex
  let v ← i2cDevCheck (i2cDevReadReg regOut0 1)
  i2cDevCheck (i2cDevWriteReg regOut0 [setLevelBits v[0] pin val])
  i2cDevGiveMutex

end PartLib.I2c
