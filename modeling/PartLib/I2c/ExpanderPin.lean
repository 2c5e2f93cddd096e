import PartLib.I2c.OutRegister
import PartLib.I2c.Outcomes

/-!
# The pins of the expander that the application sets

`i2c_exp_set_pin` tests the pin and then the state, and keeps both results in one flag, so that the
test of the state overwrites that of the pin; and it returns 0 whatever `tca9534_set_level` returns. It
does what it should exactly when the state is refused, or the pin is one of 0 to 4 and the pin update
goes through (`setsPin_iff`).
-/

namespace PartLib.I2c

/-- The conversion of an `int` to a `uint8_t`, as the number of a pin. -/
def pinOfInt (pin : Int32) : ℕ := (pin.toInt % 256).toNat

/-- `i2c_exp_set_pin`. -/
def i2cExpSetPin (pin state : Int32) : DevProgram ℤ := do
  let mut ok := decide (0 ≤ pin ∧ pin ≤ 4)
  let mut enable : UInt8 := 0
  if state = 0 then
    ok := true
    enable := 0
  else if state = 1 then
    ok := true
    enable := 1
  else
    ok := false
  if !ok then
    return -1
  -- The shift in the callee is undefined for a pin from 32 on; nothing below rests on its result.
  let _ ← (tca9534SetLevel (pinOfInt pin) enable).run
  return 0

/-! ## What a call is for -/

/-- A call on an expander with given registers: what it returns, the registers, and the transactions
on the bus. -/
def setPinOn (oc : Outcomes) (regs : Tca9534Regs) (pin state : Int32) : ℤ × Bus Tca9534Regs :=
  callOn tca9534Access oc regs (i2cExpSetPin pin state)

/-- The state is a level. -/
def IsLevel (state : Int32) : Prop := state = 0 ∨ state = 1

/-- The pin is one of those that the application may set. -/
def IsPin (pin : Int32) : Prop := 0 ≤ pin ∧ pin ≤ 4

instance : DecidablePred IsPin := fun _ => inferInstanceAs (Decidable (_ ∧ _))

/-- The pin update goes through on the device: the mutex is taken, and both transactions succeed. -/
def Outcomes.Updates (oc : Outcomes) : Prop := oc.take ∧ oc.read = none ∧ oc.write = none

/-- The call returns 0 exactly when the arguments are in range and the pin update succeeds, and then
sets the pin and no other; otherwise it returns `-1` and leaves the output register, and when an
argument is out of range there is no transaction. -/
structure SetsPin (oc : Outcomes) (regs : Tca9534Regs) (pin state : Int32) : Prop where
  returns : (setPinOn oc regs pin state).1 = 0 ↔ (IsPin pin ∧ IsLevel state) ∧ oc.Updates
  sets : (setPinOn oc regs pin state).1 = 0 → ∃ p : Fin 8, (p.val : ℤ) = pin.toInt ∧
    pins ((setPinOn oc regs pin state).2.device regOut0) =
      Function.update (pins (regs regOut0)) p (state = 1)
  keeps : (setPinOn oc regs pin state).1 ≠ 0 → (setPinOn oc regs pin state).1 = -1 ∧
    (setPinOn oc regs pin state).2.device regOut0 = regs regOut0
  quiet : ¬ (IsPin pin ∧ IsLevel state) → (setPinOn oc regs pin state).2.transactions = []

/-! ## The two branches -/

section

variable {oc : Outcomes} {regs : Tca9534Regs} {pin state : Int32}

/-- A state that is no level is refused. -/
theorem setPinOn_of_not_isLevel (h : ¬ IsLevel state) :
    setPinOn oc regs pin state = (-1, ⟨regs, []⟩) := by
  have hbody : i2cExpSetPin pin state = .pure (-1) := by
    simp only [IsLevel, not_or] at h
    simp [i2cExpSetPin, h.1, h.2]
    rfl
  rw [setPinOn, hbody]
  rfl

/-- A level is set on the pin, whatever pin it is, and the call returns 0, whatever comes of it. -/
theorem setPinOn_of_isLevel (h : IsLevel state) :
    setPinOn oc regs pin state =
      (0, (callOn tca9534Access oc regs
        (tca9534SetLevel (pinOfInt pin) (if state = 1 then 1 else 0)).run).2) := by
  have hbody : i2cExpSetPin pin state = (do
      let _ ← (tca9534SetLevel (pinOfInt pin) (if state = 1 then 1 else 0)).run
      return 0) := by
    rcases h with rfl | rfl <;> simp [i2cExpSetPin]
  rw [setPinOn, hbody, callOn, Program.eval_bind]
  rfl

/-- `tca9534_set_level` by itself. -/
theorem callOn_tca9534SetLevel {p : ℕ} {val : UInt8} (h : oc.Updates) :
    (callOn tca9534Access oc regs (tca9534SetLevel p val).run).2.device regOut0 =
      setLevelBits (regs regOut0) p val := by
  obtain ⟨take, give, read, write⟩ := oc
  obtain ⟨rfl, rfl, rfl⟩ := h
  cases give <;> rfl

/-- The number of a pin in range is the pin. -/
theorem pinOfInt_of_isPin (h : IsPin pin) : pinOfInt pin < 8 ∧ (pinOfInt pin : ℤ) = pin.toInt := by
  have h0 : 0 ≤ pin.toInt := Int32.le_iff_toInt_le.mp h.1
  have h4 : pin.toInt ≤ 4 := Int32.le_iff_toInt_le.mp h.2
  unfold pinOfInt
  omega

end

/-- Whatever the pin and the state, the contents of the registers, and the outcomes of the mutex and
of the bus: the call does what it should if and only if the state is no level, or the pin is in range
and the pin update succeeds. -/
theorem setsPin_iff (oc : Outcomes) (regs : Tca9534Regs) (pin state : Int32) :
    SetsPin oc regs pin state ↔ ¬ IsLevel state ∨ IsPin pin ∧ oc.Updates := by
  by_cases hlevel : IsLevel state
  · have hzero : (setPinOn oc regs pin state).1 = 0 := by rw [setPinOn_of_isLevel hlevel]
    constructor
    · intro h
      obtain ⟨⟨hpin, -⟩, hupdates⟩ := h.returns.mp hzero
      exact .inr ⟨hpin, hupdates⟩
    · rintro (hnot | ⟨hpin, hupdates⟩)
      · exact absurd hlevel hnot
      refine ⟨iff_of_true hzero ⟨⟨hpin, hlevel⟩, hupdates⟩, fun _ => ?_, fun h => absurd hzero h,
        fun h => absurd ⟨hpin, hlevel⟩ h⟩
      obtain ⟨hlt, hval⟩ := pinOfInt_of_isPin hpin
      refine ⟨⟨pinOfInt pin, hlt⟩, hval, ?_⟩
      rw [setPinOn_of_isLevel hlevel, callOn_tca9534SetLevel hupdates,
        pins_setLevelBits (regs regOut0) ⟨pinOfInt pin, hlt⟩]
      by_cases hone : state = 1 <;> simp [hone]
  · refine iff_of_true ?_ (.inl hlevel)
    constructor <;> rw [setPinOn_of_not_isLevel hlevel]
    · exact iff_of_false (by simp) fun h => hlevel h.1.2
    · exact fun h => absurd h (by simp)
    · exact fun _ => ⟨rfl, rfl⟩
    · exact fun _ => rfl

/-- The pin 256 is taken for the pin 0, which is set. -/
theorem not_setsPin_256 :
    (setPinOn {} (fun _ => 0) 256 1).2.device regOut0 = 1 ∧ ¬ SetsPin {} (fun _ => 0) 256 1 := by
  refine ⟨by decide, fun h => ?_⟩
  have hzero : (setPinOn {} (fun _ => 0) 256 1).1 = 0 := by decide
  exact absurd (h.returns.mp hzero).1.1 (by decide)

end PartLib.I2c
