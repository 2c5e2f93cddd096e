import PartLib.Encoder.Encoder
import PartLib.Lib.Excursions
import Mathlib.Data.Fintype.Prod

/-!
# What the decoder of the position sees

The pins `A` and `B` of a rotary encoder go around a cycle of four levels. `read_encoder` keeps the
codes of the last four steps in `store`, and raises an event when they are exactly those of one turn
of the cycle, from rest to rest. While no sample misses a step, the events it raises are therefore
told by the excursions of the pins from rest: one for each that consists of four steps in the same
order (`changedOf_readPolls`).
-/

namespace PartLib.Encoder

/-! ## The cycle of the pins -/

/-- The levels of `A` and `B`. -/
abbrev Pins := Bool × Bool

/-- Both pins are high at rest. -/
def rest : Pins := (true, true)

/-- The pins after a step forward: from rest `A` falls, `B` falls, `A` rises, and `B` rises. -/
def next (p : Pins) : Pins := (!p.2, p.1)

/-- The pins after a step backward. -/
def prev (p : Pins) : Pins := (p.2, !p.1)

/-- The step between two samples, when there is one. -/
def move (p q : Pins) : ℤ := if q = next p then 1 else if q = prev p then -1 else 0

/-- The steps between samples that follow `p`. A level that is sampled again is no step. -/
def moves : Pins → List Pins → List ℤ
  | _, [] => []
  | p, q :: qs => if move p q = 0 then moves q qs else move p q :: moves q qs

/-- Two samples that differ in at most one pin. -/
def OnePin (p q : Pins) : Prop := p.1 = q.1 ∨ p.2 = q.2

/-- No step between the samples that follow `p` is missed. -/
def NoneMissed (p : Pins) (samples : List Pins) : Prop := List.IsChain OnePin (p :: samples)

instance : DecidableRel OnePin := fun p q => inferInstanceAs (Decidable (p.1 = q.1 ∨ p.2 = q.2))

instance (p : Pins) (samples : List Pins) : Decidable (NoneMissed p samples) :=
  inferInstanceAs (Decidable (List.IsChain OnePin (p :: samples)))

/-- The pins after some steps forward from rest. -/
def pinsAt (k : ℤ) : Pins := (decide (k % 4 = 0 ∨ k % 4 = 3), decide (k % 4 < 2))

theorem move_cases (p q : Pins) : move p q = 0 ∨ move p q = 1 ∨ move p q = -1 := by
  simp only [move]
  split_ifs <;> simp

theorem move_self (p : Pins) : move p p = 0 := by
  revert p
  decide

/-- The pins are at rest when the steps have gone around. -/
theorem pinsAt_eq_rest {k : ℤ} : pinsAt k = rest ↔ (4 : ℤ) ∣ k := by
  simp only [pinsAt, rest, Prod.mk.injEq, decide_eq_true_eq]
  omega

/-- The remainders by which the pins go around. -/
theorem emod_four_cases (k : ℤ) : k % 4 = 0 ∨ k % 4 = 1 ∨ k % 4 = 2 ∨ k % 4 = 3 := by omega

/-- A step from known pins leads to the next ones. -/
theorem pinsAt_add_move {k : ℤ} {q : Pins} (h : OnePin (pinsAt k) q) :
    pinsAt (k + move (pinsAt k) q) = q := by
  obtain ⟨a, b⟩ := q
  rcases emod_four_cases k with hk | hk | hk | hk <;> cases a <;> cases b <;>
    simp [OnePin, pinsAt, move, next, prev, hk] at h ⊢ <;> omega

/-! ## The codes of the steps -/

/-- The levels of the pins, as `read_encoder` puts them into the code. -/
def levelsOf (p : Pins) : UInt8 := p.1.toUInt8 ||| (p.2.toUInt8 <<< 1)

/-- The code of two samples one after the other. -/
def codeOf (p q : Pins) : UInt8 := (levelsOf p <<< 2) ||| levelsOf q

/-- The code of a step forward or backward, from the number of the steps before it. -/
def stepCode (k d : ℤ) : ℕ :=
  if d = 1 then [14, 8, 1, 7].getD (k % 4).toNat 0 else [13, 11, 2, 4].getD (k % 4).toNat 0

/-- Only the last sample is left of the code before. -/
theorem nextCode_eq {code : UInt8} {p : Pins} (h : code &&& 3 = levelsOf p) (q : Pins) :
    nextCode code q.1 q.2 = codeOf p q := by
  have hlow : ∀ n : Fin 256, ∀ a b, nextCode (UInt8.ofNat n) a b =
      nextCode (UInt8.ofNat n &&& 3) a b := by
    decide +kernel
  have hcode : ∀ p q : Pins, nextCode (levelsOf p) q.1 q.2 = codeOf p q := by decide
  have h256 := hlow ⟨code.toNat, code.toNat_lt⟩ q.1 q.2
  rw [UInt8.ofNat_toNat, h, hcode] at h256
  exact h256

/-- The last sample is in the code. -/
theorem nextCode_and (code : UInt8) (q : Pins) : nextCode code q.1 q.2 &&& 3 = levelsOf q := by
  have hlast : ∀ n : Fin 256, ∀ q : Pins,
      nextCode (UInt8.ofNat n) q.1 q.2 &&& 3 = levelsOf q := by
    decide +kernel
  have h256 := hlast ⟨code.toNat, code.toNat_lt⟩ q
  rwa [UInt8.ofNat_toNat] at h256

/-- The valid codes are those of the steps. -/
theorem validStates_codeOf (p q : Pins) :
    validStates.getD (codeOf p q).toNat 0 = 0 ↔ move p q = 0 := by
  revert p q
  decide

/-- A code has four bits. -/
theorem codeOf_lt (p q : Pins) : (codeOf p q).toNat < 16 := by
  revert p q
  decide

/-- The code of a step from where the steps before have led. -/
theorem codeOf_pinsAt {k d : ℤ} (hd : d = 1 ∨ d = -1) :
    (codeOf (pinsAt k) (pinsAt (k + d))).toNat = stepCode k d := by
  have hadd : (k + d) % 4 = (k % 4 + d) % 4 := by omega
  rcases hd with rfl | rfl <;> rcases emod_four_cases k with hk | hk | hk | hk
  all_goals
    rw [hk] at hadd
    simp only [pinsAt, hadd, hk, stepCode]
    decide

/-! ## What is in the store -/

/-- The store after the codes of some steps from rest, the last one first. -/
def storeAfter (before : UInt16) : List ℤ → UInt16
  | [] => before
  | d :: walked =>
    (storeAfter before walked <<< 4) |||
      (codeOf (pinsAt walked.sum) (pinsAt (walked.sum + d))).toUInt16

/-- A code is put behind the last three that are in the store. -/
theorem toNat_push (store : UInt16) {code : UInt8} (h : code.toNat < 16) :
    ((store <<< 4) ||| code.toUInt16).toNat = store.toNat * 16 % 65536 + code.toNat := by
  have hshift : store.toNat * 16 % 65536 = 2 ^ 4 * (store.toNat % 4096) := by omega
  rw [UInt16.toNat_or, UInt16.toNat_shiftLeft, UInt8.toNat_toUInt16]
  change (store.toNat <<< 4 % 65536) ||| code.toNat = _
  rw [Nat.shiftLeft_eq, hshift, Nat.two_pow_add_eq_or_of_lt (i := 4) h]

variable {before : UInt16} {walked : List ℤ} {d : ℤ}

theorem toNat_storeAfter_cons (before : UInt16) (walked : List ℤ) (hd : d = 1 ∨ d = -1) :
    (storeAfter before (d :: walked)).toNat =
      (storeAfter before walked).toNat * 16 % 65536 + stepCode walked.sum d := by
  rw [storeAfter, toNat_push _ (codeOf_lt _ _), codeOf_pinsAt hd]

/-- The steps of a walk that has not been at rest since its first one. -/
def Away (walked : List ℤ) : Prop := ∀ older, older <:+ walked → older ≠ [] → ¬ (4 : ℤ) ∣ older.sum

/-- The codes of the four steps of a turn in the order of the sign: each tells where its step was
made, and in which order. -/
structure TurnCodes (sign : ℤ) (c₁ c₂ c₃ c₄ : ℕ) : Prop where
  isStep : sign = 1 ∨ sign = -1
  first : ∀ k d : ℤ, d = 1 ∨ d = -1 → (stepCode k d = c₁ ↔ k % 4 = 0 ∧ d = sign)
  second : ∀ k d : ℤ, d = 1 ∨ d = -1 → (stepCode k d = c₂ ↔ k % 4 = sign % 4 ∧ d = sign)
  third : ∀ k d : ℤ, d = 1 ∨ d = -1 → (stepCode k d = c₃ ↔ k % 4 = 2 ∧ d = sign)
  fourth : ∀ k d : ℤ, d = 1 ∨ d = -1 → (stepCode k d = c₄ ↔ k % 4 = -sign % 4 ∧ d = sign)

theorem turnCodes_forward : TurnCodes 1 14 8 1 7 := by
  constructor
  case isStep => exact .inl rfl
  all_goals
    rintro k d (rfl | rfl) <;> rcases emod_four_cases k with hk | hk | hk | hk <;>
      simp [stepCode, hk]

theorem turnCodes_backward : TurnCodes (-1) 13 4 2 11 := by
  constructor
  case isStep => exact .inr rfl
  all_goals
    rintro k d (rfl | rfl) <;> rcases emod_four_cases k with hk | hk | hk | hk <;>
      simp [stepCode, hk]

theorem stepCode_lt {k : ℤ} (hd : d = 1 ∨ d = -1) : stepCode k d < 16 := by
  rw [← codeOf_pinsAt hd]
  exact codeOf_lt _ _

/-- The codes of a turn are in the store when the last step has come to rest, and only the first one
since the walk was away has started there, exactly after the four steps of the turn. -/
theorem storeAfter_eq_iff {sign : ℤ} {c₁ c₂ c₃ c₄ : ℕ} (ht : TurnCodes sign c₁ c₂ c₃ c₄)
    (hlt : c₁ < 16 ∧ c₂ < 16 ∧ c₃ < 16 ∧ c₄ < 16) (hsteps : ∀ d ∈ walked, d = 1 ∨ d = -1)
    (haway : Away walked.tail) (hne : walked ≠ []) :
    (storeAfter before walked).toNat = ((c₁ * 16 + c₂) * 16 + c₃) * 16 + c₄ ↔
      walked = [sign, sign, sign, sign] := by
  have hsign := ht.isStep
  constructor
  · intro hstore
    -- A step that does not start at rest is not the first one, so there is one before it.
    have hcons : ∀ older : List ℤ, older.sum % 4 ≠ 0 → ∃ d rest, older = d :: rest := by
      intro older h
      cases older with
      | nil => simp at h
      | cons d rest => exact ⟨d, rest, rfl⟩
    -- From the last code to the first: each tells its step, and that there is one before it.
    obtain ⟨d₄, w₃, rfl⟩ := List.exists_cons_of_ne_nil hne
    have hd₄ := hsteps d₄ (by simp)
    have hs₄ := toNat_storeAfter_cons before w₃ hd₄
    have hc₄ := stepCode_lt (k := w₃.sum) hd₄
    obtain ⟨hk₃, rfl⟩ := (ht.fourth w₃.sum d₄ hd₄).mp (by omega)
    obtain ⟨d₃, w₂, rfl⟩ := hcons w₃ (by omega)
    have hd₃ := hsteps d₃ (by simp)
    have hs₃ := toNat_storeAfter_cons before w₂ hd₃
    have hc₃ := stepCode_lt (k := w₂.sum) hd₃
    obtain ⟨hk₂, rfl⟩ := (ht.third w₂.sum d₃ hd₃).mp (by omega)
    obtain ⟨d₂, w₁, rfl⟩ := hcons w₂ (by omega)
    have hd₂ := hsteps d₂ (by simp)
    have hs₂ := toNat_storeAfter_cons before w₁ hd₂
    have hc₂ := stepCode_lt (k := w₁.sum) hd₂
    obtain ⟨hk₁, rfl⟩ := (ht.second w₁.sum d₂ hd₂).mp (by omega)
    obtain ⟨d₁, w₀, rfl⟩ := hcons w₁ (by omega)
    have hd₁ := hsteps d₁ (by simp)
    have hs₁ := toNat_storeAfter_cons before w₀ hd₁
    have hc₁ := stepCode_lt (k := w₀.sum) hd₁
    obtain ⟨hk₀, rfl⟩ := (ht.first w₀.sum d₁ hd₁).mp (by omega)
    -- The first step starts at rest, where the walk has not been since it began.
    obtain rfl : w₀ = [] := by
      by_contra hw
      refine haway w₀ ?_ hw (by omega)
      simpa using (List.suffix_append [d₁, d₁, d₁] w₀)
    rfl
  · rintro rfl
    have h₁ : stepCode 0 sign = c₁ := (ht.first 0 sign hsign).mpr ⟨rfl, rfl⟩
    have h₂ : stepCode [sign].sum sign = c₂ :=
      (ht.second _ sign hsign).mpr ⟨by simp, rfl⟩
    have h₃ : stepCode [sign, sign].sum sign = c₃ :=
      (ht.third _ sign hsign).mpr ⟨by simp; omega, rfl⟩
    have h₄ : stepCode [sign, sign, sign].sum sign = c₄ :=
      (ht.fourth _ sign hsign).mpr ⟨by simp; omega, rfl⟩
    simp only [toNat_storeAfter_cons _ _ hsign, h₂, h₃, h₄, List.sum_nil, h₁]
    omega

/-- An event for a turn, by the steps of an excursion. -/
def turnEvents (excursion : List ℤ) : List Event :=
  if excursion = [1, 1, 1, 1] then [⟨.changed, 1⟩]
  else if excursion = [-1, -1, -1, -1] then [⟨.changed, -1⟩] else []

/-- The events of the store are those of the excursion. -/
theorem storeEvents_eq (hsteps : ∀ d ∈ walked, d = 1 ∨ d = -1) (haway : Away walked.tail)
    (hne : walked ≠ []) :
    (if storeAfter before walked = 0xe817 then [⟨.changed, 1⟩]
      else if storeAfter before walked = 0xd42b then [⟨.changed, -1⟩] else [] : List Event) =
      turnEvents walked.reverse := by
  have hforward : storeAfter before walked = 0xe817 ↔ walked = [1, 1, 1, 1] := by
    rw [← UInt16.toNat_inj]
    exact storeAfter_eq_iff turnCodes_forward (by decide) hsteps haway hne
  have hbackward : storeAfter before walked = 0xd42b ↔ walked = [-1, -1, -1, -1] := by
    rw [← UInt16.toNat_inj]
    exact storeAfter_eq_iff turnCodes_backward (by decide) hsteps haway hne
  simp only [hforward, hbackward, turnEvents, List.reverse_eq_iff]
  rfl

/-! ## The polls -/

/-- The pins at a poll. -/
def RotaryEncoder.pins (re : RotaryEncoder) (levels : Levels) : Pins :=
  (levels re.pinA, levels re.pinB)

/-- Polls one after another, with the events that they raise. -/
def readPolls (cfg : Config) : RotaryEncoder → List Levels → RotaryEncoder × List Event
  | re, [] => (re, [])
  | re, levels :: polls =>
    let poll := readEncoder cfg re levels
    let later := readPolls cfg poll.1 polls
    (later.1, poll.2 ++ later.2)

/-- The events of the position. -/
def changedOf (es : List Event) : List Event := es.filter fun e => e.type = .changed

@[simp]
theorem changedOf_append (es₁ es₂ : List Event) :
    changedOf (es₁ ++ es₂) = changedOf es₁ ++ changedOf es₂ := List.filter_append ..

variable {cfg : Config} {re : RotaryEncoder} {p q : Pins}

/-- The polls of a list are those of its first part, and then those of the rest. -/
theorem readPolls_append (re : RotaryEncoder) (polls₁ polls₂ : List Levels) :
    readPolls cfg re (polls₁ ++ polls₂) =
      ((readPolls cfg (readPolls cfg re polls₁).1 polls₂).1,
        (readPolls cfg re polls₁).2 ++ (readPolls cfg (readPolls cfg re polls₁).1 polls₂).2) := by
  induction polls₁ generalizing re with
  | nil => rfl
  | cons levels polls₁ ih => simp [readPolls, ih]

/-- The button leaves the position alone, and its events are none of the position. -/
theorem readButton_position (cfg : Config) (re : RotaryEncoder) (level : Bool) :
    let r := readButton cfg re level
    changedOf r.2 = [] ∧ r.1.code = re.code ∧ r.1.store = re.store ∧ r.1.pinA = re.pinA ∧
      r.1.pinB = re.pinB := by
  simp only [readButton]
  split_ifs <;> simp [changedOf]

/-- The events of the position that a poll raises, and what it leaves, are those of the position
alone. -/
theorem readEncoder_position (cfg : Config) (re : RotaryEncoder) (levels : Levels) :
    let r := readEncoder cfg re levels
    let s := readPosition re (levels re.pinA) (levels re.pinB)
    changedOf r.2 = s.2 ∧ r.1.code = s.1.code ∧ r.1.store = s.1.store ∧ r.1.pinA = re.pinA ∧
      r.1.pinB = re.pinB := by
  have hchanged : ∀ (re : RotaryEncoder) a b,
      changedOf (readPosition re a b).2 = (readPosition re a b).2 := by
    intro re a b
    simp only [readPosition]
    split_ifs <;> simp [changedOf]
  have hpos : ∀ (re re' : RotaryEncoder) a b, re'.code = re.code → re'.store = re.store →
      (readPosition re' a b).2 = (readPosition re a b).2 ∧
      (readPosition re' a b).1.code = (readPosition re a b).1.code ∧
      (readPosition re' a b).1.store = (readPosition re a b).1.store ∧
      (readPosition re' a b).1.pinA = re'.pinA ∧ (readPosition re' a b).1.pinB = re'.pinB := by
    intro re re' a b hcode hstore
    simp only [readPosition, hcode, hstore]
    split_ifs <;> simp
  obtain ⟨hnone, hcode, hstore, ha, hb⟩ := readButton_position cfg re (levels re.pinBtn)
  simp only [readEncoder]
  split_ifs with hbtn
  · obtain ⟨h₁, h₂, h₃, h₄, h₅⟩ := hpos re _ (levels re.pinA) (levels re.pinB) hcode hstore
    rw [changedOf_append, hnone, List.nil_append, hchanged, h₁, h₂, h₃, h₄, h₅, ha, hb]
    exact ⟨rfl, rfl, rfl, rfl, rfl⟩
  · obtain ⟨h₁, h₂, h₃, h₄, h₅⟩ := hpos re re (levels re.pinA) (levels re.pinB) rfl rfl
    rw [List.nil_append, hchanged, h₄, h₅]
    exact ⟨rfl, rfl, rfl, rfl, rfl⟩

/-- A poll leaves the pins as they are. -/
theorem readEncoder_pins (cfg : Config) (re : RotaryEncoder) (levels : Levels) :
    (readEncoder cfg re levels).1.pins = re.pins := by
  obtain ⟨-, -, -, ha, hb⟩ := readEncoder_position cfg re levels
  funext levels'
  rw [RotaryEncoder.pins, ha, hb, RotaryEncoder.pins]

/-- The polls leave the pins as they are. -/
theorem readPolls_pins (cfg : Config) (re : RotaryEncoder) (polls : List Levels) :
    (readPolls cfg re polls).1.pins = re.pins := by
  induction polls generalizing re with
  | nil => rfl
  | cons levels polls ih =>
    rw [readPolls, ih]
    exact readEncoder_pins cfg re levels

/-- After a poll the code ends with its sample. -/
theorem readEncoder_code (cfg : Config) (re : RotaryEncoder) (levels : Levels) :
    (readEncoder cfg re levels).1.code &&& 3 = levelsOf (re.pins levels) := by
  obtain ⟨-, hcode, -⟩ := readEncoder_position cfg re levels
  have hnext : (readPosition re (levels re.pinA) (levels re.pinB)).1.code =
      nextCode re.code (levels re.pinA) (levels re.pinB) := by
    simp only [readPosition]
    split_ifs <;> rfl
  rw [hcode, hnext]
  exact nextCode_and re.code (re.pins levels)

/-- The descriptor knows the pins of the last sample, and the codes of the steps since they left
rest are in the store. -/
structure Tracks (re : RotaryEncoder) (p : Pins) (walked : List ℤ) : Prop where
  code : re.code &&& 3 = levelsOf p
  pins : p = pinsAt walked.sum
  steps : ∀ d ∈ walked, d = 1 ∨ d = -1
  away : Away walked
  store : ∃ before, re.store = storeAfter before walked

/-- At rest, whatever is in the store. -/
theorem Tracks.of_rest (h : re.code &&& 3 = levelsOf rest) : Tracks re rest [] where
  code := h
  pins := rfl
  steps := by simp
  away := by
    intro older h hne
    exact absurd (List.suffix_nil.mp h) hne
  store := ⟨re.store, rfl⟩

/-- The pins are where the steps have led. -/
theorem Tracks.pinsAt_add_move (ht : Tracks re p walked) (hone : OnePin p q) :
    pinsAt (walked.sum + move p q) = q := by
  have hp := ht.pins
  subst hp
  exact Encoder.pinsAt_add_move hone

/-- A level that is sampled again raises nothing. -/
theorem Tracks.dwell (ht : Tracks re p walked) (cfg : Config) {levels : Levels}
    (hone : OnePin p (re.pins levels))
    (hmove : move p (re.pins levels) = 0) :
    Tracks (readEncoder cfg re levels).1 (re.pins levels) walked ∧
      changedOf (readEncoder cfg re levels).2 = [] := by
  obtain ⟨hev, -, hstore, -, -⟩ := readEncoder_position cfg re levels
  have hnext : nextCode re.code (levels re.pinA) (levels re.pinB) = codeOf p (re.pins levels) :=
    nextCode_eq ht.code (re.pins levels)
  -- The code of two equal samples is not valid, so nothing is stored.
  have hvalid := (validStates_codeOf p (re.pins levels)).mpr hmove
  simp only [readPosition, hnext, hvalid, if_true] at hev hstore
  have hpins := ht.pinsAt_add_move hone
  rw [hmove] at hpins
  refine ⟨⟨readEncoder_code cfg re levels, by rw [← hpins, add_zero], ht.steps, ht.away, ?_⟩, hev⟩
  rw [hstore]
  exact ht.store

/-- A step raises the events of the excursion that it completes, and none when it completes none. -/
theorem Tracks.step (ht : Tracks re p walked) (cfg : Config) {levels : Levels}
    (hone : OnePin p (re.pins levels))
    (hmove : move p (re.pins levels) ≠ 0) :
    let d := move p (re.pins levels)
    Tracks (readEncoder cfg re levels).1 (re.pins levels)
        (if (4 : ℤ) ∣ (d :: walked).sum then [] else d :: walked) ∧
      changedOf (readEncoder cfg re levels).2 = turnEvents (d :: walked).reverse := by
  intro d
  obtain ⟨hev, -, hstore, -, -⟩ := readEncoder_position cfg re levels
  have hnext : nextCode re.code (levels re.pinA) (levels re.pinB) = codeOf p (re.pins levels) :=
    nextCode_eq ht.code (re.pins levels)
  have hvalid := (validStates_codeOf p (re.pins levels)).not.mpr hmove
  simp only [readPosition, hnext, hvalid, if_false] at hev hstore
  have hpins : pinsAt (walked.sum + d) = re.pins levels := ht.pinsAt_add_move hone
  obtain ⟨before, hbefore⟩ := ht.store
  -- The code of the step comes behind those since the pins left rest.
  have hpush : (re.store <<< 4) ||| (codeOf p (re.pins levels)).toUInt16 =
      storeAfter before (d :: walked) := by
    rw [storeAfter, hbefore, hpins, ← ht.pins]
  have hsteps : ∀ d' ∈ d :: walked, d' = 1 ∨ d' = -1 := by
    intro d' hd'
    rcases List.mem_cons.mp hd' with rfl | hd'
    · exact (move_cases _ _).resolve_left hmove
    · exact ht.steps d' hd'
  rw [hpush] at hev hstore
  have hlast := readEncoder_code cfg re levels
  constructor
  · split_ifs with hrest
    · -- The pins are at rest, and the next excursion begins.
      have hpinsrest : re.pins levels = rest := by
        rw [← hpins, pinsAt_eq_rest]
        simpa [add_comm] using hrest
      rw [hpinsrest] at hlast ⊢
      exact .of_rest hlast
    · refine ⟨hlast, ?_, hsteps, ?_, before, hstore⟩
      · rw [List.sum_cons, add_comm, hpins]
      · intro older hsuffix hne
        rcases List.suffix_cons_iff.mp hsuffix with rfl | hsuffix
        · exact hrest
        · exact ht.away older hsuffix hne
  · rw [hev]
    exact storeEvents_eq hsteps ht.away (List.cons_ne_nil _ _)

/-- An excursion that has not come back is no turn. -/
theorem turnEvents_of_not_dvd {excursion : List ℤ} (h : ¬ (4 : ℤ) ∣ excursion.sum) :
    turnEvents excursion = [] := by
  have hforward : excursion ≠ [1, 1, 1, 1] := by
    rintro rfl
    exact h (by decide)
  have hbackward : excursion ≠ [-1, -1, -1, -1] := by
    rintro rfl
    exact h (by decide)
  rw [turnEvents, if_neg hforward, if_neg hbackward]

/-- While no step is missed, the polls raise the events of the excursions that the pins complete. -/
theorem Tracks.readPolls (ht : Tracks re p walked) (polls : List Levels)
    (hpolls : NoneMissed p (polls.map re.pins)) :
    changedOf (readPolls cfg re polls).2 =
      (excursionsFrom 4 walked (moves p (polls.map re.pins))).flatMap turnEvents := by
  -- The pins and the steps since they left rest are carried from poll to poll.
  induction polls generalizing re p walked with
  | nil => rfl
  | cons levels polls ih =>
    rw [List.map_cons, NoneMissed, List.isChain_cons_cons] at hpolls
    have hsame := readEncoder_pins cfg re levels
    rw [← hsame] at hpolls
    simp only [Encoder.readPolls, changedOf_append, List.map_cons, moves]
    by_cases hmove : move p (re.pins levels) = 0
    · obtain ⟨ht', hev⟩ := ht.dwell cfg (hsame ▸ hpolls.1) hmove
      rw [if_pos hmove, hev, List.nil_append, ih ht' (hsame ▸ hpolls.2), hsame]
    · obtain ⟨ht', hev⟩ := ht.step cfg (hsame ▸ hpolls.1) hmove
      rw [if_neg hmove, hev, ih ht' (hsame ▸ hpolls.2), hsame]
      by_cases hrest : (4 : ℤ) ∣ (move p (re.pins levels) :: walked).sum
      · rw [if_pos hrest, excursionsFrom_of_dvd hrest, List.flatMap_cons]
        rfl
      · rw [if_neg hrest, excursionsFrom_of_not_dvd hrest, turnEvents_of_not_dvd, List.nil_append]
        rwa [List.sum_reverse]

/-- From rest, while no step is missed, the polls raise one event for each excursion that is a turn,
whatever is in the store. -/
theorem changedOf_readPolls (cfg : Config) (hrest : re.code &&& 3 = levelsOf rest)
    (polls : List Levels) (hpolls : NoneMissed rest (polls.map re.pins)) :
    changedOf (readPolls cfg re polls).2 =
      (excursions 4 (moves rest (polls.map re.pins))).flatMap turnEvents :=
  (Tracks.of_rest hrest).readPolls polls hpolls

end PartLib.Encoder
