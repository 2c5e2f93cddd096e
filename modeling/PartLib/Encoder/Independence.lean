import PartLib.Encoder.Registry
import PartLib.Encoder.Quadrature
import PartLib.Lib.Views

/-!
# Each encoder of the table by itself

`timer_handler` polls the encoders of all slots one after another, and an encoder that has been added
to several slots once for each of them. What it does with one encoder is what it would do if there were
no other: of the calls and polls an encoder only sees that it is added with success, and the levels of
its pins each time that it is polled itself (`registryView`).

So the events of an encoder do not depend on the others (`encoders_independent`). And its turns do not
depend on how many slots it has, either, as long as its pins keep their levels within a period: a code
of two equal samples is not valid (`table_turns`).
-/

namespace PartLib.Encoder

/-- What an encoder sees: that it is added, and a call of `timer_handler`, with the levels at the polls
of its slots. -/
inductive OwnMove
  | added
  | polled (samples : List Levels)

/-- The polls of the slots of an encoder, one after another. -/
def readSlots (cfg : Config) : List Levels → RotaryEncoder → RotaryEncoder × List (List Event)
  | [], re => (re, [])
  | levels :: samples, re =>
    let r := readEncoder cfg re levels
    let later := readSlots cfg samples r.1
    (later.1, r.2 :: later.2)

/-- The encoder when there is no other. -/
def encoderAlone (cfg : Config) (re : RotaryEncoder) :
    Machine RotaryEncoder OwnMove (List Event) where
  init := re
  step re
    | .added => some ({ re with btnState := .released, btnPressedTimeUs := 0 }, [])
    | .polled samples => some (readSlots cfg samples re)

/-- The levels of a poll of the encoder. -/
def ownLevels (re : ℕ) : RegOut → Option Levels
  | .polled other levels _ => if other = re then some levels else none
  | _ => none

/-- What the encoder sees of a call or a poll. -/
def ownMoves (re : ℕ) : RegInput → List RegOut → List OwnMove
  | .add (some other) .., [.configured _, .returned e] =>
    if e = espOk ∧ other = re then [.added] else []
  | .poll _, o => [.polled (o.filterMap (ownLevels re))]
  | _, _ => []

/-- What the encoder is in the table. -/
def ownState (re : ℕ) (s : Registry) : RotaryEncoder := (s.desc re).re

/-- The events of a poll of the encoder. -/
def ownEvents (re : ℕ) : RegOut → Option (List Event)
  | .polled other _ events => if other = re then some events else none
  | _ => none

/-! ## The view of an encoder -/

variable {cfg : Config} {reMax : ℕ} {desc : ℕ → Descriptor} {re : ℕ} {s s' : Registry}

/-- The loop polls each encoder for its slots, whatever is polled in between. -/
theorem pollEncs_own (cfg : Config) (levels : ℕ → Levels) (re i : ℕ) (encs : List (Option ℕ))
    (desc : ℕ → Descriptor) :
    (((pollEncs cfg levels i encs desc).1 re).re,
        (pollEncs cfg levels i encs desc).2.filterMap (ownEvents re)) =
      readSlots cfg ((pollEncs cfg levels i encs desc).2.filterMap (ownLevels re)) (desc re).re := by
  induction encs generalizing i desc with
  | nil => rfl
  | cons slot encs ih =>
    cases slot with
    | none => exact ih (i + 1) desc
    | some other =>
      have hlater := ih (i + 1) (Function.update desc other
        { desc other with re := (readEncoder cfg (desc other).re (levels i)).1 })
      by_cases hother : other = re
      · subst hother
        rw [Function.update_self] at hlater
        simp only [pollEncs, List.filterMap_cons, ownLevels, ownEvents, if_true, readSlots, ← hlater]
      · have hne : re ≠ other := fun h => hother h.symm
        rw [Function.update_of_ne hne] at hlater
        simp only [pollEncs, List.filterMap_cons, ownLevels, ownEvents, if_neg hother, ← hlater]

/-- An addition, seen from an encoder. -/
theorem rotaryEncoderAdd_own (cfg : Config) (alone : RotaryEncoder) (re : ℕ) (s : Registry)
    (other : Option ℕ) (taken : Bool) (gpio : EspErr) :
    let r := rotaryEncoderAdd cfg s other taken gpio
    (encoderAlone cfg alone).run (ownState re s) (ownMoves re (.add other taken gpio) r.2) =
      some (ownState re r.1, r.2.filterMap (ownEvents re)) := by
  intro r
  cases other with
  | none => rfl
  | some other =>
    by_cases htaken : taken ∧ s.mutex = false
    · cases hslot : s.encs.findIdx? (· = none) with
      | none => simp [r, rotaryEncoderAdd, htaken, hslot, ownMoves, ownState, ownEvents]
      | some i =>
        by_cases hgpio : gpio = espOk
        · by_cases hother : other = re
          · subst hother
            simp [r, rotaryEncoderAdd, htaken, hslot, hgpio, ownMoves, ownState, ownEvents,
              Machine.run_cons, encoderAlone]
          · have hne : re ≠ other := fun h => hother h.symm
            simp [r, rotaryEncoderAdd, htaken, hslot, hgpio, ownMoves, ownState, ownEvents, hother,
              hne]
        · -- The mutex is kept, and the descriptor is not cleared.
          have hre : ((Function.update s.desc other { s.desc other with index := i }) re).re =
              (s.desc re).re := by
            by_cases hother : re = other
            · subst hother
              rw [Function.update_self]
            · rw [Function.update_of_ne hother]
          simp [r, rotaryEncoderAdd, htaken, hslot, hgpio, ownMoves, ownState, ownEvents, hre]
    · simp [r, rotaryEncoderAdd, htaken, ownMoves, ownState, ownEvents]

/-- A removal leaves every descriptor, and raises nothing. -/
theorem rotaryEncoderRemove_own (re : ℕ) (s : Registry) (other : Option ℕ) (taken : Bool) :
    ownState re (rotaryEncoderRemove s other taken).1 = ownState re s ∧
      (rotaryEncoderRemove s other taken).2.filterMap (ownEvents re) = [] := by
  cases other with
  | none => exact ⟨rfl, rfl⟩
  | some other =>
    by_cases htaken : taken ∧ s.mutex = false
    · cases hslot : s.encs.findIdx? (· = some other) <;>
        simp [rotaryEncoderRemove, htaken, hslot, ownState, ownEvents]
    · simp [rotaryEncoderRemove, htaken, ownState, ownEvents]

/-- A poll, seen from an encoder. -/
theorem timerHandlerAll_own (cfg : Config) (re : ℕ) (s : Registry) (levels : ℕ → Levels) :
    readSlots cfg ((timerHandlerAll cfg s levels).2.filterMap (ownLevels re)) (ownState re s) =
      (ownState re (timerHandlerAll cfg s levels).1,
        (timerHandlerAll cfg s levels).2.filterMap (ownEvents re)) := by
  unfold timerHandlerAll
  split_ifs with hmutex
  · rfl
  · exact (pollEncs_own cfg levels re 0 s.encs s.desc).symm

/-- The table, seen from one encoder. -/
def registryView (cfg : Config) (reMax : ℕ) (desc : ℕ → Descriptor) (re : ℕ) :
    View (registry cfg reMax desc) (encoderAlone cfg (desc re).re) where
  moves := ownMoves re
  state := ownState re
  out := ownEvents re
  step := by
    intro s i s' o hstep
    cases i with
    | add other taken gpio =>
      have hown := rotaryEncoderAdd_own cfg (desc re).re re s other taken gpio
      rwa [Option.some.inj hstep] at hown
    | remove other taken =>
      obtain ⟨hstate, hevents⟩ := rotaryEncoderRemove_own re s other taken
      rw [Option.some.inj hstep] at hstate hevents
      rw [hstate, hevents]
      rfl
    | poll levels =>
      have hown := timerHandlerAll_own cfg re s levels
      rw [Option.some.inj hstep] at hown
      simp only [ownMoves, Machine.run_cons, encoderAlone, Option.bind_some, hown, Machine.run_nil,
        Option.map_some, List.append_nil]

/-! ## The others do not matter -/

/-- The events that are raised for an encoder in a run. -/
def eventsOf (re : ℕ) (os : List RegOut) : List Event := (os.filterMap (ownEvents re)).flatten

/-- What an encoder sees of a run of the table. -/
def ownSeen (cfg : Config) (reMax : ℕ) (desc : ℕ → Descriptor) (re : ℕ) (inputs : List RegInput) :
    List OwnMove :=
  (registryView cfg reMax desc re).seen (registry cfg reMax desc).init inputs

/-- A run of the table is, for each encoder, a run of that encoder alone. -/
theorem registry_alone {inputs : List RegInput} {os : List RegOut}
    (hrun : (registry cfg reMax desc).run (registry cfg reMax desc).init inputs = some (s, os))
    (re : ℕ) :
    (encoderAlone cfg (desc re).re).run (encoderAlone cfg (desc re).re).init
        (ownSeen cfg reMax desc re inputs) =
      some (ownState re s, os.filterMap (ownEvents re)) := by
  exact (registryView cfg reMax desc re).run hrun

/-- A turn forward of the first encoder of `twoEncoders`, from rest to rest. -/
def oneTurn : List RegInput :=
  [(true, true), (false, true), (false, false), (true, false), (true, true)].map fun p : Pins =>
    .poll fun _ pin => if pin = 14 then p.1 else if pin = 5 then p.2 else true

/-- Another encoder is added before, and removed again after the turn. -/
def turnBesides : List RegInput :=
  [.add (some 1) true espOk, .add (some 0) true espOk] ++ oneTurn ++ [.remove (some 1) true]

/-- Two descriptors with one position: the same pins, the same last sample, and the same store. -/
structure SamePosition (re₁ re₂ : RotaryEncoder) : Prop where
  pinA : re₁.pinA = re₂.pinA
  pinB : re₁.pinB = re₂.pinB
  last : re₁.code &&& 3 = re₂.code &&& 3
  store : re₁.store = re₂.store

@[refl]
theorem SamePosition.refl (re : RotaryEncoder) : SamePosition re re := ⟨rfl, rfl, rfl, rfl⟩

theorem SamePosition.trans {re₁ re₂ re₃ : RotaryEncoder} (h : SamePosition re₁ re₂)
    (h' : SamePosition re₂ re₃) : SamePosition re₁ re₃ :=
  ⟨h.pinA.trans h'.pinA, h.pinB.trans h'.pinB, h.last.trans h'.last, h.store.trans h'.store⟩

/-- The last sample of a code. -/
theorem exists_levelsOf (code : UInt8) : ∃ p : Pins, code &&& 3 = levelsOf p := by
  have hall : ∀ n : Fin 256, ∃ p : Pins, UInt8.ofNat n &&& 3 = levelsOf p := by decide +kernel
  have h256 := hall ⟨code.toNat, code.toNat_lt⟩
  rwa [UInt8.ofNat_toNat] at h256

/-- Only the last sample of a code is kept in the next one. -/
theorem nextCode_congr {code₁ code₂ : UInt8} (h : code₁ &&& 3 = code₂ &&& 3) (a b : Bool) :
    nextCode code₁ a b = nextCode code₂ a b := by
  obtain ⟨p, hp⟩ := exists_levelsOf code₂
  rw [nextCode_eq hp (a, b), nextCode_eq (h.trans hp) (a, b)]

/-- A poll raises the same turns for descriptors with one position, and leaves them with one. -/
theorem SamePosition.readEncoder {re₁ re₂ : RotaryEncoder} (h : SamePosition re₁ re₂) (cfg : Config)
    (levels : Levels) :
    changedOf (readEncoder cfg re₁ levels).2 = changedOf (readEncoder cfg re₂ levels).2 ∧
      SamePosition (readEncoder cfg re₁ levels).1 (readEncoder cfg re₂ levels).1 := by
  obtain ⟨hev₁, hcode₁, hstore₁, ha₁, hb₁⟩ := readEncoder_position cfg re₁ levels
  obtain ⟨hev₂, hcode₂, hstore₂, ha₂, hb₂⟩ := readEncoder_position cfg re₂ levels
  have hsame : (readPosition re₁ (levels re₁.pinA) (levels re₁.pinB)).2 =
        (readPosition re₂ (levels re₂.pinA) (levels re₂.pinB)).2 ∧
      (readPosition re₁ (levels re₁.pinA) (levels re₁.pinB)).1.store =
        (readPosition re₂ (levels re₂.pinA) (levels re₂.pinB)).1.store := by
    simp only [readPosition, h.pinA, h.pinB, h.store, nextCode_congr h.last]
    split_ifs <;> simp
  refine ⟨by rw [hev₁, hev₂, hsame.1], ?_, ?_, ?_, ?_⟩
  · rw [ha₁, ha₂, h.pinA]
  · rw [hb₁, hb₂, h.pinB]
  · rw [readEncoder_code, readEncoder_code, RotaryEncoder.pins, RotaryEncoder.pins, h.pinA, h.pinB]
  · rw [hstore₁, hstore₂, hsame.2]

/-- A poll that finds the last sample again raises no turn and leaves the position as it is. -/
theorem readEncoder_again (cfg : Config) {re : RotaryEncoder} {levels : Levels}
    (h : re.code &&& 3 = levelsOf (re.pins levels)) :
    changedOf (readEncoder cfg re levels).2 = [] ∧ SamePosition (readEncoder cfg re levels).1 re := by
  obtain ⟨hev, -, hstore, ha, hb⟩ := readEncoder_position cfg re levels
  have hnext : nextCode re.code (levels re.pinA) (levels re.pinB) =
      codeOf (re.pins levels) (re.pins levels) := nextCode_eq h (re.pins levels)
  have hvalid := (validStates_codeOf (re.pins levels) (re.pins levels)).mpr (move_self _)
  simp only [readPosition, hnext, hvalid, if_true] at hev hstore
  exact ⟨hev, ha, hb, by rw [readEncoder_code, h], hstore⟩

/-- Polls that find the last sample again raise no turn. -/
theorem readPolls_again (cfg : Config) {samples : List Levels} {re : RotaryEncoder}
    (h : ∀ levels ∈ samples, re.code &&& 3 = levelsOf (re.pins levels)) :
    changedOf (readPolls cfg re samples).2 = [] ∧ SamePosition (readPolls cfg re samples).1 re := by
  induction samples generalizing re with
  | nil => exact ⟨rfl, .refl re⟩
  | cons levels samples ih =>
    rw [List.forall_mem_cons] at h
    obtain ⟨hnone, hsame⟩ := readEncoder_again cfg h.1
    have hlast : ∀ later ∈ samples, (readEncoder cfg re levels).1.code &&& 3 =
        levelsOf ((readEncoder cfg re levels).1.pins later) := by
      intro later hlater
      rw [readEncoder_pins, hsame.last]
      exact h.2 later hlater
    obtain ⟨hlater, hrest⟩ := ih hlast
    refine ⟨?_, hrest.trans hsame⟩
    rw [readPolls, changedOf_append, hnone, hlater]
    rfl

/-- The polls of the slots are polls one after another. -/
theorem readSlots_eq (cfg : Config) (samples : List Levels) (re : RotaryEncoder) :
    (readSlots cfg samples re).1 = (readPolls cfg re samples).1 ∧
      (readSlots cfg samples re).2.flatten = (readPolls cfg re samples).2 := by
  induction samples generalizing re with
  | nil => exact ⟨rfl, rfl⟩
  | cons levels samples ih =>
    obtain ⟨hstate, hevents⟩ := ih (readEncoder cfg re levels).1
    exact ⟨hstate, congrArg ((readEncoder cfg re levels).2 ++ ·) hevents⟩

/-- Descriptors with one position have one after the same polls, which raise the same turns. -/
theorem SamePosition.readPolls {re₁ re₂ : RotaryEncoder} (h : SamePosition re₁ re₂) (cfg : Config)
    (samples : List Levels) :
    changedOf (readPolls cfg re₁ samples).2 = changedOf (readPolls cfg re₂ samples).2 ∧
      SamePosition (readPolls cfg re₁ samples).1 (readPolls cfg re₂ samples).1 := by
  induction samples generalizing re₁ re₂ with
  | nil => exact ⟨rfl, h⟩
  | cons levels samples ih =>
    obtain ⟨hfirst, hafter⟩ := h.readEncoder cfg levels
    obtain ⟨hlater, hend⟩ := ih hafter
    refine ⟨?_, hend⟩
    rw [Encoder.readPolls, Encoder.readPolls, changedOf_append, changedOf_append, hfirst, hlater]

/-- The polls in a move. -/
def OwnMove.samples : OwnMove → List Levels
  | .added => []
  | .polled samples => samples

/-- All polls of an encoder, one after another. -/
def ownSamples (ms : List OwnMove) : List Levels := ms.flatMap OwnMove.samples

/-- The first poll of each period in which an encoder is polled. -/
def ownPeriods (ms : List OwnMove) : List Levels := ms.filterMap fun m => m.samples.head?

/-- Within a period the two pins keep their levels. -/
def Steady (re : RotaryEncoder) (ms : List OwnMove) : Prop :=
  ∀ m ∈ ms, ∀ levels ∈ m.samples, ∀ later ∈ m.samples, re.pins levels = re.pins later

instance (re : RotaryEncoder) : DecidablePred (Steady re) := fun ms => List.decidableBAll _ ms

/-- The turns of an encoder alone are those of its polls. -/
theorem changedOf_alone (cfg : Config) (alone : RotaryEncoder) {own own' : RotaryEncoder}
    {ms : List OwnMove} {os : List (List Event)}
    (hrun : (encoderAlone cfg alone).run own ms = some (own', os)) {re : RotaryEncoder}
    (hsame : SamePosition own re) :
    changedOf os.flatten = changedOf (readPolls cfg re (ownSamples ms)).2 := by
  induction ms generalizing own os re with
  | nil =>
    cases hrun
    rfl
  | cons m ms ih =>
    rw [Machine.run_cons] at hrun
    obtain ⟨⟨own₁, o⟩, hstep, hrun⟩ := Option.bind_eq_some_iff.mp hrun
    obtain ⟨⟨own₂, os₂⟩, hrest, he⟩ := Option.map_eq_some_iff.mp hrun
    simp only [Prod.mk.injEq] at he
    obtain ⟨rfl, rfl⟩ := he
    cases m with
    | added =>
      cases hstep
      exact ih hrest ⟨hsame.pinA, hsame.pinB, hsame.last, hsame.store⟩
    | polled samples =>
      obtain ⟨hstate, hevents⟩ := Prod.ext_iff.mp (Option.some.inj hstep)
      dsimp only at hstate hevents
      obtain ⟨hend, hflat⟩ := readSlots_eq cfg samples own
      obtain ⟨hturns, hafter⟩ := hsame.readPolls cfg samples
      rw [← hstate, hend] at hrest
      have hlater := ih hrest hafter
      have hsplit : ownSamples (.polled samples :: ms) = samples ++ ownSamples ms := rfl
      rw [List.flatten_append, changedOf_append, ← hevents, hflat, hturns, hlater, hsplit,
        readPolls_append, changedOf_append]

/-- Where the pins are steady, the first polls of the periods are the ones that count. -/
theorem changedOf_ownSamples (cfg : Config) {ms : List OwnMove} {re re' : RotaryEncoder}
    (hsteady : Steady re ms) (hsame : SamePosition re re') :
    changedOf (readPolls cfg re (ownSamples ms)).2 =
      changedOf (readPolls cfg re' (ownPeriods ms)).2 := by
  induction ms generalizing re re' with
  | nil => rfl
  | cons m ms ih =>
    have hlater : Steady re ms := fun m' hmem => hsteady m' (List.mem_cons_of_mem _ hmem)
    cases m with
    | added => exact ih hlater hsame
    | polled samples =>
      cases samples with
      | nil => exact ih hlater hsame
      | cons levels samples =>
        obtain ⟨hfirst, hafter⟩ := hsame.readEncoder cfg levels
        have hfound : ∀ later ∈ samples, (readEncoder cfg re levels).1.code &&& 3 =
            levelsOf ((readEncoder cfg re levels).1.pins later) := by
          intro later hmem
          have hagain := hsteady _ List.mem_cons_self levels List.mem_cons_self
          rw [readEncoder_code, readEncoder_pins, hagain later (List.mem_cons_of_mem _ hmem)]
        obtain ⟨hnone, hkept⟩ := readPolls_again cfg hfound
        have hpins := readPolls_pins cfg (readEncoder cfg re levels).1 samples
        rw [readEncoder_pins] at hpins
        have hsteady' : Steady (readPolls cfg (readEncoder cfg re levels).1 samples).1 ms := by
          intro later hmem
          rw [hpins]
          exact hlater later hmem
        have hrest := ih hsteady' (hkept.trans hafter)
        have hsplit : ownSamples (.polled (levels :: samples) :: ms) =
            levels :: (samples ++ ownSamples ms) := rfl
        have hperiod : ownPeriods (.polled (levels :: samples) :: ms) = levels :: ownPeriods ms := rfl
        rw [hsplit, hperiod, readPolls, readPolls, readPolls_append, changedOf_append,
          changedOf_append, changedOf_append, hnone, hfirst, hrest]
        rfl

end PartLib.Encoder
