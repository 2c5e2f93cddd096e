import PartLib.Encoder.Detents

/-!
# Contact bounce

When the contacts bounce, the pins go back and forth, and the winding of their steps around the cycle
is how far the knob has really been turned. `read_encoder` counts an excursion from rest only when it
is four steps in the same order. A bounce that falls back to rest winds nothing and is not counted,
but an excursion that goes around with a bounce on its way is not counted either, and the position
drifts by what such excursions wind (`drift_iff`).
-/

namespace PartLib.Encoder

/-- The excursion is a turn of four steps in the same order. -/
def IsTurn (excursion : List ℤ) : Prop := excursion = [1, 1, 1, 1] ∨ excursion = [-1, -1, -1, -1]

instance : DecidablePred IsTurn := fun e => inferInstanceAs (Decidable (e = _ ∨ e = _))

/-- What the excursions wind that are no turns. -/
def uncounted (excursions : List (List ℤ)) : ℤ :=
  ((excursions.filter fun e => ¬ IsTurn e).map (winding 4)).sum

variable {es : List (List ℤ)} {cfg : Config} {re : RotaryEncoder} {samples : List Pins} {k : ℤ}

/-- An excursion that is no turn raises nothing. -/
theorem turnEvents_of_not_isTurn {e : List ℤ} (h : ¬ IsTurn e) : turnEvents e = [] := by
  rw [IsTurn, not_or] at h
  rw [turnEvents, if_neg h.1, if_neg h.2]

/-- The events count the turns forward and those backward. -/
theorem diffs_turnEvents (es : List (List ℤ)) :
    diffs (es.flatMap turnEvents) =
      (es.count [1, 1, 1, 1] : ℤ) - (es.count [-1, -1, -1, -1] : ℤ) := by
  induction es with
  | nil => rfl
  | cons e es ih =>
    rw [List.flatMap_cons, diffs_append, ih, List.count_cons, List.count_cons]
    by_cases hforward : e = [1, 1, 1, 1]
    · subst hforward
      have hone : diffs (turnEvents [1, 1, 1, 1]) = 1 := by decide
      simp [hone]
      omega
    · by_cases hbackward : e = [-1, -1, -1, -1]
      · subst hbackward
        have hone : diffs (turnEvents [-1, -1, -1, -1]) = -1 := by decide
        simp [hone]
        omega
      · have hnone := turnEvents_of_not_isTurn (not_or.mpr ⟨hforward, hbackward⟩)
        simp [hnone, hforward, hbackward, diffs]

/-- What the excursions wind is what the events count, and what the excursions wind that are no
turns. -/
theorem sum_winding_eq (es : List (List ℤ)) :
    (es.map (winding 4)).sum = diffs (es.flatMap turnEvents) + uncounted es := by
  induction es with
  | nil => rfl
  | cons e es ih =>
    rw [List.map_cons, List.sum_cons, ih, List.flatMap_cons, diffs_append]
    by_cases hturn : IsTurn e
    · -- A turn winds once around, as its event says.
      have hcounted : diffs (turnEvents e) = winding 4 e := by
        rcases hturn with rfl | rfl <;> decide
      have hrest : uncounted (e :: es) = uncounted es := by
        simp [uncounted, hturn]
      rw [hcounted, hrest]
      omega
    · have hrest : uncounted (e :: es) = winding 4 e + uncounted es := by
        simp [uncounted, hturn]
      rw [turnEvents_of_not_isTurn hturn, hrest]
      change _ = 0 + _ + (_ + _)
      omega

/-- While no step is missed, the steps lead from the first sample to the last. -/
theorem pinsAt_add_moves (h : NoneMissed (pinsAt k) samples) :
    pinsAt (k + (moves (pinsAt k) samples).sum) = samples.getLastD (pinsAt k) := by
  induction samples generalizing k with
  | nil => rw [moves, List.sum_nil, add_zero, List.getLastD_nil]
  | cons q samples ih =>
    -- The first step leads to the next sample, from which the others go on.
    obtain ⟨hone, hlater⟩ := List.isChain_cons_cons.mp h
    have hq := pinsAt_add_move hone
    have hnext := ih (k := k + move (pinsAt k) q) (by rwa [hq])
    rw [hq] at hnext
    rw [List.getLastD_cons, ← hnext]
    by_cases hmove : move (pinsAt k) q = 0
    · rw [moves, if_pos hmove, hmove, add_zero]
    · rw [moves, if_neg hmove, List.sum_cons, add_assoc]

/-- For samples from rest to rest that miss no step, after whatever was sampled before, the events of
the position sum up to the number of excursions that are four steps forward less the number of those
that are four steps backward. The net number of turns that the pins have made is this sum and what the
other excursions wind; so both are equal exactly when that cancels out. And `ctl_d` changes by the sum
when the task has processed these changes and nothing else sets it. -/
theorem drift_iff (cfg : Config) (re : RotaryEncoder) (before polls : List Levels)
    (hrest : (before.map re.pins).getLast? = some rest)
    (hmissed : NoneMissed rest (polls.map re.pins))
    (hend : (polls.map re.pins).getLastD rest = rest) :
    let steps := moves rest (polls.map re.pins)
    let events := changedOf (readPolls cfg (readPolls cfg re before).1 polls).2
    diffs events = ((excursions 4 steps).count [1, 1, 1, 1] : ℤ) -
        ((excursions 4 steps).count [-1, -1, -1, -1] : ℤ) ∧
    winding 4 steps = diffs events + uncounted (excursions 4 steps) ∧
    (diffs events = winding 4 steps ↔ uncounted (excursions 4 steps) = 0) ∧
    ∀ s₀ inputs s os, Ready s₀ → (∀ i ∈ inputs, ¬ i.SetsPosition) →
      (encoderFrom cfg s₀).run s₀ inputs = some (s, os) →
      (movedOf os).map Raised.event = events → s.ctlD = s₀.ctlD + Int32.ofInt (diffs events) := by
  intro steps events
  have hpins := readPolls_pins cfg re before
  have hevents : events = (excursions 4 steps).flatMap turnEvents := by
    have hraised := changedOf_readPolls cfg (readPolls_code cfg re hrest) polls (by rwa [hpins])
    rwa [hpins] at hraised
  -- The samples end at rest, so the steps have gone around a whole number of times.
  have hdvd : (4 : ℤ) ∣ steps.sum := by
    have hlast : pinsAt (0 + steps.sum) = (polls.map re.pins).getLastD rest :=
      pinsAt_add_moves (k := 0) hmissed
    rw [zero_add] at hlast
    exact pinsAt_eq_rest.mp (hlast.trans hend)
  have hwinding : winding 4 steps = diffs events + uncounted (excursions 4 steps) := by
    rw [← sum_winding_excursions (by decide) hdvd, hevents]
    exact sum_winding_eq _
  refine ⟨?_, hwinding, by omega, fun s₀ inputs s os hready hset hrun hmoved => ?_⟩
  · rw [hevents]
    exact diffs_turnEvents _
  · have htype : ∀ e ∈ movedOf os, e.event.type = .changed := by
      intro e he
      have hmem : e.event ∈ events := hmoved ▸ List.mem_map_of_mem he
      simpa using (List.mem_filter.mp hmem).2
    rw [hready.ctlD hset hrun, changes_eq_diffs htype, hmoved]

/-- The first contact bounces once, and then the knob is turned forward. -/
def bouncedTurn : List Levels :=
  [pinLevels false true, pinLevels true true, pinLevels false true, pinLevels false false,
    pinLevels true false, pinLevels true true]

/-- The samples are polled, and the task processes the event. -/
def bouncedTurnRun : List EncInput :=
  [.poll (pinLevels false true), .give, .poll (pinLevels true true), .give] ++ turnForward ++
    taskSteps 9

/-- A bounce that falls back to rest does not count, and the position is moved by one. -/
theorem drift_iff_bounced_turn :
    let events := changedOf (readPolls {} (readPolls {} encoderWithoutButton
      [pinLevels true true]).1 bouncedTurn).2
    diffs events = 1 ∧ winding 4 (moves rest (bouncedTurn.map encoderWithoutButton.pins)) = 1 ∧
    ∃ s os, (encoder {} encoderWithoutButton 7).run (started encoderWithoutButton 7) bouncedTurnRun =
      some (s, os) ∧ s.ctlD = 8 := by
  intro events
  obtain ⟨hdiffs, hwinding, -, hctl⟩ := drift_iff {} encoderWithoutButton [pinLevels true true]
    bouncedTurn rfl (by decide) rfl
  have hone : diffs events = 1 := hdiffs.trans (by decide)
  have huncounted : uncounted (excursions 4 (moves rest
      (bouncedTurn.map encoderWithoutButton.pins))) = 0 := by
    decide
  have hrun : ((encoder {} encoderWithoutButton 7).run (started encoderWithoutButton 7)
      bouncedTurnRun).map (fun r => (movedOf r.2).map Raised.event) = some events := by
    decide +kernel
  obtain ⟨⟨s, os⟩, hrun, hmoved⟩ := Option.map_eq_some_iff.mp hrun
  have hset : ∀ i ∈ bouncedTurnRun, ¬ i.SetsPosition := by
    simp [bouncedTurnRun, turnForward, taskSteps, EncInput.SetsPosition]
  have hposition := hctl (started encoderWithoutButton 7) bouncedTurnRun s os (ready_started _ _) hset
    hrun hmoved
  refine ⟨hone, ?_, s, os, hrun, ?_⟩
  · rw [hwinding, huncounted, add_zero]
    exact hone
  · rw [hposition]
    change 7 + Int32.ofInt (diffs events) = 8
    rw [hone]
    rfl

/-- The second contact bounces in the middle of a turn forward. -/
def bounceInTurn : List Levels :=
  [pinLevels false true, pinLevels false false, pinLevels true false, pinLevels false false,
    pinLevels true false, pinLevels true true]

/-- The turn is not counted. -/
theorem drift_in_turn :
    ¬ ∀ (cfg : Config) (re : RotaryEncoder) (before polls : List Levels),
      (before.map re.pins).getLast? = some rest → NoneMissed rest (polls.map re.pins) →
      (polls.map re.pins).getLastD rest = rest →
      diffs (changedOf (readPolls cfg (readPolls cfg re before).1 polls).2) =
        winding 4 (moves rest (polls.map re.pins)) := by
  intro h
  have hdrift := h {} encoderWithoutButton [pinLevels true true] bounceInTurn rfl (by decide) rfl
  revert hdrift
  decide

end PartLib.Encoder
