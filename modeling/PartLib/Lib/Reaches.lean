import PartLib.Lib.Machine

/-!
# What a machine can still come to

A machine reaches a state from another when some inputs take it there. What a system can still do,
whatever has happened, is stated so: from every state that a run ends in, the machine reaches one in
which it is done. Where a step can break the system for good, `Breaks.reaches_iff` says that this is the
only way to lose it.
-/

namespace PartLib

namespace Machine

variable {σ ι ω : Type*} {M : Machine σ ι ω}

/-- Some inputs take the machine from one state to another. -/
def Reaches (M : Machine σ ι ω) (s s' : σ) : Prop := ∃ is os, M.run s is = some (s', os)

namespace Reaches

variable {s s₁ s₂ : σ}

theorem refl (s : σ) : M.Reaches s s := ⟨[], [], rfl⟩

/-- First some inputs, and then others. -/
theorem trans (h : M.Reaches s s₁) (h' : M.Reaches s₁ s₂) : M.Reaches s s₂ := by
  obtain ⟨is, os, hrun⟩ := h
  obtain ⟨is', os', hrun'⟩ := h'
  exact ⟨is ++ is', os ++ os', M.run_append_eq_some.mpr ⟨s₁, os, os', hrun, hrun', rfl⟩⟩

/-- One input, and then others. -/
theorem head {i : ι} {o : List ω} (h : M.step s i = some (s₁, o)) (h' : M.Reaches s₁ s₂) :
    M.Reaches s s₂ := by
  obtain ⟨is, os, hrun⟩ := h'
  exact ⟨i :: is, o ++ os, by rw [run_cons, h, Option.bind_some, hrun]; rfl⟩

/-- What every step keeps holds of the states that are reached. -/
theorem keeps {P : σ → Prop} (hstep : ∀ s i s' o, P s → M.step s i = some (s', o) → P s')
    (h : M.Reaches s s₁) (hs : P s) : P s₁ := by
  obtain ⟨is, os, hrun⟩ := h
  induction is generalizing s os with
  | nil =>
    cases hrun
    exact hs
  | cons i is ih =>
    rw [run_cons] at hrun
    obtain ⟨r, hi, hrun⟩ := Option.bind_eq_some_iff.mp hrun
    obtain ⟨q, hq, he⟩ := Option.map_eq_some_iff.mp hrun
    cases he
    exact ih (hstep s i r.1 r.2 hs hi) q.2 hq

end Reaches

/-- A law of every step of a run that ends in a step. -/
theorem allSteps_snoc {P : List ι → σ → ι → σ → List ω → Prop} {h : List ι} {i : ι} {s s' : σ}
    {past o : List ω} (hrun : M.run M.init h = some (s, past)) (hi : M.step s i = some (s', o)) :
    M.AllSteps (h ++ [i]) P ↔ M.AllSteps h P ∧ P h s i s' o := by
  constructor
  · intro hP
    refine ⟨fun h₁ s₁ j s₂ o₁ ho => ?_, hP h s i s' o ⟨List.prefix_refl _, ⟨past, hrun⟩, hi⟩⟩
    exact hP h₁ s₁ j s₂ o₁ ⟨ho.isPrefix.trans (List.prefix_append h [i]), ho.before, ho.step⟩
  · rintro ⟨hP, hlast⟩ h₁ s₁ j s₂ o₁ ⟨hpre, ⟨past₁, hrun₁⟩, hj⟩
    rcases List.prefix_concat_iff.mp hpre with heq | hpre
    · obtain ⟨rfl, rfl⟩ := List.append_singleton_inj.mp heq
      rw [hrun] at hrun₁
      cases hrun₁
      rw [hi] at hj
      cases hj
      exact hlast
    · exact hP h₁ s₁ j s₂ o₁ ⟨hpre, ⟨past₁, hrun₁⟩, hj⟩

/-- While `C` holds of the steps, a state is good until a step that `F` tells, which leaves a bad one,
and no step mends that. -/
structure Breaks (M : Machine σ ι ω) (C : List ι → σ → ι → σ → List ω → Prop) (F : σ → ι → Prop)
    (Good Bad : σ → Prop) : Prop where
  init : Good M.init
  good : ∀ h s i s' o, Good s → C h s i s' o → M.step s i = some (s', o) →
    (F s i → Bad s') ∧ (¬ F s i → Good s')
  bad : ∀ s i s' o, Bad s → M.step s i = some (s', o) → Bad s'

namespace Breaks

variable {C : List ι → σ → ι → σ → List ω → Prop} {F : σ → ι → Prop} {Good Bad P : σ → Prop}
  {inputs : List ι} {s : σ} {os : List ω}

/-- After a run in which no step is told by `F` the state is good, and after any other it is bad. -/
theorem run (hM : M.Breaks C F Good Bad) (hC : M.AllSteps inputs C)
    (hrun : M.run M.init inputs = some (s, os)) :
    (M.AllSteps inputs fun _ s i _ _ => ¬ F s i) ∧ Good s ∨
      (¬ M.AllSteps inputs fun _ s i _ _ => ¬ F s i) ∧ Bad s := by
  -- the run up to a state tells which steps there were, so it is carried along
  have hinv : (∃ past, M.run M.init inputs = some (s, past)) ∧
      ((M.AllSteps inputs fun _ s i _ _ => ¬ F s i) ∧ Good s ∨
        (¬ M.AllSteps inputs fun _ s i _ _ => ¬ F s i) ∧ Bad s) := by
    refine hC.inv (I := fun h s => (∃ past, M.run M.init h = some (s, past)) ∧
      ((M.AllSteps h fun _ s i _ _ => ¬ F s i) ∧ Good s ∨
        (¬ M.AllSteps h fun _ s i _ _ => ¬ F s i) ∧ Bad s))
      ⟨⟨[], rfl⟩, .inl ⟨fun _ _ _ _ _ ho => by simpa using ho.isPrefix, hM.init⟩⟩
      (fun h s i s' o hs hc hi => ?_) (List.prefix_refl _) hrun
    obtain ⟨⟨past, hbefore⟩, hs⟩ := hs
    refine ⟨⟨past ++ o, (Machine.run_snoc_eq_some _).mpr ⟨s, past, o, hbefore, hi, rfl⟩⟩, ?_⟩
    rw [allSteps_snoc hbefore hi]
    rcases hs with ⟨hall, hgood⟩ | ⟨hnot, hbad⟩
    · by_cases hf : F s i
      · exact .inr ⟨fun hall' => hall'.2 hf, (hM.good h s i s' o hgood hc hi).1 hf⟩
      · exact .inl ⟨⟨hall, hf⟩, (hM.good h s i s' o hgood hc hi).2 hf⟩
    · exact .inr ⟨fun hall => hnot hall.1, hM.bad s i s' o hbad hi⟩
  exact hinv.2

/-- When what `P` tells can be reached from every good state and holds of no bad one, it can be reached
after a run if and only if no step of it is told by `F`. -/
theorem reaches_iff (hM : M.Breaks C F Good Bad)
    (hgood : ∀ s, Good s → ∃ t, M.Reaches s t ∧ P t) (hbad : ∀ s, Bad s → ¬ P s)
    (hC : M.AllSteps inputs C) (hrun : M.run M.init inputs = some (s, os)) :
    (∃ t, M.Reaches s t ∧ P t) ↔ M.AllSteps inputs fun _ s i _ _ => ¬ F s i := by
  constructor
  · rintro ⟨t, hreach, ht⟩
    rcases hM.run hC hrun with ⟨hall, -⟩ | ⟨-, hs⟩
    · exact hall
    · exact absurd ht (hbad t (hreach.keeps hM.bad hs))
  · intro hall
    rcases hM.run hC hrun with ⟨-, hs⟩ | ⟨hnot, -⟩
    · exact hgood s hs
    · exact absurd hall hnot

end Breaks

end Machine

end PartLib
