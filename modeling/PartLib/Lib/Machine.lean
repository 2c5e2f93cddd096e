import Mathlib.Data.List.Basic
import Mathlib.Data.List.Infix
import Mathlib.Order.Notation

/-!
# Machines, runs, and what holds at every step of a run

A `Machine` takes inputs one at a time. An input is whatever decides a step: an event that arrives,
or the choice of the task that moves together with what its environment answers. A step that is not
possible in a state is `none`, so a list of inputs is a run as far as its steps are possible.

`Occurs` says that an input of a run is taken in a given state after a given history, and `AllSteps`
that something holds of every step that a run takes. A law about whole runs is stated as an
`AllSteps`, over the history as well as the state; `AllSteps.mono_inv` proves it from an invariant
of single steps, and lets the invariant rest on a condition that every step of the run meets.
-/

namespace PartLib

/-- A machine with states `σ`, inputs `ι`, and outputs `ω`. -/
structure Machine (σ ι ω : Type*) where
  /-- The state in which every run starts. -/
  init : σ
  /-- The next state and the outputs, in order, or `none` when the input is not possible. -/
  step : σ → ι → Option (σ × List ω)

namespace Machine

variable {σ ι ω : Type*} (M : Machine σ ι ω)

/-- The state and the outputs after the inputs of a list, from a given state. -/
def run : σ → List ι → Option (σ × List ω)
  | s, [] => some (s, [])
  | s, i :: is =>
    (M.step s i).bind fun r => (run r.1 is).map fun q => (q.1, r.2 ++ q.2)

@[simp]
theorem run_nil (s : σ) : M.run s [] = some (s, []) := rfl

theorem run_cons (s : σ) (i : ι) (is : List ι) :
    M.run s (i :: is) =
      (M.step s i).bind fun r => (M.run r.1 is).map fun q => (q.1, r.2 ++ q.2) := rfl

/-- The inputs of `is ++ js` are those of `is`, then those of `js` from the state reached. -/
theorem run_append (s : σ) (is js : List ι) :
    M.run s (is ++ js) =
      (M.run s is).bind fun r => (M.run r.1 js).map fun q => (q.1, r.2 ++ q.2) := by
  induction is generalizing s with
  | nil => simp
  | cons i is ih =>
    rw [List.cons_append, run_cons, run_cons]
    cases hstep : M.step s i with
    | none => rfl
    | some r =>
      simp only [Option.bind_some, ih]
      cases hrun : M.run r.1 is with
      | none => rfl
      | some q =>
        -- Both sides reach the same state; the outputs are concatenated in another order.
        simp only [Option.map_some, Option.bind_some, Option.map_map]
        congr 1
        funext p
        simp [List.append_assoc]

/-- A run of `is ++ js` is one of `is`, then one of `js`. -/
theorem run_append_eq_some {s s' : σ} {is js : List ι} {os : List ω} :
    M.run s (is ++ js) = some (s', os) ↔
      ∃ s₁ os₁ os₂, M.run s is = some (s₁, os₁) ∧ M.run s₁ js = some (s', os₂) ∧
        os = os₁ ++ os₂ := by
  rw [run_append]
  constructor
  · intro h
    obtain ⟨⟨s₁, os₁⟩, h₁, h⟩ := Option.bind_eq_some_iff.mp h
    obtain ⟨⟨s₂, os₂⟩, h₂, heq⟩ := Option.map_eq_some_iff.mp h
    obtain ⟨rfl, rfl⟩ := Prod.mk.inj heq
    exact ⟨s₁, os₁, os₂, h₁, h₂, rfl⟩
  · rintro ⟨s₁, os₁, os₂, h₁, h₂, rfl⟩
    simp [h₁, h₂]

/-- A run that ends in a step is a run up to it, then the step. -/
theorem run_snoc_eq_some {s : σ} {is : List ι} {i : ι} {s' : σ} {os : List ω} :
    M.run s (is ++ [i]) = some (s', os) ↔
      ∃ s₁ os₁ o, M.run s is = some (s₁, os₁) ∧ M.step s₁ i = some (s', o) ∧ os = os₁ ++ o := by
  have hstep : ∀ s₁ o, M.run s₁ [i] = some (s', o) ↔ M.step s₁ i = some (s', o) := by
    intro s₁ o
    rw [run_cons]
    cases M.step s₁ i <;> simp [Prod.ext_iff]
  simp only [run_append_eq_some, hstep]

/-- The outputs of a run begin with those of each run that it begins with. -/
theorem run_isPrefix {M : Machine σ ι ω} {is js : List ι} {s s₁ s₂ : σ} {os₁ os₂ : List ω}
    (hp : is <+: js) (h₁ : M.run s is = some (s₁, os₁)) (h₂ : M.run s js = some (s₂, os₂)) :
    os₁ <+: os₂ := by
  obtain ⟨later, rfl⟩ := hp
  rw [run_append, h₁, Option.bind_some] at h₂
  obtain ⟨q, -, heq⟩ := Option.map_eq_some_iff.mp h₂
  exact ⟨q.2, (Prod.mk.inj heq).2⟩

/-- An invariant of the outputs so far and the state, which every step preserves, holds after every
run from the initial state. -/
theorem run_inv {M : Machine σ ι ω} (Inv : List ω → σ → Prop) (h0 : Inv [] M.init)
    (hstep : ∀ past s i s' o, Inv past s → M.step s i = some (s', o) → Inv (past ++ o) s')
    {is : List ι} : ∀ {s : σ} {os : List ω}, M.run M.init is = some (s, os) → Inv os s := by
  induction is using List.reverseRecOn with
  | nil =>
    intro s os h
    cases h
    exact h0
  | append_singleton is i ih =>
    intro s os h
    obtain ⟨s₁, past, o, hrun, hi, rfl⟩ := M.run_snoc_eq_some.mp h
    exact hstep past s₁ i s o (ih hrun) hi

/-- When every step of a machine is a run of another by a block of inputs, a run is a run of the
other by the blocks one after another. -/
theorem run_blocks {ι' : Type*} {M : Machine σ ι ω} {N : Machine σ ι' ω} {R : ι → List ι' → Prop}
    (hstep : ∀ s i s' o, M.step s i = some (s', o) → ∃ js, R i js ∧ N.run s js = some (s', o))
    {is : List ι} : ∀ {s s' : σ} {os : List ω}, M.run s is = some (s', os) →
      ∃ blocks, List.Forall₂ R is blocks ∧ N.run s blocks.flatten = some (s', os) := by
  induction is with
  | nil =>
    intro s s' os h
    cases h
    exact ⟨[], .nil, rfl⟩
  | cons i is ih =>
    intro s s' os h
    rw [run_cons] at h
    obtain ⟨⟨s₁, o⟩, h₁, h⟩ := Option.bind_eq_some_iff.mp h
    obtain ⟨⟨s₂, os₂⟩, h₂, he⟩ := Option.map_eq_some_iff.mp h
    simp only [Prod.mk.injEq] at he
    obtain ⟨rfl, rfl⟩ := he
    -- The block of the first input, and then the blocks of the others.
    obtain ⟨js, hR, hjs⟩ := hstep s i s₁ o h₁
    obtain ⟨blocks, hblocks, hrun⟩ := ih h₂
    refine ⟨js :: blocks, .cons hR hblocks, ?_⟩
    rw [List.flatten_cons, run_append, hjs, Option.bind_some, hrun]
    rfl

/-- The machine beside an observer, whose notes do not change what the machine does. -/
def observe {γ : Type*} (M : Machine σ ι ω) (blank : γ) (note : γ → σ → ι → γ) :
    Machine (σ × γ) ι ω where
  init := (M.init, blank)
  step s i := (M.step s.1 i).map fun r => ((r.1, note s.2 s.1 i), r.2)

/-- A run goes beside an observer as it does without. -/
theorem run_observe {γ : Type*} {M : Machine σ ι ω} {blank : γ} {note : γ → σ → ι → γ}
    {is : List ι} {s s' : σ} {os : List ω} (g : γ) (h : M.run s is = some (s', os)) :
    ∃ g', (M.observe blank note).run (s, g) is = some ((s', g'), os) := by
  induction is generalizing s os g with
  | nil =>
    cases h
    exact ⟨g, rfl⟩
  | cons i is ih =>
    rw [run_cons] at h
    obtain ⟨r, hstep, h⟩ := Option.bind_eq_some_iff.mp h
    obtain ⟨q, hrun, he⟩ := Option.map_eq_some_iff.mp h
    simp only [Prod.mk.injEq] at he
    obtain ⟨rfl, rfl⟩ := he
    obtain ⟨g', hg'⟩ := ih (note g s i) hrun
    refine ⟨g', ?_⟩
    have hobs : (M.observe blank note).step (s, g) i = some ((r.1, note g s i), r.2) := by
      simp [observe, hstep]
    rw [run_cons, hobs, Option.bind_some, hg']
    rfl

/-! ## Steps of a run -/

/-- In the run of `inputs` from the initial state, the input `i` comes after the history `h`, is
taken in the state `s`, and gives the state `s'` and the outputs `o`. -/
structure Occurs (inputs h : List ι) (s : σ) (i : ι) (s' : σ) (o : List ω) : Prop where
  isPrefix : h ++ [i] <+: inputs
  before : ∃ past, M.run M.init h = some (s, past)
  step : M.step s i = some (s', o)

/-- `P` holds of every step that the run of `inputs` takes. -/
def AllSteps (inputs : List ι) (P : List ι → σ → ι → σ → List ω → Prop) : Prop :=
  ∀ h s i s' o, M.Occurs inputs h s i s' o → P h s i s' o

variable {M}

/-- The outputs of a step are among those of the run. -/
theorem Occurs.outputs_infix {inputs h : List ι} {s s' t : σ} {i : ι} {o os : List ω}
    (ho : M.Occurs inputs h s i s' o) (hrun : M.run M.init inputs = some (t, os)) : o <:+: os := by
  obtain ⟨past, hbefore⟩ := ho.before
  have hstep : M.run M.init (h ++ [i]) = some (s', past ++ o) :=
    M.run_snoc_eq_some.mpr ⟨s, past, o, hbefore, ho.step, rfl⟩
  exact (List.suffix_append past o).isInfix.trans (run_isPrefix ho.isPrefix hstep hrun).isInfix

/-- An invariant of the history, the outputs so far and the state, which every step that meets the
condition `C` preserves, holds before every step of a run whose steps all meet `C`. -/
theorem AllSteps.inv_outputs {inputs : List ι} {C : List ι → σ → ι → σ → List ω → Prop}
    {I : List ι → List ω → σ → Prop} (hC : M.AllSteps inputs C) (h0 : I [] [] M.init)
    (hstep : ∀ h past s i s' o, I h past s → C h s i s' o → M.step s i = some (s', o) →
      I (h ++ [i]) (past ++ o) s')
    {h : List ι} {s : σ} {past : List ω} (hp : h <+: inputs)
    (hrun : M.run M.init h = some (s, past)) : I h past s := by
  -- The last input of the history took the run from a state that satisfied the invariant.
  induction h using List.reverseRecOn generalizing s past with
  | nil =>
    cases hrun
    exact h0
  | append_singleton h i ih =>
    obtain ⟨s₁, past₁, o, hrun₁, hs, rfl⟩ := M.run_snoc_eq_some.mp hrun
    have hInv := ih ((List.prefix_append h [i]).trans hp) hrun₁
    exact hstep h past₁ s₁ i s o hInv (hC h s₁ i s o ⟨hp, ⟨past₁, hrun₁⟩, hs⟩) hs

/-- An invariant of the history and the state, which every step that meets the condition `C`
preserves, holds before every step of a run whose steps all meet `C`. -/
theorem AllSteps.inv {inputs : List ι} {C : List ι → σ → ι → σ → List ω → Prop}
    {I : List ι → σ → Prop} (hC : M.AllSteps inputs C) (h0 : I [] M.init)
    (hstep : ∀ h s i s' o, I h s → C h s i s' o → M.step s i = some (s', o) → I (h ++ [i]) s')
    {h : List ι} {s : σ} {past : List ω} (hp : h <+: inputs)
    (hrun : M.run M.init h = some (s, past)) : I h s :=
  hC.inv_outputs (I := fun h _ s => I h s) h0 (fun h _ => hstep h) hp hrun

/-- From a condition on every step of a run to a law of every step of it, through an invariant. -/
theorem AllSteps.mono_inv {inputs : List ι} {C P : List ι → σ → ι → σ → List ω → Prop}
    {I : List ι → σ → Prop} (hC : M.AllSteps inputs C) (h0 : I [] M.init)
    (hstep : ∀ h s i s' o, I h s → C h s i s' o → M.step s i = some (s', o) → I (h ++ [i]) s')
    (hP : ∀ h s i s' o, I h s → C h s i s' o → M.step s i = some (s', o) → P h s i s' o) :
    M.AllSteps inputs P := by
  intro h s i s' o ho
  obtain ⟨past, hrun⟩ := ho.before
  have hInv := hC.inv h0 hstep ((List.prefix_append h [i]).trans ho.isPrefix) hrun
  exact hP h s i s' o hInv (hC h s i s' o ho) ho.step

/-- A law that every step meets in a state that satisfies an invariant, which it preserves, holds of
every step of a run. -/
theorem allSteps_of_inv {inputs : List ι} {P : List ι → σ → ι → σ → List ω → Prop}
    {I : List ι → σ → Prop} (h0 : I [] M.init)
    (hstep : ∀ h s i s' o, I h s → M.step s i = some (s', o) → I (h ++ [i]) s' ∧ P h s i s' o) :
    M.AllSteps inputs P := by
  have htriv : M.AllSteps inputs fun _ _ _ _ _ => True := fun _ _ _ _ _ _ => trivial
  exact htriv.mono_inv h0 (fun h s i s' o hs _ hi => (hstep h s i s' o hs hi).1)
    fun h s i s' o hs _ hi => (hstep h s i s' o hs hi).2

/-! ## Testing the steps of a run

Whether a law holds of every step of a given run can be computed, step after step. -/

/-- `P` holds of every step that the inputs take from the state `s`, after the history `h`. -/
def StepsFrom (M : Machine σ ι ω) (P : List ι → σ → ι → σ → List ω → Prop) :
    List ι → σ → List ι → Prop
  | _, _, [] => True
  | h, s, i :: is =>
    match M.step s i with
    | none => True
    | some r => P h s i r.1 r.2 ∧ StepsFrom M P (h ++ [i]) r.1 is

/-- The steps that are tested are those that the inputs take. -/
theorem stepsFrom_iff {P : List ι → σ → ι → σ → List ω → Prop} {inputs h : List ι} {s : σ} :
    M.StepsFrom P h s inputs ↔
      ∀ h' s₁ past i s' o, h' ++ [i] <+: inputs → M.run s h' = some (s₁, past) →
        M.step s₁ i = some (s', o) → P (h ++ h') s₁ i s' o := by
  induction inputs generalizing h s with
  | nil =>
    simp only [StepsFrom, true_iff]
    intro h' s₁ past i s' o hp
    simp at hp
  | cons j is ih =>
    cases hj : M.step s j with
    | none =>
      simp only [StepsFrom, hj, true_iff]
      intro h' s₁ past i s' o hp hrun hstep
      cases h' with
      | nil =>
        obtain rfl : i = j := by simpa using hp
        cases hrun
        rw [hj] at hstep
        cases hstep
      | cons k h' =>
        obtain rfl : k = j := (List.cons_prefix_cons.mp hp).1
        rw [run_cons, hj] at hrun
        cases hrun
    | some r =>
      -- A step of the run is its first one, or one of the run from the state after it.
      simp only [StepsFrom, hj, ih]
      constructor
      · rintro ⟨h0, hrest⟩ h' s₁ past i s' o hp hrun hstep
        cases h' with
        | nil =>
          obtain rfl : i = j := by simpa using hp
          cases hrun
          rw [hj] at hstep
          cases hstep
          rwa [List.append_nil]
        | cons k h' =>
          obtain ⟨rfl, htail⟩ := List.cons_prefix_cons.mp hp
          rw [run_cons, hj, Option.bind_some] at hrun
          obtain ⟨q, hq, he⟩ := Option.map_eq_some_iff.mp hrun
          simp only [Prod.mk.injEq] at he
          have := hrest h' q.1 q.2 i s' o htail hq (he.1 ▸ hstep)
          rwa [List.append_assoc, he.1] at this
      · intro hall
        refine ⟨?_, fun h' s₁ past i s' o hp hrun hstep => ?_⟩
        · have := hall [] s [] j r.1 r.2 (by simp) rfl hj
          rwa [List.append_nil] at this
        · have := hall (j :: h') s₁ (r.2 ++ past) i s' o (by simpa using hp)
            (by rw [run_cons, hj, Option.bind_some, hrun]; rfl) hstep
          rwa [List.append_assoc]

/-- The steps of a run are those that its inputs take from the initial state. -/
theorem allSteps_iff_stepsFrom {P : List ι → σ → ι → σ → List ω → Prop} {inputs : List ι} :
    M.AllSteps inputs P ↔ M.StepsFrom P [] M.init inputs := by
  rw [stepsFrom_iff]
  constructor
  · intro hP h s past i s' o hp hrun hstep
    exact hP h s i s' o ⟨hp, ⟨past, hrun⟩, hstep⟩
  · rintro hP h s i s' o ⟨hp, ⟨past, hrun⟩, hstep⟩
    exact hP h s past i s' o hp hrun hstep

/-- What an observer notes does not matter to a law that is not about its notes. -/
theorem allSteps_observe {γ : Type*} {blank : γ} {note : γ → σ → ι → γ}
    {P : List ι → σ → ι → σ → List ω → Prop} {inputs : List ι} :
    (M.observe blank note).AllSteps inputs (fun h s i s' o => P h s.1 i s'.1 o) ↔
      M.AllSteps inputs P := by
  have hfrom : ∀ {is h s} {g : γ}, (M.observe blank note).StepsFrom
      (fun h s i s' o => P h s.1 i s'.1 o) h (s, g) is ↔ M.StepsFrom P h s is := by
    intro is
    induction is with
    | nil => exact Iff.rfl
    | cons i is ih =>
      intro h s g
      cases hstep : M.step s i with
      | none => simp [StepsFrom, observe, hstep]
      | some r =>
        have hobs : (M.observe blank note).step (s, g) i = some ((r.1, note g s i), r.2) := by
          simp [observe, hstep]
        simp only [StepsFrom, hobs, hstep, ih]
  rw [allSteps_iff_stepsFrom, allSteps_iff_stepsFrom]
  exact hfrom

instance decidableStepsFrom {P : List ι → σ → ι → σ → List ω → Prop}
    [∀ h s i s' o, Decidable (P h s i s' o)] :
    ∀ (h : List ι) (s : σ) (inputs : List ι), Decidable (M.StepsFrom P h s inputs)
  | _, _, [] => inferInstanceAs (Decidable True)
  | h, s, i :: is =>
    match hstep : M.step s i with
    | none => decidable_of_iff True (by simp [StepsFrom, hstep])
    | some r =>
      have : Decidable (M.StepsFrom P (h ++ [i]) r.1 is) := decidableStepsFrom (h ++ [i]) r.1 is
      decidable_of_iff (P h s i r.1 r.2 ∧ M.StepsFrom P (h ++ [i]) r.1 is)
        (by simp [StepsFrom, hstep])

instance decidableAllSteps {P : List ι → σ → ι → σ → List ω → Prop}
    [∀ h s i s' o, Decidable (P h s i s' o)] (inputs : List ι) :
    Decidable (M.AllSteps inputs P) :=
  decidable_of_iff _ allSteps_iff_stepsFrom.symm

/-! ## Runs that go through

A machine may refuse an input. When every input meets a condition under which the machine takes a
step, a run goes through to its end. -/

/-- Every input that the run from `s` comes to meets the condition `C`, after the history `h`. -/
def AdmitsFrom (M : Machine σ ι ω) (C : List ι → σ → ι → Prop) : List ι → σ → List ι → Prop
  | _, _, [] => True
  | h, s, i :: is =>
    C h s i ∧
      match M.step s i with
      | none => True
      | some r => AdmitsFrom M C (h ++ [i]) r.1 is

/-- Every input that the run of `inputs` comes to meets the condition `C`. -/
def Admits (M : Machine σ ι ω) (inputs : List ι) (C : List ι → σ → ι → Prop) : Prop :=
  M.AdmitsFrom C [] M.init inputs

instance decidableAdmitsFrom {C : List ι → σ → ι → Prop} [∀ h s i, Decidable (C h s i)] :
    ∀ (h : List ι) (s : σ) (inputs : List ι), Decidable (M.AdmitsFrom C h s inputs)
  | _, _, [] => inferInstanceAs (Decidable True)
  | h, s, i :: is =>
    match hstep : M.step s i with
    | none => decidable_of_iff (C h s i) (by simp [AdmitsFrom, hstep])
    | some r =>
      have : Decidable (M.AdmitsFrom C (h ++ [i]) r.1 is) := decidableAdmitsFrom (h ++ [i]) r.1 is
      decidable_of_iff (C h s i ∧ M.AdmitsFrom C (h ++ [i]) r.1 is) (by simp [AdmitsFrom, hstep])

instance decidableAdmits {C : List ι → σ → ι → Prop} [∀ h s i, Decidable (C h s i)]
    (inputs : List ι) : Decidable (M.Admits inputs C) :=
  decidableAdmitsFrom [] M.init inputs

/-- A condition on the inputs that a run comes to holds at every step of it. -/
theorem Admits.allSteps {C : List ι → σ → ι → Prop} {inputs : List ι} (hC : M.Admits inputs C) :
    M.AllSteps inputs fun h s i _ _ => C h s i := by
  have hfrom : ∀ {is h s}, M.AdmitsFrom C h s is →
      M.StepsFrom (fun h s i _ _ => C h s i) h s is := by
    intro is
    induction is with
    | nil => exact fun _ => trivial
    | cons i is ih =>
      intro h s hadm
      simp only [AdmitsFrom, StepsFrom] at hadm ⊢
      cases hstep : M.step s i with
      | none => trivial
      | some r =>
        rw [hstep] at hadm
        exact ⟨hadm.1, ih hadm.2⟩
  exact allSteps_iff_stepsFrom.mpr (hfrom hC)

/-- A run goes through when every input meets a condition under which the machine takes a step that
keeps an invariant. -/
theorem Admits.run_isSome {C : List ι → σ → ι → Prop} {I : List ι → σ → Prop} {inputs : List ι}
    (hC : M.Admits inputs C) (h0 : I [] M.init)
    (hstep : ∀ h s i, I h s → C h s i → ∃ s' o, M.step s i = some (s', o) ∧ I (h ++ [i]) s') :
    (M.run M.init inputs).isSome := by
  have hfrom : ∀ {is h s}, I h s → M.AdmitsFrom C h s is → (M.run s is).isSome := by
    intro is
    induction is with
    | nil => exact fun _ _ => rfl
    | cons i is ih =>
      intro h s hs hadm
      obtain ⟨s', o, hi, hs'⟩ := hstep h s i hs hadm.1
      have hrest := hadm.2
      rw [hi] at hrest
      rw [run_cons, hi, Option.bind_some, Option.isSome_map]
      exact ih hs' hrest
  exact hfrom h0 hC

/-- In a run that goes through, every input meets the condition `C` when the machine takes a step only
on those that do. -/
theorem admits_of_run_isSome {C : List ι → σ → ι → Prop} {I : List ι → σ → Prop} {inputs : List ι}
    (hrun : (M.run M.init inputs).isSome) (h0 : I [] M.init)
    (hstep : ∀ h s i s' o, I h s → M.step s i = some (s', o) → C h s i ∧ I (h ++ [i]) s') :
    M.Admits inputs C := by
  have hfrom : ∀ {is h s}, I h s → (M.run s is).isSome → M.AdmitsFrom C h s is := by
    intro is
    induction is with
    | nil => exact fun _ _ => trivial
    | cons i is ih =>
      intro h s hs hrun
      rw [run_cons] at hrun
      cases hi : M.step s i with
      | none =>
        rw [hi] at hrun
        cases hrun
      | some r =>
        rw [hi, Option.bind_some, Option.isSome_map] at hrun
        obtain ⟨hC, hs'⟩ := hstep h s i r.1 r.2 hs hi
        rw [AdmitsFrom, hi]
        exact ⟨hC, ih hs' hrun⟩
  exact hfrom h0 hrun

/-- A machine that takes a step on every input, in every state that satisfies an invariant, goes
through every run. -/
theorem run_isSome {Inv : List ι → σ → Prop} (inputs : List ι) (h0 : Inv [] M.init)
    (hstep : ∀ h s i, Inv h s → ∃ s' o, M.step s i = some (s', o) ∧ Inv (h ++ [i]) s') :
    (M.run M.init inputs).isSome := by
  have hadm : ∀ {is h s}, M.AdmitsFrom (fun _ _ _ => True) h s is := by
    intro is
    induction is with
    | nil => exact trivial
    | cons i is ih =>
      intro h s
      refine ⟨trivial, ?_⟩
      cases M.step s i with
      | none => trivial
      | some r => exact ih
  exact Admits.run_isSome hadm h0 fun h s i hs _ => hstep h s i hs

/-! ## Laws of runs that rest on an invariant -/

/-- Two laws that agree on every possible step in a state that satisfies an invariant hold of the
same runs, among those whose steps all meet the condition `C`, also when only the steps that meet the
laws preserve the invariant. -/
theorem AllSteps.congr_of {inputs : List ι} {C P Q : List ι → σ → ι → σ → List ω → Prop}
    (hC : M.AllSteps inputs C) (Inv : List ι → σ → Prop) (h0 : Inv [] M.init)
    (hstep : ∀ h s i s' o, Inv h s → C h s i s' o → Q h s i s' o → M.step s i = some (s', o) →
      Inv (h ++ [i]) s')
    (hPQ : ∀ h s i s' o, Inv h s → C h s i s' o → M.step s i = some (s', o) →
      (P h s i s' o ↔ Q h s i s' o)) :
    M.AllSteps inputs P ↔ M.AllSteps inputs Q := by
  constructor
  · intro hP
    have hCP : M.AllSteps inputs fun h s i s' o => C h s i s' o ∧ P h s i s' o :=
      fun h s i s' o ho => ⟨hC h s i s' o ho, hP h s i s' o ho⟩
    refine hCP.mono_inv (I := Inv) h0 (fun h s i s' o hs hcp hi => ?_) fun h s i s' o hs hcp hi => ?_
    · exact hstep h s i s' o hs hcp.1 ((hPQ h s i s' o hs hcp.1 hi).mp hcp.2) hi
    · exact (hPQ h s i s' o hs hcp.1 hi).mp hcp.2
  · intro hQ
    have hCQ : M.AllSteps inputs fun h s i s' o => C h s i s' o ∧ Q h s i s' o :=
      fun h s i s' o ho => ⟨hC h s i s' o ho, hQ h s i s' o ho⟩
    exact hCQ.mono_inv (I := Inv) h0
      (fun h s i s' o hs hcq hi => hstep h s i s' o hs hcq.1 hcq.2 hi)
      fun h s i s' o hs hcq hi => (hPQ h s i s' o hs hcq.1 hi).mpr hcq.2

/-- Two laws that agree on every possible step in a state that satisfies an invariant hold of the
same runs, among those whose steps all meet the condition `C`. -/
theorem AllSteps.congr {inputs : List ι} {C P Q : List ι → σ → ι → σ → List ω → Prop}
    {Inv : List ι → σ → Prop} (hC : M.AllSteps inputs C) (h0 : Inv [] M.init)
    (hstep : ∀ h s i s' o, Inv h s → C h s i s' o → M.step s i = some (s', o) → Inv (h ++ [i]) s')
    (hPQ : ∀ h s i s' o, Inv h s → C h s i s' o → M.step s i = some (s', o) →
      (P h s i s' o ↔ Q h s i s' o)) :
    M.AllSteps inputs P ↔ M.AllSteps inputs Q :=
  hC.congr_of Inv h0 (fun h s i s' o hs hc _ => hstep h s i s' o hs hc) hPQ

/-- Two laws that agree on every possible step in a state that satisfies an invariant hold of the
same runs, also when only the steps that meet the laws preserve the invariant. -/
theorem allSteps_congr_of {inputs : List ι} {P Q : List ι → σ → ι → σ → List ω → Prop}
    (Inv : List ι → σ → Prop) (h0 : Inv [] M.init)
    (hstep : ∀ h s i s' o, Inv h s → Q h s i s' o → M.step s i = some (s', o) → Inv (h ++ [i]) s')
    (hPQ : ∀ h s i s' o, Inv h s → M.step s i = some (s', o) → (P h s i s' o ↔ Q h s i s' o)) :
    M.AllSteps inputs P ↔ M.AllSteps inputs Q := by
  have htriv : M.AllSteps inputs fun _ _ _ _ _ => True := fun _ _ _ _ _ _ => trivial
  exact htriv.congr_of Inv h0 (fun h s i s' o hs _ => hstep h s i s' o hs)
    fun h s i s' o hs _ => hPQ h s i s' o hs

/-- Two laws that agree on every possible step in a state that satisfies an invariant hold of the
same runs. -/
theorem allSteps_congr {inputs : List ι} {P Q : List ι → σ → ι → σ → List ω → Prop}
    (Inv : List ι → σ → Prop) (h0 : Inv [] M.init)
    (hstep : ∀ h s i s' o, Inv h s → M.step s i = some (s', o) → Inv (h ++ [i]) s')
    (hPQ : ∀ h s i s' o, Inv h s → M.step s i = some (s', o) → (P h s i s' o ↔ Q h s i s' o)) :
    M.AllSteps inputs P ↔ M.AllSteps inputs Q :=
  allSteps_congr_of Inv h0 (fun h s i s' o hs _ => hstep h s i s' o hs) hPQ

end Machine

end PartLib
