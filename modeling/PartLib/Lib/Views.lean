import PartLib.Lib.Machine

/-!
# What a component sees of a machine

A machine that is made of components can be seen from one of them: what the component sees of a step
are inputs of a machine of its own, and what it sees of the state and of the outputs are the state and
the outputs of that. Of what the others do it sees nothing but what such inputs tell.

A run is then, seen from the component, a run of its own machine (`View.run`): runs of which it sees
the same are the same to it, whatever the others do in them.
-/

namespace PartLib

variable {σ ι ω τ κ υ : Type*}

/-- A view of the machine `M`, as the machine `N`. -/
structure View (M : Machine σ ι ω) (N : Machine τ κ υ) where
  /-- What is seen of a step, from its input and its outputs. -/
  moves : ι → List ω → List κ
  state : σ → τ
  out : ω → Option υ
  step : ∀ s i s' o, M.step s i = some (s', o) →
    N.run (state s) (moves i o) = some (state s', o.filterMap out)

namespace View

variable {M : Machine σ ι ω} {N : Machine τ κ υ} (V : View M N)

/-- What is seen of a run. -/
def seen : σ → List ι → List κ
  | _, [] => []
  | s, i :: is =>
    match M.step s i with
    | none => []
    | some r => V.moves i r.2 ++ seen r.1 is

theorem seen_cons {s s' : σ} {i : ι} {o : List ω} (h : M.step s i = some (s', o)) (is : List ι) :
    V.seen s (i :: is) = V.moves i o ++ V.seen s' is := by
  simp only [seen, h]

/-- A run is, seen through a view, a run of the other machine on what is seen. -/
theorem run {is : List ι} : ∀ {s s' : σ} {os : List ω}, M.run s is = some (s', os) →
    N.run (V.state s) (V.seen s is) = some (V.state s', os.filterMap V.out) := by
  induction is with
  | nil =>
    intro s s' os h
    cases h
    rfl
  | cons i is ih =>
    intro s s' os h
    rw [Machine.run_cons] at h
    obtain ⟨⟨s₁, o⟩, hstep, h⟩ := Option.bind_eq_some_iff.mp h
    obtain ⟨⟨s₂, os₂⟩, hrun, he⟩ := Option.map_eq_some_iff.mp h
    simp only [Prod.mk.injEq] at he
    obtain ⟨rfl, rfl⟩ := he
    rw [V.seen_cons hstep, Machine.run_append, V.step s i s₁ o hstep, Option.bind_some, ih hrun,
      List.filterMap_append]
    rfl

end View

end PartLib
