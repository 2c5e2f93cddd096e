import PartLib.Lib.Machine

/-!
# Refinement between machines

A machine refines another, which says what it is for, when a relation between their states holds at the
start, and every step of the first can be followed by some inputs of the second, that show the same and
end in related states. A step of which nothing is to be seen may be followed by no input at all. Every
run of the first machine then shows what some run of the second does (`Refinement.run`), and a law of
the second machine's outputs holds for what is seen of the first (`Refinement.outputs`).
-/

namespace PartLib

variable {σ ι ω τ κ υ : Type*}

/-- The machine `M` refines the machine `N`, which shows `out` of the outputs of `M`. -/
structure Refinement (M : Machine σ ι ω) (N : Machine τ κ υ) (out : ω → Option υ) where
  Rel : σ → τ → Prop
  init : Rel M.init N.init
  step : ∀ {s i s' o t}, Rel s t → M.step s i = some (s', o) →
    ∃ js t', N.run t js = some (t', o.filterMap out) ∧ Rel s' t'

namespace Refinement

variable {M : Machine σ ι ω} {N : Machine τ κ υ} {out : ω → Option υ}

/-- Every run shows what some run of the other machine does. -/
theorem run (R : Refinement M N out) {is : List ι} {s : σ} {os : List ω}
    (h : M.run M.init is = some (s, os)) :
    ∃ js t, N.run N.init js = some (t, os.filterMap out) ∧ R.Rel s t := by
  refine Machine.run_inv
    (fun os s => ∃ js t, N.run N.init js = some (t, os.filterMap out) ∧ R.Rel s t)
    ⟨[], N.init, rfl, R.init⟩ (fun past s i s' o hs hstep => ?_) h
  obtain ⟨js, t, hrun, hrel⟩ := hs
  obtain ⟨js', t', hrun', hrel'⟩ := R.step hrel hstep
  refine ⟨js ++ js', t', ?_, hrel'⟩
  rw [Machine.run_append, hrun, Option.bind_some, hrun', List.filterMap_append]
  rfl

/-- A law of the outputs of every run of the other machine holds for what is seen. -/
theorem outputs (R : Refinement M N out) {P : List υ → Prop}
    (hP : ∀ js t us, N.run N.init js = some (t, us) → P us) {is : List ι} {s : σ} {os : List ω}
    (h : M.run M.init is = some (s, os)) : P (os.filterMap out) := by
  obtain ⟨js, t, hrun, -⟩ := R.run h
  exact hP js t _ hrun

end Refinement

end PartLib
