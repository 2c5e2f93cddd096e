import Mathlib.Logic.Relation
import Mathlib.Order.Basic

/-!
# Tasks that wait for each other's locks

`LockGraph` is who wants and who holds which lock at a moment. A task waits for another one when it
wants a lock that the other holds, and for itself when it wants a lock that it holds and that is not
reentrant. A cyclic wait is a chain of such waits back to its start: none of its tasks can go on.

There is none when every wait goes up in some order (`not_cyclicWait_of_rank`).
-/

namespace PartLib

/-- The locks that tasks want and hold; a task may take a reentrant lock again. -/
structure LockGraph (T L : Type*) where
  wants : T → L → Prop
  holds : T → L → Prop
  reentrant : L → Prop

namespace LockGraph

variable {T L α : Type*} {g : LockGraph T L} {t u : T} {l m : L}

/-- The task `t` waits for a lock that `u` holds. -/
def WaitsFor (g : LockGraph T L) (t u : T) : Prop :=
  ∃ l, g.wants t l ∧ g.holds u l ∧ (g.reentrant l → t ≠ u)

/-- A chain of waits leads from a task back to itself. -/
def CyclicWait (g : LockGraph T L) : Prop := ∃ t, Relation.TransGen g.WaitsFor t t

/-- A task that wants a lock of its own, which is not reentrant, waits for itself. -/
theorem cyclicWait_self (hw : g.wants t l) (hh : g.holds t l) (hl : ¬ g.reentrant l) :
    g.CyclicWait :=
  ⟨t, .single ⟨l, hw, hh, fun h => absurd h hl⟩⟩

/-- Two tasks that want a lock of the other wait for each other. -/
theorem cyclicWait_pair (htu : t ≠ u) (htw : g.wants t l) (huh : g.holds u l) (huw : g.wants u m)
    (hth : g.holds t m) : g.CyclicWait :=
  ⟨t, .tail (.single ⟨l, htw, huh, fun _ => htu⟩) ⟨m, huw, hth, fun _ => htu.symm⟩⟩

/-- When every wait goes up in an order, no chain of waits comes back. -/
theorem not_cyclicWait_of_rank [Preorder α] (rank : T → α)
    (h : ∀ t u, g.WaitsFor t u → rank t < rank u) : ¬ g.CyclicWait := by
  rintro ⟨t, ht⟩
  have hchain : ∀ {u}, Relation.TransGen g.WaitsFor t u → rank t < rank u := by
    intro u hu
    induction hu with
    | single hstep => exact h _ _ hstep
    | tail _ hstep ih => exact ih.trans (h _ _ hstep)
  exact lt_irrefl _ (hchain ht)

end LockGraph

end PartLib
