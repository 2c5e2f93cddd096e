import Mathlib.Algebra.BigOperators.Group.List.Basic
import Mathlib.Algebra.Ring.Int.Defs

/-!
# Walks on a cycle, cut at their returns

A walk on a cycle of `n` places is a list of integer steps from a place called home; it is at home
whenever the sum of its steps is a multiple of `n`. Cut at these times, the walk is a list of
excursions, each of which leaves home and comes back at its end only. What a walk winds around the
cycle is the sum of what its excursions do (`sum_winding_excursions`).
-/

namespace PartLib

/-- How often the steps go around a cycle of `n` places, backwards counted as negative. -/
def winding (n : ℕ) (steps : List ℤ) : ℤ := steps.sum / n

/-- The excursions that are completed by the given steps, when `walked` are the steps since the walk
left home, the last one first. -/
def excursionsFrom (n : ℕ) : List ℤ → List ℤ → List (List ℤ)
  | _, [] => []
  | walked, d :: ds =>
    if (n : ℤ) ∣ (d :: walked).sum then (d :: walked).reverse :: excursionsFrom n [] ds
    else excursionsFrom n (d :: walked) ds

/-- The excursions of a walk that starts at home. -/
def excursions (n : ℕ) (steps : List ℤ) : List (List ℤ) := excursionsFrom n [] steps

variable {n : ℕ} {walked steps : List ℤ} {d : ℤ}

/-- A step that comes home completes an excursion. -/
theorem excursionsFrom_of_dvd (h : (n : ℤ) ∣ (d :: walked).sum) :
    excursionsFrom n walked (d :: steps) = (d :: walked).reverse :: excursions n steps := if_pos h

/-- A step that does not come home goes on with the excursion. -/
theorem excursionsFrom_of_not_dvd (h : ¬ (n : ℤ) ∣ (d :: walked).sum) :
    excursionsFrom n walked (d :: steps) = excursionsFrom n (d :: walked) steps := if_neg h

/-- An excursion ends at home. -/
theorem dvd_of_mem_excursionsFrom {e : List ℤ} (h : e ∈ excursionsFrom n walked steps) :
    (n : ℤ) ∣ e.sum := by
  induction steps generalizing walked with
  | nil => simp [excursionsFrom] at h
  | cons d steps ih =>
    by_cases hd : (n : ℤ) ∣ (d :: walked).sum
    · rw [excursionsFrom_of_dvd hd, List.mem_cons] at h
      rcases h with rfl | h
      · rwa [List.sum_reverse]
      · exact ih h
    · rw [excursionsFrom_of_not_dvd hd] at h
      exact ih h

/-- When a walk ends at home, its steps are those of its excursions. -/
theorem sum_excursionsFrom (hout : walked = [] ∨ ¬ (n : ℤ) ∣ walked.sum)
    (hend : (n : ℤ) ∣ walked.sum + steps.sum) :
    ((excursionsFrom n walked steps).map List.sum).sum = walked.sum + steps.sum := by
  induction steps generalizing walked with
  | nil =>
    rw [List.sum_nil, add_zero] at hend ⊢
    have hnil : walked = [] := hout.resolve_right (not_not.mpr hend)
    simp [excursionsFrom, hnil]
  | cons d steps ih =>
    have hsum : walked.sum + (d :: steps).sum = (d :: walked).sum + steps.sum := by
      simp only [List.sum_cons]
      omega
    rw [hsum] at hend ⊢
    by_cases hd : (n : ℤ) ∣ (d :: walked).sum
    · have hrest : (n : ℤ) ∣ ([] : List ℤ).sum + steps.sum := by
        simpa using (Int.dvd_add_right hd).mp hend
      rw [excursionsFrom_of_dvd hd, List.map_cons, List.sum_cons, List.sum_reverse, excursions,
        ih (.inl rfl) hrest, List.sum_nil, zero_add]
    · rw [excursionsFrom_of_not_dvd hd]
      exact ih (.inr hd) hend

/-- What a walk that ends at home winds is the sum of what its excursions wind. -/
theorem sum_winding_excursions (hn : n ≠ 0) (hend : (n : ℤ) ∣ steps.sum) :
    ((excursions n steps).map (winding n)).sum = winding n steps := by
  have hmul : ∀ es : List (List ℤ), (∀ e ∈ es, (n : ℤ) ∣ e.sum) →
      (es.map List.sum).sum = n * (es.map (winding n)).sum := by
    intro es hes
    induction es with
    | nil => simp
    | cons e es ih =>
      obtain ⟨k, hk⟩ := hes e (by simp)
      rw [List.map_cons, List.sum_cons, List.map_cons, List.sum_cons, mul_add,
        ih fun e' he' => hes e' (List.mem_cons_of_mem _ he'), winding,
        Int.mul_ediv_cancel' (hes e (by simp))]
  have hsum : ((excursions n steps).map List.sum).sum = steps.sum := by
    have hall := sum_excursionsFrom (n := n) (.inl rfl) (by simpa using hend)
    rwa [List.sum_nil, zero_add] at hall
  rw [hmul (excursions n steps) fun e he => dvd_of_mem_excursionsFrom he] at hsum
  rw [winding, ← hsum, Int.mul_ediv_cancel_left _ (by exact_mod_cast hn)]

end PartLib
