import Mathlib.Data.List.Basic
import Mathlib.Tactic.Ring

/-!
# Cutting a list into slices

`slice c l i` is the `i`-th slice of length `c` of a list; the last one may be shorter. As many
slices as it takes to cover the list, concatenated in order, give it back (`flatMap_slice`), and
`sliceCount` is how many that is.
-/

namespace PartLib

variable {α : Type*}

/-- The elements of `l` from `i * c` on, at most `c` of them. -/
def slice (c : ℕ) (l : List α) (i : ℕ) : List α := (l.drop (i * c)).take c

/-- The length of a slice: `c`, or what is left of the list. -/
theorem length_slice (c : ℕ) (l : List α) (i : ℕ) :
    (slice c l i).length = min c (l.length - i * c) := by
  rw [slice, List.length_take, List.length_drop]

/-- The first `t` slices make up the first `t * c` elements. -/
theorem flatMap_slice_take (c : ℕ) (l : List α) (t : ℕ) :
    (List.range t).flatMap (slice c l) = l.take (t * c) := by
  induction t with
  | zero => simp
  | succ t ih =>
    rw [List.range_succ, List.flatMap_append, ih, List.flatMap_singleton, slice, ← List.take_add,
      show (t + 1) * c = t * c + c by ring]

/-- Slices that cover a list give it back. -/
theorem flatMap_slice {c : ℕ} {l : List α} {t : ℕ} (h : l.length ≤ t * c) :
    (List.range t).flatMap (slice c l) = l := by
  rw [flatMap_slice_take, List.take_of_length_le h]

/-! ## How many slices cover a list -/

/-- The number of slices of length `c` that cover `n` elements: the quotient, and one more when
there is a remainder. -/
def sliceCount (c n : ℕ) : ℕ := if n % c = 0 then n / c else n / c + 1

/-- The slices cover all elements. -/
theorem le_sliceCount_mul {c : ℕ} (hc : 0 < c) (n : ℕ) : n ≤ sliceCount c n * c := by
  have hn := Nat.div_add_mod n c
  have hr := Nat.mod_lt n hc
  unfold sliceCount
  split_ifs with h
  · rw [Nat.mul_comm]
    omega
  · rw [Nat.add_mul, Nat.mul_comm (n / c)]
    omega

/-- Every slice but the last is full, and the last is not empty. -/
theorem mul_lt_of_lt_sliceCount {c : ℕ} (hc : 0 < c) {n i : ℕ} (hi : i < sliceCount c n) :
    i * c < n := by
  have hn := Nat.div_add_mod n c
  unfold sliceCount at hi
  split_ifs at hi with h
  · -- Without a remainder, the slice after this one starts at most at the end.
    have : i * c + c ≤ n / c * c := by
      rw [← Nat.succ_mul]
      exact Nat.mul_le_mul_right c hi
    rw [Nat.mul_comm (n / c)] at this
    omega
  · -- With one, the last slice starts where the full slices end.
    have : i * c ≤ n / c * c := Nat.mul_le_mul_right c (by omega)
    rw [Nat.mul_comm (n / c)] at this
    omega

/-- The number of slices is the rounded-up quotient. -/
theorem sliceCount_eq_ceil {c : ℕ} (hc : 0 < c) (n : ℕ) : sliceCount c n = (n + c - 1) / c := by
  have hle := le_sliceCount_mul hc n
  have hlt : ∀ i, i < sliceCount c n → i * c < n := fun i hi => mul_lt_of_lt_sliceCount hc hi
  symm
  rw [Nat.div_eq_iff (by omega)]
  rcases Nat.eq_zero_or_pos (sliceCount c n) with h0 | hpos
  · rw [h0] at hle ⊢
    omega
  · have h1 := hlt (sliceCount c n - 1) (by omega)
    rw [Nat.sub_mul, Nat.one_mul] at h1
    have hge : c ≤ sliceCount c n * c := Nat.le_mul_of_pos_left c hpos
    omega

end PartLib
