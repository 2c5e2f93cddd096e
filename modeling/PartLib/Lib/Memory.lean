import Mathlib.Data.Int.Basic
import Mathlib.Data.List.AList
import Mathlib.Tactic.Ring

/-!
# Bytes in memory

An array is the list of its elements. `memcpy` is defined when both of its ranges lie inside the
arrays, so a copy that leaves one of them has no result. A `Heap` holds the live blocks of one type
by address; `malloc` takes the address that the allocator offers, and gives no block when the
allocator offers none or one that is in use.
-/

namespace PartLib

variable {α : Type*}

/-- The array `dst` with the elements from `off` on overwritten by `src`. -/
def splice (dst : List α) (off : ℕ) (src : List α) : List α :=
  dst.take off ++ src ++ dst.drop (off + src.length)

/-- Overwriting a range inside an array keeps its length. -/
theorem length_splice {dst src : List α} {off : ℕ} (h : off + src.length ≤ dst.length) :
    (splice dst off src).length = dst.length := by
  simp only [splice, List.length_append, List.length_take, List.length_drop]
  omega

/-- Up to the end of the range overwritten, an array has its old elements and then the new ones. -/
theorem take_splice {dst src : List α} {off : ℕ} (h : off + src.length ≤ dst.length) :
    (splice dst off src).take (off + src.length) = dst.take off ++ src := by
  have hlen : (dst.take off ++ src).length = off + src.length := by
    rw [List.length_append, List.length_take]
    omega
  rw [splice, ← hlen, List.take_left']
  rfl

/-- Writing the next element of an array extends what is written. -/
theorem take_set_succ {dst : List α} {i : ℕ} (h : i < dst.length) (a : α) :
    (dst.set i a).take (i + 1) = dst.take i ++ [a] := by
  rw [List.take_add_one, List.take_set_of_le (Nat.le_refl i), List.getElem?_set_self h]
  rfl

/-- `memcpy (dst + dOff, src + sOff, len)`: the new contents of `dst`, when the ranges read and
written are inside the arrays. -/
def memcpy (dst : List α) (dOff : ℤ) (src : List α) (sOff len : ℤ) : Option (List α) :=
  if 0 ≤ dOff ∧ 0 ≤ sOff ∧ 0 ≤ len ∧ dOff + len ≤ dst.length ∧ sOff + len ≤ src.length then
    some (splice dst dOff.toNat ((src.drop sOff.toNat).take len.toNat))
  else
    none

/-- A copy between ranges that lie inside the arrays. -/
theorem memcpy_natCast {dst src : List α} {dOff sOff len : ℕ} (hd : dOff + len ≤ dst.length)
    (hs : sOff + len ≤ src.length) :
    memcpy dst dOff src sOff len = some (splice dst dOff ((src.drop sOff).take len)) := by
  rw [memcpy, if_pos (by omega)]
  simp only [Int.toNat_natCast]

/-! ## Blocks -/

/-- The live blocks of one type, by their addresses. -/
abbrev Heap (β : Type*) := AList fun _ : ℕ => β

variable {β : Type*}

/-- A block that holds something is live. -/
theorem mem_of_lookup {heap : Heap β} {a : ℕ} {b : β} (h : heap.lookup a = some b) : a ∈ heap := by
  rw [← AList.lookup_isSome, h]
  rfl

/-- The block that an allocation returns when the allocator offers the address `offer`: `none`,
the null pointer, when it offers none, and never a block in use. -/
def malloc (heap : Heap β) (offer : Option ℕ) : Option ℕ :=
  offer.filter fun a => decide (a ∉ heap)

/-- The heap after `free (p)`: freeing the null pointer does nothing, and freeing a block that is
not live has no result. -/
def free (heap : Heap β) : Option ℕ → Option (Heap β)
  | none => some heap
  | some a => if a ∈ heap then some (heap.erase a) else none

/-- A block returned by an allocation was not in use. -/
theorem malloc_fresh {heap : Heap β} {offer : Option ℕ} {a : ℕ} (h : malloc heap offer = some a) :
    a ∉ heap := by
  simpa using (Option.filter_eq_some_iff.mp h).2

/-- A block that is live after `free` was live before, and is not the one freed. -/
theorem mem_of_free {heap heap' : Heap β} {p : Option ℕ} (h : free heap p = some heap') {a : ℕ}
    (ha : a ∈ heap') : a ∈ heap ∧ p ≠ some a := by
  cases p with
  | none =>
    cases h
    exact ⟨ha, nofun⟩
  | some b =>
    simp only [free] at h
    split_ifs at h
    cases h
    obtain ⟨hne, hmem⟩ := AList.mem_erase.mp ha
    exact ⟨hmem, fun he => hne (Option.some.inj he).symm⟩

end PartLib
