import PartLib.Lib.Memory

/-!
# Stores and windows

A memory is the list of its elements. `window` is what a range of it holds, and `stores` makes one
store after another; a store that leaves the memory has no result. What a window holds after stores
that do not touch it is what it held before (`window_stores`), so an object in memory changes only by
the stores into it.
-/

namespace PartLib

variable {α : Type*}

/-- The `len` elements from `off` on. -/
def window (mem : List α) (off len : ℕ) : List α := (mem.drop off).take len

/-- One store: the elements of `w.2`, from `w.1` on. -/
def store (mem : List α) (w : ℕ × List α) : Option (List α) :=
  if w.1 + w.2.length ≤ mem.length then some (splice mem w.1 w.2) else none

/-- The stores, one after another. -/
def stores (mem : List α) (ws : List (ℕ × List α)) : Option (List α) := ws.foldlM store mem

/-- The store lies inside the window. -/
def Within (off len : ℕ) (w : ℕ × List α) : Prop := off ≤ w.1 ∧ w.1 + w.2.length ≤ off + len

/-- The store does not touch the window. -/
def Outside (off len : ℕ) (w : ℕ × List α) : Prop := off + len ≤ w.1 ∨ w.1 + w.2.length ≤ off

variable {mem mem' src : List α} {off len a : ℕ}

/-- The size of a window inside the memory. -/
theorem length_window (h : off + len ≤ mem.length) : (window mem off len).length = len := by
  rw [window, List.length_take, List.length_drop]
  omega

/-- The elements after an array is overwritten in a range. -/
theorem getElem?_splice (h : off + src.length ≤ mem.length) (k : ℕ) :
    (splice mem off src)[k]? = if off ≤ k ∧ k < off + src.length then src[k - off]? else mem[k]? := by
  have hfirst : (mem.take off).length = off := List.length_take_of_le (by omega)
  rw [splice, List.append_assoc]
  by_cases hk : k < off
  · rw [List.getElem?_append_left (by omega), List.getElem?_take_of_lt hk, if_neg (by omega)]
  · rw [List.getElem?_append_right (by omega), hfirst]
    by_cases hin : k < off + src.length
    · rw [List.getElem?_append_left (by omega), if_pos ⟨by omega, hin⟩]
    · rw [List.getElem?_append_right (by omega), List.getElem?_drop, if_neg (by omega)]
      congr 1
      omega

/-- The elements of a window. -/
theorem getElem?_window (mem : List α) (off len k : ℕ) :
    (window mem off len)[k]? = if k < len then mem[off + k]? else none := by
  rw [window, List.getElem?_take, List.getElem?_drop]

/-- A window that is not touched. -/
theorem window_splice_of_outside (h : off + src.length ≤ mem.length) (ha : Outside a len (off, src)) :
    window (splice mem off src) a len = window mem a len := by
  refine List.ext_getElem? fun k => ?_
  rw [getElem?_window, getElem?_window]
  split_ifs with hk
  · simp only [Outside] at ha
    rw [getElem?_splice h, if_neg (by omega)]
  · rfl

/-- A window that the array is overwritten inside. -/
theorem window_splice_of_within (h : a + len ≤ mem.length) (hw : Within a len (off, src)) :
    window (splice mem off src) a len = splice (window mem a len) (off - a) src := by
  simp only [Within] at hw
  have houter : off + src.length ≤ mem.length := by omega
  have hinner : off - a + src.length ≤ (window mem a len).length := by
    rw [length_window h]
    omega
  refine List.ext_getElem? fun k => ?_
  rw [getElem?_window, getElem?_splice houter, getElem?_splice hinner, getElem?_window]
  by_cases hk : k < len
  · rw [if_pos hk, if_pos hk]
    by_cases hin : off ≤ a + k ∧ a + k < off + src.length
    · rw [if_pos hin, if_pos (by omega)]
      congr 1
      omega
    · rw [if_neg hin, if_neg (by omega)]
  · rw [if_neg hk, if_neg hk, if_neg (by omega)]

/-- A window at the beginning of what is stored. -/
theorem window_splice_self (h : off + src.length ≤ mem.length) (hlen : len ≤ src.length) :
    window (splice mem off src) off len = src.take len := by
  refine List.ext_getElem? fun k => ?_
  rw [getElem?_window, List.getElem?_take, getElem?_splice h]
  split_ifs with hk hin
  · rw [Nat.add_sub_cancel_left]
  · omega
  · rfl

/-- A store that has a result, and the stores after it. -/
theorem stores_cons_eq_some {ws : List (ℕ × List α)} :
    stores mem ((off, src) :: ws) = some mem' ↔
      off + src.length ≤ mem.length ∧ stores (splice mem off src) ws = some mem' := by
  rw [stores, List.foldlM_cons, store]
  by_cases h : off + src.length ≤ mem.length
  · rw [if_pos h, and_iff_right h]
    rfl
  · rw [if_neg h]
    exact ⟨nofun, fun he => absurd he.1 h⟩

/-- Stores that stay inside a window of the memory have a result. -/
theorem stores_of_within {ws : List (ℕ × List α)} (h : a + len ≤ mem.length)
    (hws : ∀ w ∈ ws, Within a len w) : 
    ∃ mem', stores mem ws = some mem' ∧ mem'.length = mem.length := by
  induction ws generalizing mem with
  | nil => exact ⟨mem, rfl, rfl⟩
  | cons w ws ih =>
    rw [List.forall_mem_cons] at hws
    obtain ⟨⟨h₁, h₂⟩, hrest⟩ := hws
    have hw : w.1 + w.2.length ≤ mem.length := by omega
    obtain ⟨mem', hmem', hlen⟩ := ih (h.trans (length_splice hw).ge) hrest
    exact ⟨mem', stores_cons_eq_some.mpr ⟨hw, hmem'⟩, hlen.trans (length_splice hw)⟩

/-- A window holds what it held, when no store touches it. -/
theorem window_stores {ws : List (ℕ × List α)} (h : stores mem ws = some mem')
    (hws : ∀ w ∈ ws, Outside a len w) : window mem' a len = window mem a len := by
  induction ws generalizing mem with
  | nil =>
    cases h
    rfl
  | cons w ws ih =>
    rw [List.forall_mem_cons] at hws
    obtain ⟨hw, h⟩ := stores_cons_eq_some.mp h
    rw [ih h hws.2, window_splice_of_outside hw hws.1]

/-- A window holds what is stored in it last. -/
theorem window_stores_eq {ws ws' : List (ℕ × List α)}
    (h : stores mem (ws ++ (off, src) :: ws') = some mem')
    (hws' : ∀ w ∈ ws', Outside off src.length w) : window mem' off src.length = src := by
  induction ws generalizing mem with
  | nil =>
    obtain ⟨hw, h⟩ := stores_cons_eq_some.mp h
    rw [window_stores h hws', window_splice_self hw le_rfl, List.take_length]
  | cons w ws ih => exact ih (stores_cons_eq_some.mp h).2

end PartLib
