import PartLib.Lib.Memory
import Mathlib.Data.List.Perm.Subperm

/-!
# Linked lists on a heap

`Segment` says that the nodes of a list, each with its address, lie on the heap one after the other:
the `next` pointer of each leads to the following one, and that of the last to the pointer after the
segment. A list that ends in the null pointer is a segment up to `none`.
-/

namespace PartLib

variable {β : Type*} (next : β → Option ℕ)

/-- Following `next` from the pointer `p`, the nodes of `l` come in order, and then `q`. -/
def Segment (heap : Heap β) : Option ℕ → List (ℕ × β) → Option ℕ → Prop
  | p, [], q => p = q
  | p, (a, n) :: l, q => p = some a ∧ heap.lookup a = some n ∧ Segment heap (next n) l q

variable {next}

/-- A segment of an append is a segment up to the point between its parts, and one from there. -/
theorem segment_append {heap : Heap β} {p q : Option ℕ} {l₁ l₂ : List (ℕ × β)} :
    Segment next heap p (l₁ ++ l₂) q ↔
      ∃ m, Segment next heap p l₁ m ∧ Segment next heap m l₂ q := by
  induction l₁ generalizing p with
  | nil => simp [Segment]
  | cons x l₁ ih =>
    simp only [List.cons_append, Segment, ih]
    constructor
    · rintro ⟨hp, hx, m, h₁, h₂⟩
      exact ⟨m, ⟨hp, hx, h₁⟩, h₂⟩
    · rintro ⟨m, ⟨hp, hx, h₁⟩, h₂⟩
      exact ⟨hp, hx, m, h₁, h₂⟩

/-- From the null pointer to the null pointer there is no node. -/
theorem Segment.eq_nil {heap : Heap β} {p q : Option ℕ} {l : List (ℕ × β)}
    (h : Segment next heap p l q) (hp : p = none) : l = [] := by
  cases l with
  | nil => rfl
  | cons x l =>
    obtain ⟨hsome, -⟩ := h
    rw [hp] at hsome
    cases hsome

/-- The nodes of a segment are live. -/
theorem Segment.lookup {heap : Heap β} {p q : Option ℕ} {l : List (ℕ × β)}
    (h : Segment next heap p l q) : ∀ x ∈ l, heap.lookup x.1 = some x.2 := by
  induction l generalizing p with
  | nil => simp
  | cons y l ih =>
    obtain ⟨-, hy, h⟩ := h
    intro x hx
    rcases List.mem_cons.mp hx with rfl | hx
    · exact hy
    · exact ih h x hx

/-- A segment only depends on the heap at its own addresses. -/
theorem Segment.congr {heap heap' : Heap β} {p q : Option ℕ} {l : List (ℕ × β)}
    (h : Segment next heap p l q)
    (hl : ∀ x ∈ l, heap'.lookup x.1 = heap.lookup x.1) : Segment next heap' p l q := by
  induction l generalizing p with
  | nil => exact h
  | cons y l ih =>
    obtain ⟨hp, hy, h⟩ := h
    refine ⟨hp, ?_, ih h fun x hx => hl x (List.mem_cons_of_mem _ hx)⟩
    rw [hl y List.mem_cons_self, hy]

/-- Writing a block outside a segment leaves it. -/
theorem Segment.insert {heap : Heap β} {p q : Option ℕ} {l : List (ℕ × β)}
    (h : Segment next heap p l q) {a : ℕ} (ha : a ∉ l.map Prod.fst) (n : β) :
    Segment next (heap.insert a n) p l q := by
  refine h.congr fun x hx => AList.lookup_insert_ne ?_
  rintro rfl
  exact ha (List.mem_map_of_mem hx)

/-- Freeing a block outside a segment leaves it. -/
theorem Segment.erase {heap : Heap β} {p q : Option ℕ} {l : List (ℕ × β)}
    (h : Segment next heap p l q) {a : ℕ} (ha : a ∉ l.map Prod.fst) :
    Segment next (heap.erase a) p l q := by
  refine h.congr fun x hx => AList.lookup_erase_ne ?_
  rintro rfl
  exact ha (List.mem_map_of_mem hx)

/-- An address that is not live is not in a segment. -/
theorem Segment.notMem {heap : Heap β} {p q : Option ℕ} {l : List (ℕ × β)}
    (h : Segment next heap p l q) {a : ℕ} (ha : a ∉ heap) : a ∉ l.map Prod.fst := by
  intro hmem
  obtain ⟨x, hx, rfl⟩ := List.mem_map.mp hmem
  have := h.lookup x hx
  rw [AList.lookup_eq_none.mpr ha] at this
  cases this

/-- A segment of distinct addresses has at most as many nodes as there are live blocks. -/
theorem Segment.length_le {heap : Heap β} {p q : Option ℕ} {l : List (ℕ × β)}
    (h : Segment next heap p l q) (hnd : (l.map Prod.fst).Nodup) :
    l.length ≤ heap.entries.length := by
  -- The addresses are different keys of the heap.
  have hsub : l.map Prod.fst ⊆ heap.keys := by
    intro a ha
    obtain ⟨x, hx, rfl⟩ := List.mem_map.mp ha
    exact AList.mem_keys.mp (mem_of_lookup (h.lookup x hx))
  have hle := (List.subperm_of_subset hnd hsub).length_le
  rwa [List.length_map, AList.keys, List.keys, List.length_map] at hle

end PartLib
