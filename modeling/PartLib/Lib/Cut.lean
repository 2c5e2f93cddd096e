import Mathlib.Data.Stream.Init

/-!
# Cutting a stream into pieces

A reader takes the elements of an infinite stream one after another. Each element says by itself
what the reader does: it stores something and goes on, stores something and stops, or stops; and
the reader stops when it has stored as much as it may. `cut` is the piece that it stores and the
rest of the stream, and `cuts` are the pieces of several readings.

No element is lost: the pieces together are what the elements taken from the stream store
(`cuts_consumes`).
-/

namespace PartLib

variable {α β : Type*}

/-- What a reader does with an element. -/
inductive Verdict (β : Type*)
  | next (b : β)
  | last (b : β)
  | stop

/-- What the reader stores. -/
def Verdict.stored : Verdict β → Option β
  | .next b => some b
  | .last b => some b
  | .stop => none

/-- The piece of at most `n` elements that is cut from a stream, and the rest of the stream. -/
def cut (v : α → Verdict β) : ℕ → Stream' α → List β × Stream' α
  | 0, s => ([], s)
  | n + 1, s =>
    match v s.head with
    | .next b => (b :: (cut v n s.tail).1, (cut v n s.tail).2)
    | .last b => ([b], s.tail)
    | .stop => ([], s.tail)

/-- The pieces that are cut one after another, each with its own limit, and the rest. -/
def cuts (v : α → Verdict β) : List ℕ → Stream' α → List (List β) × Stream' α
  | [], s => ([], s)
  | n :: ns, s =>
    ((cut v n s).1 :: (cuts v ns (cut v n s).2).1, (cuts v ns (cut v n s).2).2)

/-- A piece keeps its limit. -/
theorem length_cut_le (v : α → Verdict β) (n : ℕ) (s : Stream' α) : (cut v n s).1.length ≤ n := by
  induction n generalizing s with
  | zero => simp [cut]
  | succ n ih =>
    rw [cut]
    cases v s.head with
    | next b => simpa using ih s.tail
    | last b => simp
    | stop => simp

/-- The elements of a piece are stored by elements of the stream. -/
theorem mem_cut {v : α → Verdict β} {n : ℕ} {s : Stream' α} {b : β} (h : b ∈ (cut v n s).1) :
    ∃ a, (v a).stored = some b := by
  induction n generalizing s with
  | zero => simp [cut] at h
  | succ n ih =>
    rw [cut] at h
    cases hv : v s.head with
    | next c =>
      simp only [hv, List.mem_cons] at h
      rcases h with rfl | h
      · exact ⟨s.head, by rw [hv, Verdict.stored]⟩
      · exact ih h
    | last c =>
      simp only [hv, List.mem_singleton] at h
      exact ⟨s.head, by rw [hv, Verdict.stored, h]⟩
    | stop => simp [hv] at h

/-- The reader goes on after every element of a piece but the last. -/
theorem mem_cut_dropLast {v : α → Verdict β} {n : ℕ} {s : Stream' α} {b : β}
    (h : b ∈ (cut v n s).1.dropLast) : ∃ a, v a = .next b := by
  induction n generalizing s with
  | zero => simp [cut] at h
  | succ n ih =>
    rw [cut] at h
    cases hv : v s.head with
    | next c =>
      simp only [hv] at h
      by_cases hnil : (cut v n s.tail).1 = []
      · simp [hnil] at h
      · rw [List.dropLast_cons_of_ne_nil hnil, List.mem_cons] at h
        rcases h with rfl | h
        · exact ⟨s.head, hv⟩
        · exact ih h
    | last c => simp [hv] at h
    | stop => simp [hv] at h

/-- A piece is what the elements taken from the stream store. -/
theorem cut_consumes (v : α → Verdict β) (n : ℕ) (s : Stream' α) :
    ∃ k, (cut v n s).2 = s.drop k ∧ (cut v n s).1 = (s.take k).filterMap fun a => (v a).stored := by
  induction n generalizing s with
  | zero => exact ⟨0, rfl, rfl⟩
  | succ n ih =>
    rw [cut]
    cases hv : v s.head with
    | next b =>
      obtain ⟨k, hrest, hpiece⟩ := ih s.tail
      refine ⟨k + 1, hrest, ?_⟩
      rw [Stream'.take_succ, List.filterMap_cons, hv, ← hpiece]
      rfl
    | last b => exact ⟨1, rfl, by simp [Stream'.take_succ, hv, Verdict.stored]⟩
    | stop => exact ⟨1, rfl, by simp [Stream'.take_succ, hv, Verdict.stored]⟩

/-- The pieces together are what the elements taken from the stream store. -/
theorem cuts_consumes (v : α → Verdict β) (ns : List ℕ) (s : Stream' α) :
    ∃ k, (cuts v ns s).2 = s.drop k ∧
      (cuts v ns s).1.flatten = (s.take k).filterMap fun a => (v a).stored := by
  induction ns generalizing s with
  | nil => exact ⟨0, rfl, rfl⟩
  | cons n ns ih =>
    obtain ⟨k, hrest, hpiece⟩ := cut_consumes v n s
    obtain ⟨k', hrest', hpieces⟩ := ih (cut v n s).2
    refine ⟨k + k', ?_, ?_⟩
    · rw [cuts, hrest', hrest, Stream'.drop_drop]
    · rw [cuts, List.flatten_cons, hpieces, hrest, hpiece, ← List.filterMap_append,
        Stream'.take_add]

end PartLib
