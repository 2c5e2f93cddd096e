import PartLib.Lib.Memory
import Mathlib.Data.List.TakeWhile

/-!
# Strings that end in a null character

An array holds a string when it has a null character: `cstr` is the bytes before the first one, and
has no result when reading would leave the array. `strncmp` likewise has no result when it would
read past one of its arrays before it has decided.
-/

namespace PartLib

/-- The string that an array holds. -/
def cstr (buf : List UInt8) : Option (List UInt8) :=
  if 0 ∈ buf then some (buf.takeWhile (· ≠ 0)) else none

/-- `sprintf (buf, "%s", s)`: the string and a null character, when the array has the room. -/
def sprintfString (buf s : List UInt8) : Option (List UInt8) :=
  memcpy buf 0 (s ++ [0]) 0 (s.length + 1)

/-- `strncmp`: zero, or the difference of the first two bytes that differ. -/
def strncmp : List UInt8 → List UInt8 → ℕ → Option ℤ
  | _, _, 0 => some 0
  | a :: s₁, b :: s₂, n + 1 =>
    if a ≠ b then some ((a.toNat : ℤ) - b.toNat) else if a = 0 then some 0 else strncmp s₁ s₂ n
  | _, _, _ + 1 => none

/-- An array that starts with a string and a null character holds the string. -/
theorem cstr_append {s rest : List UInt8} (hs : 0 ∉ s) : cstr (s ++ 0 :: rest) = some s := by
  have hall : ∀ a ∈ s, (decide (a ≠ 0)) = true := by
    intro a ha
    exact decide_eq_true fun h => hs (h ▸ ha)
  rw [cstr, if_pos (by simp), List.takeWhile_append_of_pos hall]
  simp

/-- The array of a string is the string, a null character, and a rest. -/
theorem eq_append_of_cstr {buf s : List UInt8} (h : cstr buf = some s) :
    0 ∉ s ∧ ∃ rest, buf = s ++ 0 :: rest := by
  unfold cstr at h
  split_ifs at h with hmem
  obtain rfl := Option.some.inj h
  constructor
  · intro h0
    simpa using List.mem_takeWhile_imp h0
  · induction buf with
    | nil => simp at hmem
    | cons a buf ih =>
      by_cases ha : a = 0
      · exact ⟨buf, by simp [ha]⟩
      · obtain ⟨rest, hrest⟩ := ih ((List.mem_cons.mp hmem).resolve_left (Ne.symm ha)) rfl
        refine ⟨rest, ?_⟩
        rw [List.takeWhile_cons_of_pos (by simpa using ha), List.cons_append, ← hrest]

/-- A string that fits is the string of the array afterwards. -/
theorem sprintfString_spec {buf s : List UInt8} (hs : 0 ∉ s) (hlen : s.length < buf.length) :
    ∃ buf', sprintfString buf s = some buf' ∧ buf'.length = buf.length ∧ cstr buf' = some s := by
  have hcopy := @memcpy_natCast _ buf (s ++ [0]) 0 0 (s.length + 1) (by omega) (by simp)
  rw [List.drop_zero, List.take_of_length_le (by simp)] at hcopy
  refine ⟨_, hcopy, length_splice (by simp; omega), ?_⟩
  rw [splice, List.take_zero, List.nil_append, List.append_assoc, List.singleton_append]
  exact cstr_append hs

/-- Comparing as many bytes as `t` has with the string `s` gives zero when `t` is a prefix of `s`,
or goes on after `s` with a null character. -/
theorem strncmp_spec {buf s : List UInt8} (h : cstr buf = some s) (t : List UInt8) :
    ∃ c, strncmp t buf t.length = some c ∧ (c = 0 ↔ t <+: s ∨ s ++ [0] <+: t) := by
  obtain ⟨hs, rest, rfl⟩ := eq_append_of_cstr h
  clear h
  induction t generalizing s with
  | nil => exact ⟨0, rfl, by simp⟩
  | cons a t ih =>
    cases s with
    | nil =>
      -- The string has ended: the next byte is compared with its null character.
      simp only [List.nil_append, strncmp, List.length_cons]
      by_cases ha : a = 0
      · exact ⟨0, by simp [ha], by simp [ha]⟩
      · refine ⟨_, if_pos ha, ?_⟩
        have hne : a.toNat ≠ 0 := fun h => ha (UInt8.toNat_inj.mp h)
        simp [hne, Ne.symm ha]
    | cons b s =>
      simp only [List.cons_append, strncmp, List.length_cons]
      by_cases hab : a = b
      · subst hab
        have ha : a ≠ 0 := fun h => hs (h ▸ List.mem_cons_self)
        obtain ⟨c, hc, hiff⟩ := ih (fun h => hs (List.mem_cons_of_mem _ h))
        refine ⟨c, by rw [if_neg (by simp), if_neg ha, hc], ?_⟩
        simpa using hiff
      · refine ⟨_, if_pos hab, ?_⟩
        have hne : ¬ (a.toNat : ℤ) - b.toNat = 0 := by
          intro h0
          exact hab (UInt8.toNat_inj.mp (by omega))
        simp [hne, hab, Ne.symm hab]

end PartLib
