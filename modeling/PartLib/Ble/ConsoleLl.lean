import PartLib.Ble.LinkTask

/-!
# The lines of the console

`linkTx` is `__link_tx` of `console_ll.c`, the read callback of `link_task`: it takes characters
from the queue up to a newline, a null character, a receive timeout, or the limit on the length.
-/

namespace PartLib.Ble

/-- `CONSOLE_PRINT_SIZE`, the length of the two queues. -/
def consolePrintSize : ℕ := 512

/-- `CONSOLE_LL_NEWLINE`. -/
def newline : UInt8 := 0x0a

/-- `__link_tx`, given what `xQueueReceive` returns one call after another, where `none` is a
timeout: the bytes stored in `buf`, whose number it returns. The queue stays empty after the last
answer of the list. -/
def linkTx : ℕ → List (Option UInt8) → List UInt8
  | 0, _ => []
  | _ + 1, [] => []
  | _ + 1, none :: _ => []
  | length + 1, some tmp :: answers =>
    if tmp ≠ 0 then
      if tmp = newline then [tmp] else tmp :: linkTx length answers
    else
      []

/-- A line that the console can deliver: 1 to 512 bytes, no null character, and no newline but at
the end. -/
structure Deliverable (line : List UInt8) : Prop where
  ne_nil : line ≠ []
  length_le : line.length ≤ uplinkBufsize
  no_null : 0 ∉ line
  newline_last : newline ∉ line.dropLast

instance (line : List UInt8) : Decidable (Deliverable line) :=
  decidable_of_iff
    (line ≠ [] ∧ line.length ≤ uplinkBufsize ∧ 0 ∉ line ∧ newline ∉ line.dropLast)
    ⟨fun ⟨h₁, h₂, h₃, h₄⟩ => ⟨h₁, h₂, h₃, h₄⟩, fun ⟨h₁, h₂, h₃, h₄⟩ => ⟨h₁, h₂, h₃, h₄⟩⟩

/-- What the read callback stores. -/
theorem linkTx_spec (length : ℕ) (answers : List (Option UInt8)) :
    (linkTx length answers).length ≤ length ∧ 0 ∉ linkTx length answers ∧
      newline ∉ (linkTx length answers).dropLast := by
  induction length, answers using linkTx.induct with
  | case1 => simp [linkTx]
  | case2 => simp [linkTx]
  | case3 => simp [linkTx]
  | case4 length answers hnull => simp [linkTx, hnull, Ne.symm hnull]
  | case5 length tmp answers hnull hnl ih =>
    obtain ⟨hlen, hno, hlast⟩ := ih
    simp only [linkTx, hnull, hnl, ne_eq, not_false_eq_true, if_true, if_false]
    refine ⟨by simpa using hlen, by simp [hno, Ne.symm hnull], ?_⟩
    -- The character is the last of the line when nothing is stored after it.
    cases hrest : linkTx length answers with
    | nil => simp
    | cons a l =>
      rw [hrest] at hlast
      rw [List.dropLast_cons_of_ne_nil (by simp), List.mem_cons]
      rintro (h | h)
      · exact hnl h.symm
      · exact hlast h
  | case6 length tmp answers hnull => simp [linkTx, hnull]

/-- Bytes that arrive one after another, without a null character and with no newline but at the
end, are a line. -/
theorem linkTx_map_some {length : ℕ} : ∀ {line : List UInt8}, line.length ≤ length → 0 ∉ line →
    newline ∉ line.dropLast → linkTx length (line.map some) = line := by
  induction length with
  | zero =>
    intro line hlen _ _
    rw [List.length_eq_zero_iff.mp (Nat.le_zero.mp hlen), linkTx]
  | succ length ih =>
    intro line hlen hnull hlast
    cases line with
    | nil => rfl
    | cons a l =>
      have ha : a ≠ 0 := fun h => hnull (h ▸ List.mem_cons_self)
      rw [List.map_cons, linkTx, if_pos ha]
      cases l with
      | nil => cases length <;> split_ifs <;> rfl
      | cons b l =>
        rw [List.dropLast_cons_of_ne_nil (by simp), List.mem_cons, not_or] at hlast
        rw [if_neg (Ne.symm hlast.1), ih (by simpa using hlen)
          (fun h => hnull (List.mem_cons_of_mem _ h)) hlast.2]

/-- The lines that can be delivered are those that the read callback stores, when it stores
anything. -/
theorem deliverable_iff (line : List UInt8) :
    Deliverable line ↔ line ≠ [] ∧ ∃ answers, linkTx uplinkBufsize answers = line := by
  constructor
  · intro h
    exact ⟨h.ne_nil, _, linkTx_map_some h.length_le h.no_null h.newline_last⟩
  · rintro ⟨hne, answers, rfl⟩
    obtain ⟨hlen, hnull, hlast⟩ := linkTx_spec uplinkBufsize answers
    exact ⟨hne, hlen, hnull, hlast⟩

end PartLib.Ble
