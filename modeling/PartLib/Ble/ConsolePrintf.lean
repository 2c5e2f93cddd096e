import PartLib.Ble.ConsoleLl

/-!
# Formatting into the buffer of `console_printf`

`console_printf` formats its text into an array of `CONSOLE_PRINT_SIZE` bytes on the stack, and then
sends as many bytes from there as `vsnprintf` returns. This is the length of the whole text, also
where only its beginning is in the array. So for a text of `CONSOLE_PRINT_SIZE` bytes the null
character at the end is sent, and for a longer one the bytes of the stack behind the array
(`consolePrintf_iff`).
-/

namespace PartLib.Ble

/-- The stack from an array on, by the offset. -/
abbrev Stack := ℕ → UInt8

/-- The bytes that `vsnprintf` writes into an array of `size` bytes: the beginning of the text that
fits, and a null character. -/
def formatted (size : ℕ) (text : List UInt8) : List UInt8 := text.take (size - 1) ++ [0]

/-- `vsnprintf`, where `text` is what the format produces: the stack after it, and the length of the
whole text. -/
def vsnprintf (buf : Stack) (size : ℕ) (text : List UInt8) : Stack × ℤ :=
  (fun i => ((formatted size text)[i]?).getD (buf i), text.length)

/-- What `console_printf` does: it reads an element of its array, sends a byte to `tx_queue`, fails
the assertion that it was sent, and enables the transmission. -/
inductive PrintAct
  | read (i : ℕ)
  | send (c : UInt8)
  | assertFailed
  | enableTxCb
  deriving DecidableEq

/-- `console_ll_putc`, and what follows it. An assertion that fails ends the program. -/
def consoleLlPutc (room : Bool) (c : UInt8) (rest : List PrintAct) : List PrintAct :=
  if room then .send c :: rest else [.assertFailed]

/-- The loop of `console_printf`, with `todo` passes left, and what follows it. -/
def putcLoop (buf : Stack) (room : ℕ → Bool) : ℕ → ℕ → List PrintAct
  | 0, _ => [.enableTxCb]
  | todo + 1, i =>
    .read i :: consoleLlPutc (room i) (buf i) (putcLoop buf room todo (i + 1))

/-- `console_printf` of a text, where `buf` is the stack before, and `room` says whether `tx_queue`
has room for the next byte when `i` have been sent. -/
def consolePrintf (buf : Stack) (room : ℕ → Bool) (text : List UInt8) : List PrintAct :=
  let r := vsnprintf buf consolePrintSize text
  if 0 < r.2 then putcLoop r.1 room r.2.toNat 0 else []

/-- The bytes that are sent. -/
def sentBytes (acts : List PrintAct) : List UInt8 :=
  acts.filterMap fun a =>
    match a with
    | .send c => some c
    | _ => none

/-- While there is room, the loop reads and sends one byte after another. -/
theorem putcLoop_eq (buf : Stack) {room : ℕ → Bool} (hroom : ∀ i, room i = true) (todo i : ℕ) :
    putcLoop buf room todo i =
      ((List.range' i todo).flatMap fun j => [.read j, .send (buf j)]) ++ [.enableTxCb] := by
  induction todo generalizing i with
  | zero => rfl
  | succ todo ih =>
    rw [putcLoop, consoleLlPutc, if_pos (hroom i), ih, List.range'_succ, List.flatMap_cons]
    rfl

/-- While there is room, as many bytes are read and sent as the text has. -/
theorem consolePrintf_eq (buf : Stack) {room : ℕ → Bool} (hroom : ∀ i, room i = true)
    (text : List UInt8) :
    (∀ i, .read i ∈ consolePrintf buf room text ↔ i < text.length) ∧
      sentBytes (consolePrintf buf room text) =
        (List.range text.length).map (vsnprintf buf consolePrintSize text).1 := by
  have hrc : (vsnprintf buf consolePrintSize text).2 = text.length := rfl
  rw [consolePrintf, hrc]
  by_cases hpos : (0 : ℤ) < text.length
  · rw [if_pos hpos, putcLoop_eq _ hroom, Int.toNat_natCast, ← List.range_eq_range']
    refine ⟨fun i => by simp, ?_⟩
    rw [sentBytes, List.filterMap_append]
    generalize (vsnprintf buf consolePrintSize text).1 = stack
    induction List.range text.length with
    | nil => rfl
    | cons j js ih =>
      rw [List.flatMap_cons, List.filterMap_append, List.append_assoc, ih]
      rfl
  · rw [if_neg hpos]
    have hzero : text.length = 0 := by omega
    simp [hzero, sentBytes]

/-- With room in the queue, `console_printf` reads only what `vsnprintf` has written, and sends the
beginning of the text that fits into the array, if and only if the whole text fits. -/
theorem consolePrintf_iff (buf : Stack) {room : ℕ → Bool} (hroom : ∀ i, room i = true)
    (text : List UInt8) :
    ((∀ i, .read i ∈ consolePrintf buf room text →
        i < (formatted consolePrintSize text).length) ∧
      sentBytes (consolePrintf buf room text) = text.take (consolePrintSize - 1)) ↔
      text.length ≤ consolePrintSize - 1 := by
  obtain ⟨hreads, hsent⟩ := consolePrintf_eq buf hroom text
  constructor
  · rintro ⟨-, h⟩
    -- As many bytes are sent as the text has.
    have hlen := congrArg List.length (hsent.symm.trans h)
    rw [List.length_map, List.length_range, List.length_take] at hlen
    omega
  · intro hfit
    have htake : text.take (consolePrintSize - 1) = text := List.take_of_length_le hfit
    refine ⟨fun i hi => ?_, ?_⟩
    · rw [formatted, htake, List.length_append]
      exact Nat.lt_succ_of_lt ((hreads i).mp hi)
    · rw [hsent, htake]
      refine List.ext_getElem (by simp) fun i h₁ h₂ => ?_
      simp only [List.getElem_map, List.getElem_range, vsnprintf, formatted, htake]
      rw [List.getElem?_append_left h₂, List.getElem?_eq_getElem h₂, Option.getD_some]

/-- One character. -/
theorem consolePrintf_iff_one :
    ((∀ i, .read i ∈ consolePrintf (fun _ => 0) (fun _ => true) [65] →
        i < (formatted consolePrintSize [65]).length) ∧
      sentBytes (consolePrintf (fun _ => 0) (fun _ => true) [65]) =
        [65].take (consolePrintSize - 1)) ↔ [(65 : UInt8)].length ≤ consolePrintSize - 1 :=
  consolePrintf_iff _ (fun _ => rfl) _

/-- Of a text of 512 characters, 511 fit, and 512 bytes are sent. -/
theorem consolePrintf_overreads :
    ¬ ∀ (buf : Stack) (room : ℕ → Bool) (text : List UInt8), (∀ i, room i = true) →
      (∀ i, .read i ∈ consolePrintf buf room text →
        i < (formatted consolePrintSize text).length) ∧
      sentBytes (consolePrintf buf room text) = text.take (consolePrintSize - 1) := by
  intro h
  obtain ⟨-, hsent⟩ := h (fun _ => 0) (fun _ => true) (List.replicate 512 65) fun _ => rfl
  rw [(consolePrintf_eq _ (fun _ => rfl) _).2] at hsent
  have hlen := congrArg List.length hsent
  rw [List.length_map, List.length_range, List.length_take, List.length_replicate] at hlen
  exact absurd hlen (by decide)

end PartLib.Ble
