import PartLib.Ble.ConsoleLl
import PartLib.Ble.Server
import Mathlib.Logic.Function.Basic

/-!
# Printing to the console

Tasks print with `console_printf`, which sends the characters of its text one after another to
`tx_queue` with `console_ll_putc`; `link_task` takes them with `__link_tx` while a client is connected
and has enabled the notifications. `console` is these tasks, `link_task` and the event handler
together, where `__link_tx` goes on by one character at a time.

`console_ll_putc` does not wait for room in the queue, and asserts that there is some. So the
assertion holds at every character of a run if and only if at each of them fewer than 512 characters
have been printed that `link_task` has not taken (`putc_ok_iff`). Nothing bounds this number while no
client is connected.
-/

namespace PartLib.Ble

/-- A text that `console_printf` has formatted: at most `CONSOLE_PRINT_SIZE - 1` characters. -/
structure Text where
  chars : List UInt8
  lt : chars.length < consolePrintSize

/-- The server with its tasks, what `__link_tx` has stored in this call, the queue, what each task has
still to print, and whether an assertion has stopped the program. -/
structure Console (τ : Type) where
  server : Server
  buf : Line
  txQueue : List UInt8
  printing : τ → Option (List UInt8)
  stopped : Bool

/-- The moves: a task calls `console_printf`, puts its next character, and returns; the stack has an
event; `link_task` goes on by a statement, with what `malloc` returns; and `__link_tx` receives a
character, or times out. -/
inductive ConsoleInput (τ : Type)
  | printf (t : τ) (text : Text)
  | putc (t : τ)
  | returns (t : τ)
  | gatt (e : GattsEvent)
  | link (malloc : Option (ℕ → UInt8))
  | receive
  | timeout

/-- What is seen: the calls of the server, and an assertion that fails. -/
inductive ConsoleOut
  | server (o : ServerOut)
  | assertFailed
  deriving DecidableEq

section

variable {τ : Type}

/-- A character stored after those of the buffer. -/
def Line.snoc (buf : Line) (tmp : UInt8) (h : buf.bytes.length < uplinkBufsize) : Line :=
  ⟨buf.bytes ++ [tmp], by rw [List.length_append]; exact h⟩

/-- A statement of `link_task`, where a read stores `line`. -/
def Console.link (s : Console τ) (line : Line) (malloc : Option (ℕ → UInt8)) :
    Option (Console τ × List ConsoleOut) :=
  (linkStep s.server.spp ⟨line, malloc⟩ s.server.link).map fun r =>
    ({ s with server := { s.server with link := r.1 }, buf := ⟨[], Nat.zero_le _⟩ },
      r.2.map fun a => .server (.inr a))

/-- `__link_tx` receives the character `tmp`, and returns after a null character, after a newline, and
when the buffer is full. -/
def Console.receive (s : Console τ) (tmp : UInt8) (rest : List UInt8) :
    Option (Console τ × List ConsoleOut) :=
  if tmp = 0 then { s with txQueue := rest }.link s.buf none
  else if h : s.buf.bytes.length < uplinkBufsize then
    if tmp = newline ∨ s.buf.bytes.length + 1 = uplinkBufsize then
      { s with txQueue := rest }.link (s.buf.snoc tmp h) none
    else some ({ s with txQueue := rest, buf := s.buf.snoc tmp h }, [])
  else none

end

/-- The console with the printing tasks `τ`. -/
def console (τ : Type) [DecidableEq τ] : Machine (Console τ) (ConsoleInput τ) ConsoleOut where
  init := ⟨.init, ⟨[], Nat.zero_le _⟩, [], fun _ => none, false⟩
  step s i :=
    if s.stopped then none
    else
      match i with
      | .printf t text =>
        match s.printing t with
        | none => some ({ s with printing := Function.update s.printing t (some text.chars) }, [])
        | some _ => none
      | .putc t =>
        match s.printing t with
        | some (c :: rest) =>
          if s.txQueue.length < consolePrintSize then
            some ({ s with
              txQueue := s.txQueue ++ [c]
              printing := Function.update s.printing t (some rest) }, [])
          else some ({ s with stopped := true }, [.assertFailed])
        | _ => none
      | .returns t =>
        match s.printing t with
        | some [] => some ({ s with printing := Function.update s.printing t none }, [])
        | _ => none
      | .gatt e =>
        (s.server.gatt e).map fun r => ({ s with server := r.1 }, r.2.map .server)
      | .link malloc =>
        if s.server.link.pc = .read then none else s.link ⟨[], Nat.zero_le _⟩ malloc
      | .receive =>
        match s.txQueue with
        | tmp :: rest => if s.server.link.pc = .read then s.receive tmp rest else none
        | [] => none
      | .timeout =>
        if s.server.link.pc = .read ∧ s.txQueue = [] then s.link s.buf none else none

/-! ## Characters printed and characters taken -/

section

variable {τ : Type} [DecidableEq τ] {s s' : Console τ} {i : ConsoleInput τ} {o : List ConsoleOut}
  {h : List (ConsoleInput τ)}

/-- The input puts a character. -/
def ConsoleInput.isPutc : ConsoleInput τ → Bool
  | .putc _ => true
  | _ => false

/-- The input takes a character. -/
def ConsoleInput.isReceive : ConsoleInput τ → Bool
  | .receive => true
  | _ => false

/-- A character is put only while fewer than `CONSOLE_PRINT_SIZE` of those put before have not been
taken. -/
def Drained (h : List (ConsoleInput τ)) (i : ConsoleInput τ) : Prop :=
  i.isPutc → h.countP ConsoleInput.isPutc < h.countP ConsoleInput.isReceive + consolePrintSize

instance (h : List (ConsoleInput τ)) (i : ConsoleInput τ) : Decidable (Drained h i) :=
  inferInstanceAs (Decidable (_ → _))

/-- The queue holds the characters put and not taken, until an assertion fails. -/
def Balanced (h : List (ConsoleInput τ)) (s : Console τ) : Prop :=
  s.stopped = false →
    h.countP ConsoleInput.isPutc = h.countP ConsoleInput.isReceive + s.txQueue.length

/-- What a step does with the queue: it leaves it, takes a character, puts one, or fails to. -/
inductive QueueMove (s : Console τ) : ConsoleInput τ → Console τ → List ConsoleOut → Prop
  | quiet {i : ConsoleInput τ} {s' : Console τ} {o : List ConsoleOut} (hputc : i.isPutc = false)
      (hreceive : i.isReceive = false) (hqueue : s'.txQueue = s.txQueue)
      (hstopped : s'.stopped = false) (ho : .assertFailed ∉ o) : QueueMove s i s' o
  | taken {s' : Console τ} {o : List ConsoleOut} {tmp : UInt8}
      (hqueue : s.txQueue = tmp :: s'.txQueue) (hstopped : s'.stopped = false)
      (ho : .assertFailed ∉ o) : QueueMove s .receive s' o
  | put {s' : Console τ} {t : τ} {c : UInt8} (hroom : s.txQueue.length < consolePrintSize)
      (hqueue : s'.txQueue = s.txQueue ++ [c]) (hstopped : s'.stopped = false) :
      QueueMove s (.putc t) s' []
  | failed {s' : Console τ} {t : τ} (hfull : ¬ s.txQueue.length < consolePrintSize)
      (hstopped : s'.stopped = true) : QueueMove s (.putc t) s' [.assertFailed]

omit [DecidableEq τ] in
/-- A statement of `link_task` leaves the queue. -/
theorem Console.link_frame {line : Line} {malloc : Option (ℕ → UInt8)}
    (h : s.link line malloc = some (s', o)) :
    s'.txQueue = s.txQueue ∧ s'.stopped = s.stopped ∧ .assertFailed ∉ o := by
  obtain ⟨r, -, heq⟩ := Option.map_eq_some_iff.mp h
  cases heq
  exact ⟨rfl, rfl, by simp⟩

omit [DecidableEq τ] in
/-- `__link_tx` has taken the character, whether or not it returns. -/
theorem Console.receive_frame {tmp : UInt8} {rest : List UInt8}
    (h : s.receive tmp rest = some (s', o)) :
    s'.txQueue = rest ∧ s'.stopped = s.stopped ∧ .assertFailed ∉ o := by
  rw [Console.receive] at h
  split_ifs at h
  · exact Console.link_frame h
  · exact Console.link_frame h
  · cases h
    exact ⟨rfl, rfl, by simp⟩

/-- A step is taken while no assertion has failed, and does one of these with the queue. -/
theorem console_step (hstep : (console τ).step s i = some (s', o)) :
    s.stopped = false ∧ QueueMove s i s' o := by
  simp only [console] at hstep
  by_cases hstopped : s.stopped
  · rw [if_pos hstopped] at hstep
    cases hstep
  rw [if_neg hstopped] at hstep
  have hrunning : s.stopped = false := by simpa using hstopped
  refine ⟨hrunning, ?_⟩
  cases i with
  | printf t text =>
    dsimp only at hstep
    split at hstep <;> cases hstep
    exact .quiet rfl rfl rfl hrunning (by simp)
  | putc t =>
    dsimp only at hstep
    split at hstep
    · split_ifs at hstep with hroom <;> cases hstep
      · exact .put hroom rfl hrunning
      · exact .failed hroom rfl
    · cases hstep
  | returns t =>
    dsimp only at hstep
    split at hstep <;> cases hstep
    exact .quiet rfl rfl rfl hrunning (by simp)
  | gatt e =>
    obtain ⟨r, -, heq⟩ := Option.map_eq_some_iff.mp hstep
    cases heq
    exact .quiet rfl rfl rfl hrunning (by simp)
  | link malloc =>
    dsimp only at hstep
    split_ifs at hstep
    obtain ⟨hqueue, hstop, ho⟩ := Console.link_frame hstep
    exact .quiet rfl rfl hqueue (hstop.trans hrunning) ho
  | receive =>
    dsimp only at hstep
    split at hstep
    case h_1 tmp rest hqueue =>
      split_ifs at hstep
      obtain ⟨hrest, hstop, ho⟩ := Console.receive_frame hstep
      exact .taken (hrest ▸ hqueue) (hstop.trans hrunning) ho
    case h_2 => cases hstep
  | timeout =>
    dsimp only at hstep
    split_ifs at hstep
    obtain ⟨hqueue, hstop, ho⟩ := Console.link_frame hstep
    exact .quiet rfl rfl hqueue (hstop.trans hrunning) ho

/-- A step keeps the balance. -/
theorem Balanced.step (hs : Balanced h s) (hstep : (console τ).step s i = some (s', o)) :
    Balanced (h ++ [i]) s' := by
  obtain ⟨hrunning, hmove⟩ := console_step hstep
  have hbalance := hs hrunning
  intro hstopped'
  rw [List.countP_append, List.countP_append]
  cases hmove with
  | quiet hputc hreceive hqueue _ _ =>
    rw [hqueue]
    simpa [hputc, hreceive] using hbalance
  | taken hqueue _ _ =>
    rw [hqueue, List.length_cons] at hbalance
    simp [ConsoleInput.isPutc, ConsoleInput.isReceive]
    omega
  | put _ hqueue _ =>
    rw [hqueue, List.length_append]
    simp [ConsoleInput.isPutc, ConsoleInput.isReceive]
    omega
  | failed _ hstopped =>
    rw [hstopped] at hstopped'
    cases hstopped'

/-- The assertion of a step holds exactly when the queue has been drained. -/
theorem Balanced.assert_iff (hs : Balanced h s) (hstep : (console τ).step s i = some (s', o)) :
    .assertFailed ∉ o ↔ Drained h i := by
  obtain ⟨hrunning, hmove⟩ := console_step hstep
  have hbalance := hs hrunning
  cases hmove with
  | quiet hputc _ _ _ ho => simp [Drained, hputc, ho]
  | taken _ _ ho => simp [Drained, ConsoleInput.isPutc, ho]
  | put hroom _ _ =>
    simp only [Drained, List.not_mem_nil, not_false_eq_true, true_iff]
    intro _
    omega
  | failed hfull _ =>
    simp only [Drained, ConsoleInput.isPutc, List.mem_singleton, not_true_eq_false, false_iff,
      forall_const]
    omega

end

/-- In every run, with any tasks printing, no assertion fails if and only if each character is put
while fewer than `CONSOLE_PRINT_SIZE` characters have been put that `__link_tx` has not taken. -/
theorem putc_ok_iff (τ : Type) [DecidableEq τ] (inputs : List (ConsoleInput τ)) :
    ((console τ).AllSteps inputs fun _ _ _ _ o => .assertFailed ∉ o) ↔
      (console τ).AllSteps inputs fun h _ i _ _ => Drained h i :=
  Machine.allSteps_congr Balanced (fun _ => rfl) (fun _ _ _ _ _ hs hstep => hs.step hstep)
    fun _ _ _ _ _ hs hstep => hs.assert_iff hstep

/-- A text of 511 characters. -/
def longText : Text := ⟨List.replicate 511 120, by rw [List.length_replicate]; decide⟩

/-- A task prints two such texts, while no client is connected. -/
def twoTexts : List (ConsoleInput Unit) :=
  .printf () longText :: List.replicate 511 (.putc ()) ++
    [.returns (), .printf () longText, .putc (), .putc ()]

/-- The second character of the second text finds the queue full. -/
theorem putc_fails_without_client :
    ¬ (console Unit).AllSteps twoTexts fun _ _ _ _ o => .assertFailed ∉ o := by
  decide +kernel

end PartLib.Ble
