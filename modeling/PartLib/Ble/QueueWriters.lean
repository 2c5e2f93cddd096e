import PartLib.Ble.ConsoleLl
import PartLib.Lib.Machine

/-!
# The two writers of the queues

`__link_rx` sends the bytes of a value to `rx_queue` without waiting for room, and
`console_ll_putline` those of a line to `tx_queue`, where it waits a second for room. A consumer
takes bytes from the queue meanwhile. `linkRx` and `consoleLlPutline` are a call of a writer together
with the consumer: the writer goes on by one byte, and the consumer takes one, in any order.

Both append the beginning of their bytes, up to the first one that is refused. Only
`console_ll_putline` returns how many these are: the loop of `__link_rx` declares a counter of its
own, and the function returns the other one, which stays zero (`writers_return_iff`).
-/

namespace PartLib.Ble.QueueWriters

/-- A call of a writer: the queue, the counter of the loop, the variable that the function returns,
and what it has returned. -/
structure Writer where
  queue : List UInt8
  i : ℕ
  count : ℤ
  rc : Option ℤ
  deriving DecidableEq

/-- The moves: the writer goes on, the time that it waits for room is over, and the consumer takes a
byte. -/
inductive WriterInput
  | write
  | timeout
  | take
  deriving DecidableEq

/-- What is seen: a byte that is appended, one that is refused, and one that the consumer takes. -/
inductive WriterOut
  | sent (tmp : UInt8)
  | refused (tmp : UInt8)
  | taken (tmp : UInt8)
  deriving DecidableEq

/-- The consumer takes a byte. -/
def Writer.take (s : Writer) : Option (Writer × List WriterOut) :=
  match s.queue with
  | tmp :: rest => some ({ s with queue := rest }, [.taken tmp])
  | [] => none

/-- `__link_rx` of the bytes `src`, with `rx_queue` created and holding `queue`. The counter `i` of
the loop hides the variable that is returned, here `count`. -/
def linkRx (src queue : List UInt8) : Machine Writer WriterInput WriterOut where
  init := ⟨queue, 0, 0, none⟩
  step s input :=
    match input with
    | .take => s.take
    | .timeout => none
    | .write =>
      if s.rc.isSome then none
      else
        match src[s.i]? with
        | some tmp =>
          if s.queue.length < consolePrintSize then
            some ({ s with queue := s.queue ++ [tmp], i := s.i + 1 }, [.sent tmp])
          else
            -- The send does not wait; the loop counts the byte and ends.
            some ({ s with i := s.i + 1, rc := some s.count }, [.refused tmp])
        | none => some ({ s with rc := some s.count }, [])

/-- What `console_ll_putline` returns, when `tx_cntr` bytes are sent. -/
def putlineReturn (tx_cntr : ℤ) : ℤ := if tx_cntr = 0 then -1 else tx_cntr

/-- `console_ll_putline` of the bytes `data`, with `tx_queue` holding `queue`. -/
def consoleLlPutline (data queue : List UInt8) : Machine Writer WriterInput WriterOut where
  init := ⟨queue, 0, 0, none⟩
  step s input :=
    match input with
    | .take => s.take
    | .write =>
      if s.rc.isSome then none
      else
        match data[s.i]? with
        | some tmp =>
          -- A send to a full queue waits.
          if s.queue.length < consolePrintSize then
            some ({ s with queue := s.queue ++ [tmp], i := s.i + 1, count := s.count + 1 },
              [.sent tmp])
          else none
        | none => some ({ s with rc := some (putlineReturn s.count) }, [])
    | .timeout =>
      if s.rc.isSome then none
      else
        match data[s.i]? with
        | some tmp =>
          if s.queue.length < consolePrintSize then none
          else some ({ s with rc := some (putlineReturn s.count) }, [.refused tmp])
        | none => none

/-- The bytes that are appended to the queue. -/
def appended (os : List WriterOut) : List UInt8 :=
  os.filterMap fun o =>
    match o with
    | .sent tmp => some tmp
    | _ => none

/-- The bytes that the consumer takes. -/
def taken (os : List WriterOut) : List UInt8 :=
  os.filterMap fun o =>
    match o with
    | .taken tmp => some tmp
    | _ => none

/-- The results of the sends, one after another. -/
def sends (os : List WriterOut) : List WriterOut :=
  os.filter fun o =>
    match o with
    | .taken _ => false
    | _ => true

/-- The bytes appended are the beginning of `data`, nothing is sent after the first byte that is
refused, and the queue holds what it held and what was appended, less what was taken. -/
structure Appends (data queue : List UInt8) (s : Writer) (os : List WriterOut) : Prop where
  isPrefix : appended os <+: data
  stops : sends os = (appended os).map .sent ∨
    ∃ tmp, data[(appended os).length]? = some tmp ∧
      sends os = (appended os).map .sent ++ [.refused tmp]
  queue_eq : queue ++ appended os = taken os ++ s.queue

/-- The writer sends its first byte only to a full queue. -/
def FirstRefused (data : List UInt8) (s : Writer) (input : WriterInput) : Prop :=
  input = .write → s.rc = none → s.i = 0 → data ≠ [] → consolePrintSize ≤ s.queue.length

instance (data : List UInt8) (s : Writer) (input : WriterInput) :
    Decidable (FirstRefused data s input) := inferInstanceAs (Decidable (_ → _))

/-! ## One step -/

/-- What a step of a writer of `data` does: it appends the next byte, is refused, returns, or the
consumer takes a byte. -/
inductive WriterMove (data : List UInt8) (s : Writer) : WriterInput → Writer → List WriterOut → Prop
  | sent {s' : Writer} {tmp : UInt8} (hrc : s.rc = none) (hrc' : s'.rc = none)
      (htmp : data[s.i]? = some tmp) (hroom : s.queue.length < consolePrintSize)
      (hqueue : s'.queue = s.queue ++ [tmp]) (hi : s'.i = s.i + 1) :
      WriterMove data s .write s' [.sent tmp]
  | refused {input : WriterInput} {s' : Writer} {tmp : UInt8} (hrc : s.rc = none)
      (hrc' : s'.rc.isSome = true) (htmp : data[s.i]? = some tmp)
      (hfull : ¬ s.queue.length < consolePrintSize) (hqueue : s'.queue = s.queue) :
      WriterMove data s input s' [.refused tmp]
  | returned {s' : Writer} (hrc : s.rc = none) (hrc' : s'.rc.isSome = true)
      (hend : data[s.i]? = none) (hqueue : s'.queue = s.queue) : WriterMove data s .write s' []
  | taken {s' : Writer} {tmp : UInt8} (hqueue : s.queue = tmp :: s'.queue) (hi : s'.i = s.i)
      (hrc : s'.rc = s.rc) : WriterMove data s .take s' [.taken tmp]

variable {data queue : List UInt8} {s s' : Writer} {input : WriterInput} {o os : List WriterOut}

/-- A step of the consumer leaves the variables of the writer. -/
theorem take_move (data : List UInt8) (h : s.take = some (s', o)) :
    WriterMove data s .take s' o ∧ s'.count = s.count ∧ s'.rc = s.rc ∧ appended o = [] := by
  unfold Writer.take at h
  split at h
  case h_1 tmp rest hqueue =>
    cases h
    exact ⟨.taken hqueue rfl rfl, rfl, rfl, rfl⟩
  case h_2 => cases h

/-- A step of `__link_rx`, which leaves the variable that it returns. -/
theorem linkRx_step (h : (linkRx data queue).step s input = some (s', o)) :
    WriterMove data s input s' o ∧ s'.count = s.count ∧
      (s.rc = none → ∀ rc, s'.rc = some rc → rc = s'.count) := by
  cases input with
  | take =>
    obtain ⟨hmove, hcount, hrc, -⟩ := take_move data h
    exact ⟨hmove, hcount, fun hnone rc hsome => by rw [hrc, hnone] at hsome; cases hsome⟩
  | timeout => cases h
  | write =>
    simp only [linkRx] at h
    cases hrc : s.rc with
    | some rc => simp [hrc] at h
    | none =>
      simp only [hrc, Option.isSome_none, Bool.false_eq_true, if_false] at h
      split at h
      case h_1 tmp htmp =>
        split_ifs at h with hroom <;> cases h
        · exact ⟨.sent hrc rfl htmp hroom rfl rfl, rfl, fun _ _ hsome => by cases hsome⟩
        · exact ⟨.refused hrc rfl htmp hroom rfl, rfl, fun _ _ hsome => (Option.some.inj hsome).symm⟩
      case h_2 hend =>
        cases h
        exact ⟨.returned hrc rfl hend rfl, rfl, fun _ _ hsome => (Option.some.inj hsome).symm⟩

/-- A step of `console_ll_putline`, which counts the bytes that it appends. -/
theorem consoleLlPutline_step (h : (consoleLlPutline data queue).step s input = some (s', o)) :
    WriterMove data s input s' o ∧ s'.count = s.count + (appended o).length ∧
      (s.rc = none → ∀ rc, s'.rc = some rc → rc = putlineReturn s'.count) := by
  cases input with
  | take =>
    obtain ⟨hmove, hcount, hrc, hnil⟩ := take_move data h
    exact ⟨hmove, by rw [hcount, hnil]; simp,
      fun hnone rc hsome => by rw [hrc, hnone] at hsome; cases hsome⟩
  | timeout =>
    simp only [consoleLlPutline] at h
    cases hrc : s.rc with
    | some rc => simp [hrc] at h
    | none =>
      simp only [hrc, Option.isSome_none, Bool.false_eq_true, if_false] at h
      split at h
      case h_1 tmp htmp =>
        split_ifs at h with hroom
        cases h
        exact ⟨.refused hrc rfl htmp hroom rfl, by simp [appended],
          fun _ _ hsome => (Option.some.inj hsome).symm⟩
      case h_2 => cases h
  | write =>
    simp only [consoleLlPutline] at h
    cases hrc : s.rc with
    | some rc => simp [hrc] at h
    | none =>
      simp only [hrc, Option.isSome_none, Bool.false_eq_true, if_false] at h
      split at h
      case h_1 tmp htmp =>
        split_ifs at h with hroom
        cases h
        exact ⟨.sent hrc rfl htmp hroom rfl rfl, rfl, fun _ _ hsome => by cases hsome⟩
      case h_2 hend =>
        cases h
        exact ⟨.returned hrc rfl hend rfl, by simp [appended],
          fun _ _ hsome => (Option.some.inj hsome).symm⟩

/-- What holds of a writer in the course of a call: its counter is the number of the bytes appended,
and no byte is refused before it returns. -/
structure WriterInv (data queue : List UInt8) (os : List WriterOut) (s : Writer) : Prop where
  appends : Appends data queue s os
  counter : s.rc = none → s.i = (appended os).length ∧ sends os = (appended os).map .sent

/-- Before the first step. -/
theorem WriterInv.init (count : ℤ) : WriterInv data queue [] ⟨queue, 0, count, none⟩ :=
  ⟨⟨List.nil_prefix, .inl rfl, by simp [appended, taken]⟩, fun _ => ⟨rfl, rfl⟩⟩

/-- A step keeps it. -/
theorem WriterInv.move (hs : WriterInv data queue os s) (h : WriterMove data s input s' o) :
    WriterInv data queue (os ++ o) s' := by
  have hqueue := hs.appends.queue_eq
  cases h with
  | @sent _ tmp hrc hrc' htmp hroom hq hi =>
    obtain ⟨hcount, hsends⟩ := hs.counter hrc
    have happ : appended (os ++ [.sent tmp]) = appended os ++ [tmp] := List.filterMap_append
    have hnew : sends (os ++ [.sent tmp]) = (appended (os ++ [.sent tmp])).map .sent := by
      rw [happ, List.map_append, ← hsends]
      exact List.filter_append os [.sent tmp]
    rw [hcount] at htmp
    refine ⟨⟨?_, .inl hnew, ?_⟩, fun _ => ⟨?_, hnew⟩⟩
    · -- The byte is the next one of the data.
      obtain ⟨rest, hrest⟩ := hs.appends.isPrefix
      rw [happ]
      rw [← hrest, List.getElem?_append_right (Nat.le_refl _), Nat.sub_self] at htmp
      cases rest with
      | nil => cases htmp
      | cons b rest =>
        obtain rfl := Option.some.inj htmp
        exact ⟨rest, by rw [← hrest, List.append_assoc, List.singleton_append]⟩
    · have htaken : taken (os ++ [.sent tmp]) = taken os := by simp [taken]
      rw [happ, htaken, hq, ← List.append_assoc, hqueue, List.append_assoc]
    · rw [hi, hcount, happ, List.length_append, List.length_singleton]
  | @refused _ _ tmp hrc hrc' htmp hfull hq =>
    obtain ⟨hcount, hsends⟩ := hs.counter hrc
    have happ : appended (os ++ [.refused tmp]) = appended os := by simp [appended]
    have hnew : sends (os ++ [.refused tmp]) = sends os ++ [.refused tmp] :=
      List.filter_append os [.refused tmp]
    refine ⟨⟨happ ▸ hs.appends.isPrefix, .inr ⟨tmp, ?_, ?_⟩, ?_⟩, fun hnone => ?_⟩
    · rw [happ, ← hcount, htmp]
    · rw [happ, hnew, hsends]
    · have htaken : taken (os ++ [.refused tmp]) = taken os := by simp [taken]
      rw [happ, htaken, hq, hqueue]
    · rw [hnone] at hrc'
      cases hrc'
  | returned hrc hrc' hend hq =>
    rw [List.append_nil]
    refine ⟨⟨hs.appends.isPrefix, hs.appends.stops, by rw [hq, hqueue]⟩, fun hnone => ?_⟩
    rw [hnone] at hrc'
    cases hrc'
  | @taken _ tmp hq hi hrc =>
    have happ : appended (os ++ [.taken tmp]) = appended os := by simp [appended]
    have hsends : sends (os ++ [.taken tmp]) = sends os := by simp [sends]
    have htaken : taken (os ++ [.taken tmp]) = taken os ++ [tmp] := List.filterMap_append
    refine ⟨⟨happ ▸ hs.appends.isPrefix, ?_, ?_⟩, fun hnone => ?_⟩
    · rw [happ, hsends]
      exact hs.appends.stops
    · rw [happ, htaken, hqueue, hq, List.append_assoc, List.singleton_append]
    · rw [happ, hsends, hi]
      exact hs.counter (hrc ▸ hnone)

/-- After the return only the consumer moves. -/
theorem WriterMove.of_returned (h : WriterMove data s input s' o) (hrc : s.rc ≠ none) :
    s'.rc = s.rc ∧ appended o = [] := by
  cases h with
  | sent hnone => exact absurd hnone hrc
  | refused hnone => exact absurd hnone hrc
  | returned hnone => exact absurd hnone hrc
  | taken hqueue hi hsame => exact ⟨hsame, rfl⟩

/-- The bytes appended by the first steps, and then those of the others. -/
theorem appended_append (os o : List WriterOut) : appended (os ++ o) = appended os ++ appended o :=
  List.filterMap_append

/-- A call of `__link_rx` goes on until it returns. -/
theorem linkRx_goes_on (hrc : s.rc = none) : ((linkRx data queue).step s .write).isSome = true := by
  simp only [linkRx, hrc, Option.isSome_none, Bool.false_eq_true, if_false]
  split
  · split_ifs <;> rfl
  · rfl

/-- A call of `console_ll_putline` goes on until it returns, or waits until the time is over. -/
theorem consoleLlPutline_goes_on (hrc : s.rc = none) :
    ((consoleLlPutline data queue).step s .write).isSome = true ∨
      ((consoleLlPutline data queue).step s .timeout).isSome = true := by
  simp only [consoleLlPutline, hrc, Option.isSome_none, Bool.false_eq_true, if_false]
  split
  · split_ifs
    · exact .inl rfl
    · exact .inr rfl
  · exact .inl rfl

/-! ## Whole calls -/

/-- What holds in the course of a call of `__link_rx`. -/
theorem linkRx_run {inputs : List WriterInput}
    (h : (linkRx data queue).run (linkRx data queue).init inputs = some (s, os)) :
    WriterInv data queue os s ∧ s.count = 0 ∧ ∀ rc, s.rc = some rc → rc = 0 := by
  refine Machine.run_inv (M := linkRx data queue)
    (fun os s => WriterInv data queue os s ∧ s.count = 0 ∧ ∀ rc, s.rc = some rc → rc = 0)
    ⟨.init 0, rfl, fun rc hrc => by cases hrc⟩ ?_ h
  rintro os s input s' o ⟨hs, hcount, hrc⟩ hstep
  obtain ⟨hmove, hsame, hreturn⟩ := linkRx_step hstep
  refine ⟨hs.move hmove, hsame.trans hcount, fun rc hsome => ?_⟩
  by_cases hnone : s.rc = none
  · rw [hreturn hnone rc hsome, hsame, hcount]
  · exact hrc rc ((hmove.of_returned hnone).1 ▸ hsome)

/-- What holds in the course of a call of `console_ll_putline`. -/
theorem consoleLlPutline_run {inputs : List WriterInput}
    (h : (consoleLlPutline data queue).run (consoleLlPutline data queue).init inputs =
      some (s, os)) :
    WriterInv data queue os s ∧ s.count = (appended os).length ∧
      ∀ rc, s.rc = some rc → rc = putlineReturn (appended os).length := by
  refine Machine.run_inv (M := consoleLlPutline data queue)
    (fun os s => WriterInv data queue os s ∧ s.count = (appended os).length ∧
      ∀ rc, s.rc = some rc → rc = putlineReturn (appended os).length)
    ⟨.init 0, rfl, fun rc hrc => by cases hrc⟩ ?_ h
  rintro os s input s' o ⟨hs, hcount, hrc⟩ hstep
  obtain ⟨hmove, hadd, hreturn⟩ := consoleLlPutline_step hstep
  have hcount' : s'.count = (appended (os ++ o)).length := by
    rw [hadd, hcount, appended_append, List.length_append, Nat.cast_add]
  refine ⟨hs.move hmove, hcount', fun rc hsome => ?_⟩
  by_cases hnone : s.rc = none
  · rw [hreturn hnone rc hsome, hcount']
  · obtain ⟨hsame, hnil⟩ := hmove.of_returned hnone
    rw [appended_append, hnil, List.append_nil]
    exact hrc rc (hsame ▸ hsome)

/-- A call of `__link_rx` appends nothing if and only if its first byte is refused. -/
theorem appended_eq_nil_iff {inputs : List WriterInput}
    (h : (linkRx data queue).run (linkRx data queue).init inputs = some (s, os)) :
    appended os = [] ↔
      (linkRx data queue).AllSteps inputs fun _ s input _ _ => FirstRefused data s input := by
  constructor
  · intro hnil h₁ s₁ input s₂ o hocc hwrite hrc hi hne
    subst hwrite
    by_contra hroom
    rw [Nat.not_le] at hroom
    -- The first byte would be appended.
    obtain ⟨tmp, rest, rfl⟩ := List.exists_cons_of_ne_nil hne
    have hstep := hocc.step
    simp only [linkRx, hrc, hi, Option.isSome_none, Bool.false_eq_true, if_false,
      List.getElem?_cons_zero, hroom, if_true] at hstep
    cases hstep
    have hmem : .sent tmp ∈ os := (hocc.outputs_infix h).mem List.mem_cons_self
    have hsent : tmp ∈ appended os := List.mem_filterMap.mpr ⟨_, hmem, rfl⟩
    rw [hnil] at hsent
    cases hsent
  · intro hall
    refine (hall.inv_outputs (I := fun _ os s => WriterInv data queue os s ∧ appended os = [])
      ⟨.init 0, rfl⟩ ?_ (List.prefix_refl inputs) h).2
    rintro _ os s input s' o ⟨hs, hnil⟩ hfirst hstep
    have hmove := (linkRx_step hstep).1
    refine ⟨hs.move hmove, ?_⟩
    rw [appended_append, hnil, List.nil_append]
    cases hmove with
    | sent hrc hrc' htmp hroom hqueue hi =>
      have hzero : s.i = 0 := by rw [(hs.counter hrc).1, hnil, List.length_nil]
      have hne : data ≠ [] := by
        rintro rfl
        cases htmp
      exact absurd hroom (Nat.not_lt.mpr (hfirst rfl hrc hzero hne))
    | _ => rfl

/-- Both writers append the beginning of their bytes, up to the first that is refused. When
`console_ll_putline` has returned, its value is their number, or -1 if there are none. When
`__link_rx` has returned, its value is their number if and only if there are no bytes, or the first
one found the queue full. -/
theorem writers_return_iff (data queue : List UInt8) :
    (∀ inputs s os, (consoleLlPutline data queue).run (consoleLlPutline data queue).init inputs =
        some (s, os) →
      Appends data queue s os ∧ ∀ rc, s.rc = some rc →
        rc = if (appended os).length = 0 then -1 else ((appended os).length : ℤ)) ∧
    ∀ inputs s os, (linkRx data queue).run (linkRx data queue).init inputs = some (s, os) →
      Appends data queue s os ∧ ∀ rc, s.rc = some rc → (rc = (appended os).length ↔
        (linkRx data queue).AllSteps inputs fun _ s input _ _ => FirstRefused data s input) := by
  refine ⟨fun inputs s os h => ?_, fun inputs s os h => ?_⟩
  · obtain ⟨hs, -, hrc⟩ := consoleLlPutline_run h
    refine ⟨hs.appends, fun rc hsome => ?_⟩
    rw [hrc rc hsome, putlineReturn]
    simp only [Int.natCast_eq_zero]
  · obtain ⟨hs, -, hrc⟩ := linkRx_run h
    refine ⟨hs.appends, fun rc hsome => ?_⟩
    rw [← appended_eq_nil_iff h, hrc rc hsome, ← List.length_eq_zero_iff, eq_comm]
    exact Int.natCast_eq_zero

/-- `__link_rx` appends one byte to an empty queue, and returns zero. -/
theorem linkRx_returns_zero :
    ¬ ∀ (data queue : List UInt8) (inputs : List WriterInput) (s : Writer) (os : List WriterOut),
      (linkRx data queue).run (linkRx data queue).init inputs = some (s, os) →
      ∀ rc, s.rc = some rc → rc = (appended os).length := by
  intro h
  exact absurd (h [65] [] [.write, .write] ⟨[65], 1, 0, some 0⟩ [.sent 65] rfl 0 rfl) (by decide)

end PartLib.Ble.QueueWriters
