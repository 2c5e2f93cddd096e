import PartLib.Ble.LongWrite
import PartLib.Ble.LineReaders
import PartLib.Ble.QueueWriters

/-!
# The bytes that the reader receives

A client writes to the data characteristic, directly or as prepared writes that it executes; for
every value the handler calls the write callback `__link_rx`, which sends the bytes one after another
to `rx_queue`, without waiting for room. A reader takes them with `console_ll_getc` and
`console_ll_getline`. `downlink` is the three together: the handler goes on by one byte, and the
reader by one receive, in any order.

`__link_rx` stops at the first byte that finds the queue full, and reports this to nobody: the counter
that it returns is not the one of its loop. So the rest of a value is lost, and a later value may go
into the queue again; and `console_ll_getline` takes a null character from the queue without storing
it. When neither happens before the reader takes more, what it has received is a prefix of what the
client has written (`received_isPrefix`).
-/

namespace PartLib.Ble

/-- The statics of the server, the values with which the handler has still to call the write callback,
the first of them as far as it is not sent, the queue, and what the `console_ll_getline` that runs may
still store. -/
structure Downlink where
  spp : SppServer
  callbacks : List (List UInt8)
  rxQueue : List UInt8
  line : Option ℕ

/-- The moves: the stack has an event of the data characteristic, a write that is not prepared or one
of a long write; `__link_rx` goes on; the reader calls `console_ll_getc` and gets a byte, calls
`console_ll_getline`, and in this gets a byte or a timeout. -/
inductive DownInput
  | write (value : List UInt8)
  | long (e : LongWriteEvent)
  | linkRx
  | getc
  | getline (size : ℕ)
  | next
  | timeout
  deriving DecidableEq

/-- The bytes with which the write callback is to be called. -/
def callbackValues (calls : List SppCall) : List (List UInt8) :=
  calls.filterMap fun c =>
    match c with
    | .writeCb src => some src
    | _ => none

/-- An event of the stack, when the handler is done with the previous one. -/
def Downlink.gatt (s : Downlink) (e : GattsEvent) : Option (Downlink × List UInt8) :=
  match s.callbacks with
  | [] =>
    (gattsProfileEventHandler s.spp e).map fun r =>
      ({ s with spp := r.1, callbacks := callbackValues r.2 }, [])
  | _ => none

/-- The next byte of `__link_rx`, or its return. -/
def linkRx (s : Downlink) : Option (Downlink × List UInt8) :=
  match s.callbacks with
  | [] => none
  | [] :: rest => some ({ s with callbacks := rest }, [])
  | (tmp :: src) :: rest =>
    if s.rxQueue.length < consolePrintSize then
      some ({ s with callbacks := src :: rest, rxQueue := s.rxQueue ++ [tmp] }, [])
    else
      some ({ s with callbacks := rest }, [])

/-- `console_ll_getc` that gets a byte. -/
def consoleLlGetc (s : Downlink) : Option (Downlink × List UInt8) :=
  match s.line, s.rxQueue with
  | none, a_char :: rest => some ({ s with rxQueue := rest }, [a_char])
  | _, _ => none

/-- `console_ll_getline` gets the next byte of a line, of which it may still store `size` bytes. -/
def getlineNext (s : Downlink) : Option (Downlink × List UInt8) :=
  match s.line, s.rxQueue with
  | some (size + 1), tmp :: rest =>
    if tmp = 0 then
      some ({ s with rxQueue := rest, line := none }, [])
    else
      some ({ s with
          rxQueue := rest
          line := if tmp = newline ∨ size = 0 then none else some size }, [tmp])
  | _, _ => none

/-- The downlink, once the attribute table is created; the outputs are the bytes that the reader
receives. -/
def downlink (t : HandleTable) : Machine Downlink DownInput UInt8 where
  init := ⟨{ SppServer.init with spp_handle_table := t.handles }, [], [], none⟩
  step s i :=
    match i with
    | .write value => s.gatt (.write ⟨t.handles .dataRecvVal, false, value⟩ ⟨none, none, none⟩)
    | .long e => s.gatt (e.toGatts t)
    | .linkRx => linkRx s
    | .getc => consoleLlGetc s
    | .getline size =>
      match s.line with
      | none => some ({ s with line := if size = 0 then none else some size }, [])
      | some _ => none
    | .next => getlineNext s
    | .timeout =>
      if s.rxQueue = [] then s.line.map fun _ => ({ s with line := none }, []) else none

/-! ## The functions by themselves -/

section

variable {s s' : Downlink} {o : List UInt8}

/-- A move of `__link_rx` is one of the writer by itself: the value that is being sent has lost what the
writer has sent, and is dropped when the writer returns. -/
theorem linkRx_eq_write {src : List UInt8} {rest : List (List UInt8)} {w : QueueWriters.Writer}
    (hcb : s.callbacks = src.drop w.i :: rest) (hq : s.rxQueue = w.queue) (hrc : w.rc = none) :
    ∃ w' o, (QueueWriters.linkRx src []).step w .write = some (w', o) ∧
      linkRx s = some ({ s with
        callbacks := if w'.rc.isSome then rest else src.drop w'.i :: rest
        rxQueue := w'.queue }, []) := by
  obtain ⟨queue, i, count, rc⟩ := w
  obtain rfl : rc = none := hrc
  cases hsrc : src[i]? with
  | none =>
    have hdrop : src.drop i = [] := List.drop_eq_nil_of_le (List.getElem?_eq_none_iff.mp hsrc)
    refine ⟨⟨queue, i, count, some count⟩, [], by simp [QueueWriters.linkRx, hsrc], ?_⟩
    rw [hdrop] at hcb
    simp only at hq
    simp [linkRx, hcb, hq]
  | some tmp =>
    obtain ⟨hlt, htmp⟩ := List.getElem?_eq_some_iff.mp hsrc
    have hdrop : src.drop i = tmp :: src.drop (i + 1) := by
      rw [List.drop_eq_getElem_cons hlt, htmp]
    rw [hdrop] at hcb
    by_cases hroom : queue.length < consolePrintSize
    · refine ⟨⟨queue ++ [tmp], i + 1, count, none⟩, [.sent tmp],
        by simp [QueueWriters.linkRx, hsrc, hroom], ?_⟩
      simp only at hq
      simp [linkRx, hcb, hq, hroom]
    · refine ⟨⟨queue, i + 1, count, some count⟩, [.refused tmp],
        by simp [QueueWriters.linkRx, hsrc, hroom], ?_⟩
      simp only at hq
      simp [linkRx, hcb, hq, hroom]

/-- `console_ll_getc` by itself gets the same byte. -/
theorem consoleLlGetc_eq (h : consoleLlGetc s = some (s', o)) (stream : LineReaders.Outcomes) :
    ∃ a_char, s.rxQueue = a_char :: s'.rxQueue ∧ o = [a_char] ∧
      LineReaders.consoleLlGetc (.cons (some a_char) stream) = (a_char, stream) := by
  unfold consoleLlGetc at h
  split at h <;> cases h
  exact ⟨_, ‹_›, rfl, rfl⟩

/-- A pass of the loop of `console_ll_getline` by itself stores the same byte or none, and goes on with
as many passes. -/
theorem getlineNext_eq (h : getlineNext s = some (s', o)) (data : List UInt8) (i : ℕ)
    (stream : LineReaders.Outcomes) :
    ∃ todo tmp, s.line = some (todo + 1) ∧ s.rxQueue = tmp :: s'.rxQueue ∧
      LineReaders.getlineLoop (todo + 1) data i (.cons (some tmp) stream) =
        LineReaders.getlineLoop (s'.line.getD 0) (o.foldl (fun data tmp => data.set i tmp) data)
          (i + o.length) stream := by
  unfold getlineNext at h
  split at h
  case h_1 size tmp rest hline hq =>
    refine ⟨size, tmp, hline, ?_⟩
    split_ifs at h with hnull hend <;> cases h
    · simp [hq, LineReaders.getlineLoop, LineReaders.consoleLlGetc, hnull]
    · refine ⟨hq, ?_⟩
      by_cases hnl : tmp = newline
      · subst hnl
        simp [LineReaders.getlineLoop, LineReaders.consoleLlGetc, hnull]
      · obtain rfl := hend.resolve_left hnl
        simp [LineReaders.getlineLoop, LineReaders.consoleLlGetc, hnull, hnl]
    · rw [not_or] at hend
      simp [hq, LineReaders.getlineLoop, LineReaders.consoleLlGetc, hnull, hend.1]
  case h_2 => cases h

end

/-! ## What the client has written -/

/-- What the client has prepared, and what it has written: directly, or by an execute. -/
structure ClientBook where
  prepared : Prepared
  written : List UInt8
  deriving DecidableEq

/-- The bookkeeping of one input. -/
def ClientBook.after (b : ClientBook) : DownInput → ClientBook
  | .write value => { b with written := b.written ++ value }
  | .long .execute => ⟨b.prepared.after .execute, b.written ++ b.prepared.pending⟩
  | .long e => { b with prepared := b.prepared.after e }
  | _ => b

/-- The bookkeeping of a history. -/
def clientBook (h : List DownInput) : ClientBook := h.foldl ClientBook.after ⟨⟨[], []⟩, []⟩

/-- What has gone wrong so far: a byte has found the queue full, or `console_ll_getline` has taken a
null character. -/
structure Losses where
  refused : Bool := false
  swallowed : Bool := false
  deriving DecidableEq

/-- The note of one step. -/
def Losses.note (l : Losses) (s : Downlink) : DownInput → Losses
  | .linkRx =>
    match s.callbacks with
    | (_ :: _) :: _ => { l with refused := l.refused || consolePrintSize ≤ s.rxQueue.length }
    | _ => l
  | .next => { l with swallowed := l.swallowed || s.rxQueue.head? == some 0 }
  | _ => l

/-- The step loses nothing in the middle: the allocations of a prepared write succeed, and no byte is
executed that was given up before; the queue takes no byte when it has refused one before; and the
reader takes none that is not null when it has dropped a null character before. -/
def Transparent (h : List DownInput) (s : Downlink) (l : Losses) : DownInput → Prop
  | .long e => AllocSucceeds s.spp e ∧ (e = .execute → (clientBook h).prepared.abandoned = [])
  | .linkRx =>
    match s.callbacks with
    | (_ :: _) :: _ => s.rxQueue.length < consolePrintSize → l.refused = false
    | _ => True
  | .getc => l.swallowed = false
  | .next => s.rxQueue.head? ≠ some 0 → l.swallowed = false
  | _ => True

instance (h : List DownInput) (s : Downlink) (l : Losses) (i : DownInput) :
    Decidable (Transparent h s l i) := by
  unfold Transparent
  split <;> try infer_instance
  split <;> infer_instance

/-- The downlink beside an observer of what has gone wrong. -/
abbrev observedDownlink (t : HandleTable) : Machine (Downlink × Losses) DownInput UInt8 :=
  (downlink t).observe {} Losses.note

/-! ## One step -/

/-- The events of long writes in a history. -/
def longEvents (h : List DownInput) : List LongWriteEvent :=
  h.filterMap fun i =>
    match i with
    | .long e => some e
    | _ => none

theorem clientBook_snoc (h : List DownInput) (i : DownInput) :
    clientBook (h ++ [i]) = (clientBook h).after i := by
  rw [clientBook, List.foldl_append]
  rfl

theorem longEvents_snoc (h : List DownInput) (i : DownInput) :
    longEvents (h ++ [i]) = longEvents h ++ longEvents [i] := List.filterMap_append

/-- The two bookkeepings of what is prepared agree. -/
theorem prepared_longEvents (h : List DownInput) :
    prepared (longEvents h) = (clientBook h).prepared := by
  induction h using List.reverseRecOn with
  | nil => rfl
  | append_singleton h i ih =>
    rw [longEvents_snoc, clientBook_snoc]
    cases i with
    | long e =>
      have hsnoc : prepared (longEvents h ++ [e]) = (prepared (longEvents h)).after e :=
        prepared_snoc _ e
      cases e <;> exact hsnoc.trans (by rw [ih]; rfl)
    | _ => exact (congrArg prepared (List.append_nil _)).trans ih

/-- The bytes of the values are those that the handler hands over. -/
theorem flatten_callbackValues (calls : List SppCall) :
    (callbackValues calls).flatten = writtenBytes calls := by
  induction calls with
  | nil => rfl
  | cons c calls ih =>
    cases c with
    | writeCb src => exact congrArg (src ++ ·) ih
    | _ => exact ih

/-- Only an execute hands anything over. -/
theorem writtenBytes_of_ne_execute {t : HandleTable} {s s' : SppServer} {e : LongWriteEvent}
    {calls : List SppCall} (he : e ≠ .execute)
    (h : gattsProfileEventHandler s (e.toGatts t) = some (s', calls)) : writtenBytes calls = [] := by
  cases e with
  | prepare value node buff =>
    simp only [LongWriteEvent.toGatts, gattsProfileEventHandler, writeEvt, Bool.true_eq_false,
      if_false] at h
    split_ifs at h
    · obtain ⟨r, -, heq⟩ := Option.map_eq_some_iff.mp h
      cases heq
      rfl
    · cases h
      rfl
  | execute => exact absurd rfl he
  | cancel | disconnect | connect =>
    cases h
    rfl

/-- What the reader has received is a prefix of what the client has written. With what is in the queue
it still is, as long as no null character was dropped; and then with what is still to be sent it is
all of it, as long as no byte was refused. -/
structure DownInv (t : HandleTable) (h : List DownInput) (received : List UInt8) (s : Downlink)
    (l : Losses) : Prop where
  long : LongWriteInv t (longEvents h) s.spp
  written : received <+: (clientBook h).written
  queued : l.swallowed = false → received ++ s.rxQueue <+: (clientBook h).written
  sent : l.swallowed = false → l.refused = false →
    received ++ s.rxQueue ++ s.callbacks.flatten = (clientBook h).written

variable {t : HandleTable} {h : List DownInput} {past : List UInt8} {s s' : Downlink} {l : Losses}
  {o : List UInt8}

/-- An event that writes `new`, when the handler is done with the previous one. -/
theorem DownInv.event (hs : DownInv t h past s l) {i : DownInput} (hidle : s.callbacks = [])
    {spp : SppServer} {values : List (List UInt8)} {new : List UInt8}
    (hlong : LongWriteInv t (longEvents (h ++ [i])) spp)
    (hwritten : (clientBook (h ++ [i])).written = (clientBook h).written ++ new)
    (hnew : values.flatten = new) :
    DownInv t (h ++ [i]) past { s with spp := spp, callbacks := values } l where
  long := hlong
  written := by
    rw [hwritten]
    exact hs.written.trans (List.prefix_append _ _)
  queued hsw := by
    rw [hwritten]
    exact (hs.queued hsw).trans (List.prefix_append _ _)
  sent hsw href := by
    have hsent := hs.sent hsw href
    rw [hidle, List.flatten_nil, List.append_nil] at hsent
    rw [hwritten, hnew, hsent]

/-- An input that is no event of the stack leaves the statics and the bookkeeping. -/
theorem DownInv.reader {i : DownInput} {l' : Losses} (hs : DownInv t h past s l)
    (hi : ∀ b, ClientBook.after b i = b) (hevents : longEvents [i] = []) (hspp : s'.spp = s.spp)
    (hwritten : past ++ o <+: (clientBook h).written)
    (hqueued : l'.swallowed = false → past ++ o ++ s'.rxQueue <+: (clientBook h).written)
    (hsent : l'.swallowed = false → l'.refused = false →
      past ++ o ++ s'.rxQueue ++ s'.callbacks.flatten = (clientBook h).written) :
    DownInv t (h ++ [i]) (past ++ o) s' l' := by
  have hbook : clientBook (h ++ [i]) = clientBook h := by rw [clientBook_snoc, hi]
  refine ⟨?_, hbook ▸ hwritten, hbook ▸ hqueued, hbook ▸ hsent⟩
  rw [longEvents_snoc, hevents, List.append_nil, hspp]
  exact hs.long

/-- The reader gets the first byte of the queue. -/
theorem DownInv.readByte {i : DownInput} {tmp : UInt8} (hs : DownInv t h past s l)
    (hi : ∀ b, ClientBook.after b i = b) (hevents : longEvents [i] = [])
    (hsw : l.swallowed = false) (hqueue : s.rxQueue = tmp :: s'.rxQueue) (hspp : s'.spp = s.spp)
    (hcallbacks : s'.callbacks = s.callbacks) :
    DownInv t (h ++ [i]) (past ++ [tmp]) s' l := by
  have hsent := hs.sent hsw
  have hqueued := hs.queued hsw
  rw [hqueue] at hqueued hsent
  exact hs.reader hi hevents hspp (List.IsPrefix.trans ⟨s'.rxQueue, by simp⟩ hqueued)
    (fun _ => by simpa using hqueued) (fun _ href => by simpa [hcallbacks] using hsent href)

/-- A write that is not prepared. -/
theorem DownInv.write (hs : DownInv t h past s l) {value : List UInt8}
    (hstep : (downlink t).step s (.write value) = some (s', o)) :
    DownInv t (h ++ [.write value]) (past ++ o) s' l := by
  have hhandler : gattsProfileEventHandler s.spp
      (.write ⟨t.handles .dataRecvVal, false, value⟩ ⟨none, none, none⟩) =
        some (s.spp, [.writeCb value]) := by
    simp [gattsProfileEventHandler, writeEvt, hs.long.handles, findCharAndDesrIndex_handles,
      hs.long.cb]
  simp only [downlink, Downlink.gatt, hhandler, Option.map_some] at hstep
  split at hstep
  case h_2 => cases hstep
  case h_1 hidle =>
    cases hstep
    rw [List.append_nil]
    refine hs.event hidle ?_ (by rw [clientBook_snoc]; rfl) (by simp [callbackValues])
    rw [longEvents_snoc]
    exact (List.append_nil (longEvents h)).symm ▸ hs.long

/-- An event of a long write. -/
theorem DownInv.longWrite (hs : DownInv t h past s l) {e : LongWriteEvent}
    (hi : Transparent h s l (.long e)) (hstep : (downlink t).step s (.long e) = some (s', o)) :
    DownInv t (h ++ [.long e]) (past ++ o) s' l := by
  obtain ⟨spp, calls, hhandler, hlong, hexecute⟩ := longWrites_step hs.long hi.1
  have hhandler : gattsProfileEventHandler s.spp (e.toGatts t) = some (spp, calls) := hhandler
  simp only [downlink, Downlink.gatt, hhandler, Option.map_some] at hstep
  split at hstep
  case h_2 => cases hstep
  case h_1 hidle =>
    cases hstep
    rw [List.append_nil]
    have hlong' : LongWriteInv t (longEvents (h ++ [.long e])) spp := by
      rw [longEvents_snoc]
      exact hlong
    by_cases he : e = .execute
    · -- Nothing was given up, so what is executed is what is pending.
      subst he
      refine hs.event hidle hlong' (by rw [clientBook_snoc]; rfl) ?_
      rw [flatten_callbackValues, hexecute rfl, prepared_longEvents, hi.2 rfl, List.nil_append]
    · have hwritten : (clientBook (h ++ [.long e])).written = (clientBook h).written ++ [] := by
        rw [clientBook_snoc, List.append_nil]
        cases e <;> first | rfl | exact absurd rfl he
      refine hs.event hidle hlong' hwritten ?_
      rw [flatten_callbackValues, writtenBytes_of_ne_execute he hhandler]

/-- A byte that is sent, or refused. -/
theorem DownInv.linkRx (hs : DownInv t h past s l) (hi : Transparent h s l .linkRx)
    (hstep : (downlink t).step s .linkRx = some (s', o)) :
    DownInv t (h ++ [.linkRx]) (past ++ o) s' (l.note s .linkRx) := by
  have hsent := hs.sent
  have hqueued := hs.queued
  simp only [downlink, Ble.linkRx] at hstep
  simp only [Transparent, Losses.note] at hi ⊢
  split at hstep
  case h_1 => cases hstep
  case h_2 rest hcallbacks =>
    cases hstep
    simp only [hcallbacks, List.flatten_cons, List.nil_append] at hsent ⊢
    exact hs.reader (fun _ => rfl) rfl rfl (by simpa using hs.written) (by simpa using hqueued)
      (by simpa using hsent)
  case h_3 tmp src rest hcallbacks =>
    simp only [hcallbacks] at hi hsent ⊢
    split_ifs at hstep with hroom <;> cases hstep
    · have href := hi hroom
      have hnote : (l.refused || decide (consolePrintSize ≤ s.rxQueue.length)) = l.refused := by
        simp [hroom]
      rw [hnote]
      refine hs.reader (fun _ => rfl) rfl rfl (by simpa using hs.written) (fun hsw => ?_)
        (fun hsw _ => ?_)
      · exact ⟨src ++ rest.flatten, by simpa using hsent hsw href⟩
      · simpa using hsent hsw href
    · refine hs.reader (fun _ => rfl) rfl rfl (by simpa using hs.written) (by simpa using hqueued)
        (fun _ href => ?_)
      -- The byte was refused.
      simp [Nat.le_of_not_lt hroom] at href

/-- The reader gets a byte from `console_ll_getc`. -/
theorem DownInv.getc (hs : DownInv t h past s l) (hi : Transparent h s l .getc)
    (hstep : (downlink t).step s .getc = some (s', o)) :
    DownInv t (h ++ [.getc]) (past ++ o) s' l := by
  simp only [downlink, consoleLlGetc] at hstep
  split at hstep
  case h_2 => cases hstep
  case h_1 a_char rest hline hqueue =>
    cases hstep
    exact hs.readByte (fun _ => rfl) rfl hi hqueue rfl rfl

/-- `console_ll_getline` gets a byte. -/
theorem DownInv.next (hs : DownInv t h past s l) (hi : Transparent h s l .next)
    (hstep : (downlink t).step s .next = some (s', o)) :
    DownInv t (h ++ [.next]) (past ++ o) s' (l.note s .next) := by
  simp only [downlink, getlineNext] at hstep
  split at hstep
  case h_2 => cases hstep
  case h_1 size tmp rest hline hqueue =>
    simp only [Transparent, Losses.note, hqueue, List.head?_cons] at hi ⊢
    by_cases hnull : tmp = 0
    · -- The null character is taken, and not stored.
      rw [if_pos hnull] at hstep
      cases hstep
      refine hs.reader (fun _ => rfl) rfl rfl (by simpa using hs.written) (fun hsw => ?_)
        (fun hsw _ => ?_) <;> simp [hnull] at hsw
    · rw [if_neg hnull] at hstep
      cases hstep
      have hsw := hi (by simpa using hnull)
      have hnote : (l.swallowed || some tmp == some 0) = l.swallowed := by simp [hnull]
      rw [hnote]
      exact hs.readByte (fun _ => rfl) rfl hsw hqueue rfl rfl

/-- A step that loses nothing in the middle. -/
theorem DownInv.step (hs : DownInv t h past s l) {i : DownInput} (hi : Transparent h s l i)
    (hstep : (downlink t).step s i = some (s', o)) :
    DownInv t (h ++ [i]) (past ++ o) s' (l.note s i) := by
  cases i with
  | write value => exact hs.write hstep
  | long e => exact hs.longWrite hi hstep
  | linkRx => exact hs.linkRx hi hstep
  | getc => exact hs.getc hi hstep
  | getline size =>
    simp only [downlink] at hstep
    split at hstep <;> cases hstep
    change DownInv t (h ++ [.getline size]) (past ++ []) _ l
    exact hs.reader (fun _ => rfl) rfl rfl (by simpa using hs.written) (by simpa using hs.queued)
      (by simpa using hs.sent)
  | next => exact hs.next hi hstep
  | timeout =>
    simp only [downlink] at hstep
    split_ifs at hstep
    obtain ⟨size, -, heq⟩ := Option.map_eq_some_iff.mp hstep
    cases heq
    change DownInv t (h ++ [.timeout]) (past ++ []) _ l
    exact hs.reader (fun _ => rfl) rfl rfl (by simpa using hs.written) (by simpa using hs.queued)
      (by simpa using hs.sent)

/-! ## Every run -/

/-- Before anything happens, nothing is written and nothing is received. -/
theorem downInv_init : DownInv t [] [] (downlink t).init {} where
  long := longWriteInv_init t
  written := List.nil_prefix
  queued _ := List.nil_prefix
  sent _ _ := rfl

/-- In every run that loses nothing in the middle, what the reader has received is at any time a
prefix of what the client has written. -/
theorem received_isPrefix (t : HandleTable) (inputs : List DownInput)
    (h : (observedDownlink t).AllSteps inputs fun h s i _ _ => Transparent h s.1 s.2 i) :
    ∀ hist s past, hist <+: inputs →
      (downlink t).run (downlink t).init hist = some (s, past) →
      past <+: (clientBook hist).written := by
  intro hist s past hpre hrun
  obtain ⟨l, hobserved⟩ : ∃ l, (observedDownlink t).run (observedDownlink t).init hist =
      some ((s, l), past) := Machine.run_observe (Losses.mk false false) hrun
  refine (h.inv_outputs (I := fun h past s => DownInv t h past s.1 s.2) downInv_init ?_ hpre
    hobserved).written
  intro h past s i s' o hs hi hstep
  obtain ⟨r, hmove, heq⟩ := Option.map_eq_some_iff.mp hstep
  cases heq
  exact hs.step hi hmove

/-- A value is written and read by characters, and another is prepared, executed, and read as a
line. -/
def twoValues : List DownInput :=
  [.write [104, 105], .linkRx, .getc, .linkRx, .linkRx, .getc,
    .long (.prepare [111, 107] (some 1) (some 1)), .long (.prepare [10] (some 2) (some 2)),
    .long .execute, .linkRx, .linkRx, .getline 8, .next, .linkRx, .linkRx, .next, .next]

/-- All of it is received. -/
theorem received_isPrefix_two_values :
    ∃ s, (downlink (.consecutive 40)).run (downlink (.consecutive 40)).init twoValues =
        some (s, [104, 105, 111, 107, 10]) ∧
      [104, 105, 111, 107, 10] <+: (clientBook twoValues).written :=
  ⟨_, rfl, received_isPrefix (.consecutive 40) twoValues (by decide) twoValues _ _
    List.prefix_rfl rfl⟩

/-- The queue is filled and refuses the next value; the reader takes one character, and the value
after that goes into the queue. -/
def overrun : List DownInput :=
  .write (List.replicate 512 120) :: List.replicate 513 .linkRx ++
    [.write [97], .linkRx, .getc, .write [98], .linkRx, .linkRx] ++ List.replicate 512 .getc

/-- The reader receives the last value without the one before it. -/
theorem received_not_prefix :
    ∃ s past, (downlink (.consecutive 40)).run (downlink (.consecutive 40)).init overrun =
        some (s, past) ∧ ¬ past <+: (clientBook overrun).written := by
  have hgap : ((downlink (.consecutive 40)).run (downlink (.consecutive 40)).init overrun).map
      (fun r => r.2.isPrefixOf (clientBook overrun).written) = some false := by
    decide +kernel
  obtain ⟨⟨s, past⟩, hrun, hfalse⟩ := Option.map_eq_some_iff.mp hgap
  refine ⟨s, past, hrun, fun hpre => ?_⟩
  rw [List.isPrefixOf_iff_prefix.mpr hpre] at hfalse
  cases hfalse

end PartLib.Ble
