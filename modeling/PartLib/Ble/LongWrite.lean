import PartLib.Ble.SppServer

/-!
# What an executed write delivers

A client sends a long value as prepared writes, and then executes or cancels them; it may also
disconnect before it does. `longWrites` is the event handler on these events, with the attribute
handles known. `Prepared` is the bookkeeping that a long write calls for: the bytes prepared since
the last event that ended one, and apart from them the bytes that a cancel or a disconnect gave up.

The handler empties its list only when a write is executed, so the list represents both
(`LongWriteInv`), and an executed write delivers the bytes given up as well. It delivers what it
should exactly when there are none (`executed_bytes_iff`).
-/

namespace PartLib.Ble

/-- The events of long writes to the data characteristic; a prepared value comes with what the
allocator offers for its node and its buffer. -/
inductive LongWriteEvent
  | prepare (value : List UInt8) (node buff : Option ℕ)
  | execute
  | cancel
  | disconnect
  | connect (gatts_if conn_id : ℕ)
  deriving DecidableEq

/-- The event of the stack. -/
def LongWriteEvent.toGatts (t : HandleTable) : LongWriteEvent → GattsEvent
  | .prepare value node buff => .write ⟨t.handles .dataRecvVal, true, value⟩ ⟨node, buff, none⟩
  | .execute => .execWrite true
  | .cancel => .execWrite false
  | .disconnect => .disconnect
  | .connect gatts_if conn_id => .connect gatts_if conn_id

/-- The handler on the events of long writes, once the attribute table is created. -/
def longWrites (t : HandleTable) : Machine SppServer LongWriteEvent SppCall where
  init := { SppServer.init with spp_handle_table := t.handles }
  step s e := gattsProfileEventHandler s (e.toGatts t)

/-- Both allocations of a prepared write succeed; the second may give no block when the value has no
bytes. -/
def AllocSucceeds (s : SppServer) : LongWriteEvent → Prop
  | .prepare value node buff =>
    (malloc s.writes.nodes node).isSome ∧ (value = [] ∨ (malloc s.writes.buffs buff).isSome)
  | _ => True

instance (s : SppServer) : DecidablePred (AllocSucceeds s)
  | .prepare _ _ _ => inferInstanceAs (Decidable (_ ∧ _))
  | .execute => .isTrue trivial
  | .cancel => .isTrue trivial
  | .disconnect => .isTrue trivial
  | .connect _ _ => .isTrue trivial

/-! ## The bytes that a history has prepared -/

/-- The bytes prepared since the most recent execute, cancel, or disconnect, and the bytes prepared
since the most recent execute that a cancel or a disconnect has given up. -/
structure Prepared where
  pending : List UInt8
  abandoned : List UInt8
  deriving DecidableEq

/-- The bookkeeping of one event. -/
def Prepared.after (p : Prepared) : LongWriteEvent → Prepared
  | .prepare value _ _ => { p with pending := p.pending ++ value }
  | .execute => ⟨[], []⟩
  | .cancel => ⟨[], p.abandoned ++ p.pending⟩
  | .disconnect => ⟨[], p.abandoned ++ p.pending⟩
  | .connect _ _ => p

/-- The bookkeeping of a history. -/
def prepared (h : List LongWriteEvent) : Prepared := h.foldl Prepared.after ⟨[], []⟩

/-- The bookkeeping goes from event to event. -/
theorem prepared_snoc (h : List LongWriteEvent) (e : LongWriteEvent) :
    prepared (h ++ [e]) = (prepared h).after e := by
  rw [prepared, List.foldl_append]
  rfl

/-! ## The handler's list -/

/-- The list represents the bytes prepared since the last executed write, given up or not. -/
structure LongWriteInv (t : HandleTable) (h : List LongWriteEvent) (s : SppServer) : Prop where
  handles : s.spp_handle_table = t.handles
  cb : s.my_write_cb = true
  stored : ∃ l values, Holds s.writes l values ∧
    values.flatten = (prepared h).abandoned ++ (prepared h).pending

/-- Nothing is prepared before the first event. -/
theorem longWriteInv_init (t : HandleTable) : LongWriteInv t [] (longWrites t).init :=
  ⟨rfl, rfl, [], [], holds_init, rfl⟩

/-- The bytes of values handed over one by one. -/
theorem writtenBytes_map (values : List (List UInt8)) :
    writtenBytes (values.map .writeCb) = values.flatten := by
  rw [writtenBytes, List.flatMap_map, ← List.flatMap_id']

/-- Every event is handled when its allocations succeed: the list keeps representing the bytes of
the history, and an executed write hands all of them over. -/
theorem longWrites_step {t : HandleTable} {h : List LongWriteEvent} {s : SppServer}
    (hs : LongWriteInv t h s) {e : LongWriteEvent} (ha : AllocSucceeds s e) :
    ∃ s' calls, (longWrites t).step s e = some (s', calls) ∧ LongWriteInv t (h ++ [e]) s' ∧
      (e = .execute →
        writtenBytes calls = (prepared h).abandoned ++ (prepared h).pending) := by
  obtain ⟨ht, hcb, l, values, hl, hflat⟩ := hs
  cases e with
  | prepare value node buff =>
    obtain ⟨hn, hb⟩ := ha
    obtain ⟨p1, hn⟩ := Option.isSome_iff_exists.mp hn
    obtain ⟨w', l', hstore, hl', -⟩ := storeWrBuffer_holds hl hn hb
    refine ⟨{ s with writes := w' }, [], ?_, ⟨ht, hcb, l', _, hl', ?_⟩, by simp⟩
    · simp [longWrites, LongWriteEvent.toGatts, gattsProfileEventHandler, writeEvt, ht,
        findCharAndDesrIndex_handles, hstore]
    · rw [prepared_snoc, List.flatten_append, List.flatten_singleton, hflat, List.append_assoc]
      rfl
  | execute =>
    obtain ⟨w₁, hprint, hl₁, -⟩ := printWriteBuffer_holds hl true
    obtain ⟨-, w₂, hfree, -, hl₂, -⟩ := freeWriteBuffer_holds hl₁
    refine ⟨{ s with writes := w₂ }, values.map .writeCb, ?_, ⟨ht, hcb, [], [], hl₂, ?_⟩, ?_⟩
    · simp [longWrites, LongWriteEvent.toGatts, gattsProfileEventHandler, execWriteEvt, hcb,
        hprint, hfree]
    · rw [prepared_snoc]
      rfl
    · intro _
      rw [writtenBytes_map, hflat]
  | cancel =>
    -- The list stays; what was pending counts as given up from here on.
    refine ⟨s, [], rfl, ⟨ht, hcb, l, values, hl, ?_⟩, by simp⟩
    rw [prepared_snoc, hflat]
    simp [Prepared.after]
  | disconnect =>
    refine ⟨_, _, rfl, ⟨ht, hcb, l, values, hl, ?_⟩, by simp⟩
    rw [prepared_snoc, hflat]
    simp [Prepared.after]
  | connect gatts_if conn_id =>
    refine ⟨_, _, rfl, ⟨ht, hcb, l, values, hl, ?_⟩, by simp⟩
    rw [prepared_snoc, hflat]
    rfl

/-- The invariant along a run whose allocations succeed. -/
theorem longWriteInv_step {t : HandleTable} {h : List LongWriteEvent} {s s' : SppServer}
    {e : LongWriteEvent} {calls : List SppCall} (hs : LongWriteInv t h s) (ha : AllocSucceeds s e)
    (hstep : (longWrites t).step s e = some (s', calls)) : LongWriteInv t (h ++ [e]) s' := by
  obtain ⟨s₁, calls₁, h₁, hs₁, -⟩ := longWrites_step hs ha
  rw [h₁] at hstep
  cases hstep
  exact hs₁

/-- With all allocations succeeding, every event is handled, and an executed write hands the write
callback exactly the bytes prepared since the most recent execute, cancel, or disconnect, if and
only if no byte prepared since the previous execute was given up by a cancel or a disconnect. -/
theorem executed_bytes_iff (t : HandleTable) (run : List LongWriteEvent)
    (halloc : (longWrites t).Admits run fun _ s e => AllocSucceeds s e) :
    ((longWrites t).run (longWrites t).init run).isSome ∧
      (((longWrites t).AllSteps run fun h _ e _ calls =>
          e = .execute → writtenBytes calls = (prepared h).pending) ↔
        (longWrites t).AllSteps run fun h _ e _ _ =>
          e = .execute → (prepared h).abandoned = []) := by
  constructor
  · refine halloc.run_isSome (longWriteInv_init t) fun h s e hs ha => ?_
    obtain ⟨s', calls, hstep, hs', -⟩ := longWrites_step hs ha
    exact ⟨s', calls, hstep, hs'⟩
  refine halloc.allSteps.congr (longWriteInv_init t)
    (fun h s e s' calls hs ha => longWriteInv_step hs ha) fun h s e s' calls hs ha hstep => ?_
  obtain ⟨s₁, calls₁, h₁, -, hbytes⟩ := longWrites_step hs ha
  rw [h₁] at hstep
  cases hstep
  -- What is delivered is the pending bytes behind the abandoned ones.
  refine forall_congr' fun he => ?_
  rw [hbytes he]
  simp

/-- A value prepared in two parts and executed is delivered whole. -/
theorem executed_bytes_two_parts :
    (longWrites (.consecutive 40)).AllSteps
      [.connect 3 0, .prepare [104, 105] (some 1) (some 1), .prepare [10] (some 2) (some 2),
        .execute]
      fun h _ e _ calls => e = .execute → writtenBytes calls = (prepared h).pending :=
  (executed_bytes_iff _ _ (by decide)).2.mpr (by decide)

/-- A client prepares a value and cancels it, then prepares another and executes it: the cancelled
bytes are delivered with those of the second. -/
theorem executed_bytes_not_pending :
    ∃ run, ((longWrites (.consecutive 40)).Admits run fun _ s e => AllocSucceeds s e) ∧
      ¬ (longWrites (.consecutive 40)).AllSteps run fun h _ e _ calls =>
        e = .execute → writtenBytes calls = (prepared h).pending :=
  ⟨[.connect 3 0, .prepare [1] (some 1) (some 1), .cancel, .prepare [2] (some 2) (some 2),
    .execute], by decide, by decide⟩

end PartLib.Ble
