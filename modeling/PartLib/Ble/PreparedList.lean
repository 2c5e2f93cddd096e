import PartLib.Ble.LongWrite

/-!
# Prepared writes when memory runs out

For a prepared write `store_wr_buffer` allocates a node and then a block for the value. It checks the
first allocation and not the second, so it copies the value through a null pointer when the second
fails. The event then has no result; it is the only one that has none, and after every other event the
list is well formed (`list_wellFormed_iff`), as it is before and after every call of
`free_write_buffer`.

`store_wr_buffer` adds a value as a whole or does not change the list, but for the same case
(`store_allOrNothing_iff`).
-/

namespace PartLib.Ble

/-- The handler on the events of long writes, with or without a write callback. -/
def preparedWrites (t : HandleTable) (my_write_cb : Bool) :
    Machine SppServer LongWriteEvent SppCall where
  init := { SppServer.init with spp_handle_table := t.handles, my_write_cb }
  step s e := gattsProfileEventHandler s (e.toGatts t)

/-- When a prepared write has bytes and is given a node, it is given a block for them. -/
def BuffAllocated (s : SppServer) : LongWriteEvent → Prop
  | .prepare value node buff =>
    malloc s.writes.nodes node = none ∨ value = [] ∨ (malloc s.writes.buffs buff).isSome = true
  | _ => True

/-! ## What is asked of the list -/

/-- Following `next_node` from `first_node` visits the live nodes `l`, no two at one address, and ends
in the null pointer; the counters and the pointer to the last node are right. -/
structure WellFormed (w : WriteBuffer) (l : List (ℕ × SppReceiveDataNode)) : Prop where
  visits : Segment SppReceiveDataNode.next_node w.nodes w.first_node l none
  distinct : (l.map Prod.fst).Nodup
  node_num : w.node_num = l.length
  last : w.temp_spp_recv_data_node_p2 = l.getLast?.map Prod.fst
  last_null_iff : w.temp_spp_recv_data_node_p2 = none ↔ l = []
  buff_size : w.buff_size = (l.map fun x => x.2.len).sum

/-- `free_write_buffer` frees each node of `l` and its buffer once, its calls of `free` leave the blocks
that are live after it, and these are none. -/
def FreesOnce (w : WriteBuffer) (l : List (ℕ × SppReceiveDataNode)) : Prop :=
  ∃ calls w', freeCalls w.nodes.entries.length w.first_node w = some calls ∧
    freeWriteBuffer w = some w' ∧
    calls.foldlM FreeCall.perform (w.nodes, w.buffs) = some (w'.nodes, w'.buffs) ∧
    (∀ x ∈ l, calls.count (.node x.1) = 1 ∧
      ∀ b, x.2.node_buff = some b → calls.count (.buff (some b)) = 1) ∧
    (∀ a, a ∉ w'.nodes) ∧ ∀ b, b ∉ w'.buffs

/-- The list is well formed after an event; and when a write is executed, the list that is printed is
well formed before it is freed, and each of its nodes and buffers is freed once. -/
def ListLaw (s : SppServer) (e : LongWriteEvent) (s' : SppServer) : Prop :=
  (∃ l, WellFormed s'.writes l) ∧
    (e = .execute → ∃ calls w l, printWriteBuffer s.writes s.my_write_cb = some (calls, w) ∧
      WellFormed w l ∧ FreesOnce w l)

variable {w : WriteBuffer} {l : List (ℕ × SppReceiveDataNode)} {values : List (List UInt8)}

/-- The lengths that the nodes have are those of the values. -/
theorem sum_len_eq {buffs : Heap (List UInt8)} {ps : List (ℤ × Option ℕ)}
    (h : List.Forall₂ (PayloadHolds buffs) ps values) :
    (ps.map Prod.fst).sum = (values.map List.length).sum := by
  induction h with
  | nil => rfl
  | cons hx _ ih =>
    rw [List.map_cons, List.sum_cons, List.map_cons, List.sum_cons, ih, hx.1]
    push_cast
    rfl

/-- A list that represents values is well formed. -/
theorem Holds.wellFormed (h : Holds w l values) : WellFormed w l where
  visits := h.segment
  distinct := h.nodup
  node_num := h.node_num
  last := h.last
  last_null_iff := by rw [h.last, Option.map_eq_none_iff, List.getLast?_eq_none_iff]
  buff_size := by
    rw [h.buff_size, ← sum_len_eq h.contents, payloads, List.map_map]
    rfl

/-- The calls for some nodes free each address as often as the nodes have it. -/
theorem count_node (l : List (ℕ × SppReceiveDataNode)) (a : ℕ) :
    (l.flatMap FreeCall.ofNode).count (.node a) = (l.map Prod.fst).count a := by
  induction l with
  | nil => rfl
  | cons x l ih =>
    rw [List.flatMap_cons, List.count_append, ih, List.map_cons, List.count_cons, Nat.add_comm]
    congr 1
    by_cases hx : x.1 = a <;> simp [FreeCall.ofNode, hx]

/-- The calls for some nodes free each block as often as the nodes have it. -/
theorem count_buff (l : List (ℕ × SppReceiveDataNode)) (b : ℕ) :
    (l.flatMap FreeCall.ofNode).count (.buff (some b)) =
      ((payloads l).filterMap Prod.snd).count b := by
  induction l with
  | nil => rfl
  | cons x l ih =>
    rw [List.flatMap_cons, List.count_append, ih]
    simp only [payloads, List.map_cons, List.filterMap_cons]
    cases hx : x.2.node_buff with
    | none => simp [FreeCall.ofNode, SppReceiveDataNode.payload, hx]
    | some b' =>
      by_cases hb : b' = b <;>
        simp [FreeCall.ofNode, SppReceiveDataNode.payload, hx, hb, Nat.add_comm]

/-- A list that represents values and owns all blocks is freed, each node and each buffer once. -/
theorem Holds.freesOnce (h : Holds w l values) (hown : OwnsAll w l) : FreesOnce w l := by
  obtain ⟨hcalls, w', hfree, hperform, -, hkeep⟩ := freeWriteBuffer_holds h
  refine ⟨_, w', hcalls, hfree, hperform, fun x hx => ⟨?_, fun b hb => ?_⟩, fun a ha => ?_,
    fun b hb => ?_⟩
  · rw [count_node]
    exact List.count_eq_one_of_mem h.nodup (List.mem_map_of_mem hx)
  · rw [count_buff]
    refine List.count_eq_one_of_mem h.buffs_nodup (List.mem_filterMap.mpr ⟨x.2.payload, ?_, hb⟩)
    exact List.mem_map_of_mem hx
  · simpa using (hkeep hown).nodes a ha
  · simpa using (hkeep hown).buffs b hb

/-! ## Runs -/

variable {t : HandleTable} {my_write_cb : Bool} {s s' : SppServer} {e : LongWriteEvent}
  {calls : List SppCall}

/-- The list represents some values, and no block is lost. -/
structure ListInv (t : HandleTable) (my_write_cb : Bool) (s : SppServer) : Prop where
  handles : s.spp_handle_table = t.handles
  cb : s.my_write_cb = my_write_cb
  stored : ∃ l values, Holds s.writes l values ∧ OwnsAll s.writes l

/-- Nothing is prepared before the first event. -/
theorem listInv_init (t : HandleTable) (my_write_cb : Bool) :
    ListInv t my_write_cb (preparedWrites t my_write_cb).init :=
  ⟨rfl, rfl, [], [], holds_init, ownsAll_init⟩

/-- Without a node nothing is stored. -/
theorem storeWrBuffer_of_node_none {value : List UInt8} {node buff : Option ℕ}
    (hn : malloc w.nodes node = none) :
    storeWrBuffer w value node buff = some (false, { w with temp_spp_recv_data_node_p1 := none }) := by
  rw [storeWrBuffer, hn]

/-- With a node and no buffer for its bytes, the value is copied through a null pointer. -/
theorem storeWrBuffer_of_buff_none {value : List UInt8} {node buff : Option ℕ}
    (hn : malloc w.nodes node ≠ none) (hv : value ≠ []) (hb : malloc w.buffs buff = none) :
    storeWrBuffer w value node buff = none := by
  obtain ⟨p1, hp1⟩ := Option.ne_none_iff_exists'.mp hn
  simp only [storeWrBuffer, hp1, hb, storeBytes, if_neg hv, Option.map_none]
  exact Option.bind_fun_none _

/-- What the handler does with a prepared value. -/
theorem preparedWrites_prepare (ht : s.spp_handle_table = t.handles) (value : List UInt8)
    (node buff : Option ℕ) :
    (preparedWrites t my_write_cb).step s (.prepare value node buff) =
      (storeWrBuffer s.writes value node buff).map fun r => ({ s with writes := r.2 }, []) := by
  simp [preparedWrites, LongWriteEvent.toGatts, gattsProfileEventHandler, writeEvt, ht,
    findCharAndDesrIndex_handles]

/-- Every event whose bytes get a block is handled, and the list meets the law. -/
theorem preparedWrites_step (hs : ListInv t my_write_cb s) (ha : BuffAllocated s e) :
    ∃ s' calls, (preparedWrites t my_write_cb).step s e = some (s', calls) ∧
      ListInv t my_write_cb s' ∧ ListLaw s e s' := by
  obtain ⟨ht, hcb, l, values, hl, hown⟩ := hs
  cases e with
  | prepare value node buff =>
    rw [preparedWrites_prepare ht]
    by_cases hn : malloc s.writes.nodes node = none
    · -- The list stays as it is.
      rw [storeWrBuffer_of_node_none hn]
      have hl' := hl.withP1 none
      exact ⟨_, _, rfl, ⟨ht, hcb, l, values, hl', hown.1, hown.2⟩, ⟨l, hl'.wellFormed⟩, by simp⟩
    · obtain ⟨p1, hp1⟩ := Option.ne_none_iff_exists'.mp hn
      obtain ⟨w', l', hstore, hl', hkeep⟩ := storeWrBuffer_holds hl hp1 (ha.resolve_left hn)
      rw [hstore]
      exact ⟨_, _, rfl, ⟨ht, hcb, l', _, hl', hkeep hown⟩, ⟨l', hl'.wellFormed⟩, by simp⟩
  | execute =>
    obtain ⟨w₁, hprint, hl₁, hown₁⟩ := printWriteBuffer_holds hl s.my_write_cb
    obtain ⟨-, w₂, hfree, -, hl₂, hown₂⟩ := freeWriteBuffer_holds hl₁
    refine ⟨{ s with writes := w₂ }, (if s.my_write_cb then values else []).map .writeCb, ?_,
      ⟨ht, hcb, [], [], hl₂, hown₂ (hown₁ hown)⟩, ⟨[], hl₂.wellFormed⟩,
      fun _ => ⟨_, w₁, l, hprint, hl₁.wellFormed, hl₁.freesOnce (hown₁ hown)⟩⟩
    simp [preparedWrites, LongWriteEvent.toGatts, gattsProfileEventHandler, execWriteEvt, hprint,
      hfree]
  | cancel => exact ⟨s, [], rfl, ⟨ht, hcb, l, values, hl, hown⟩, ⟨l, hl.wellFormed⟩, by simp⟩
  | disconnect => exact ⟨_, _, rfl, ⟨ht, hcb, l, values, hl, hown⟩, ⟨l, hl.wellFormed⟩, by simp⟩
  | connect gatts_if conn_id =>
    exact ⟨_, _, rfl, ⟨ht, hcb, l, values, hl, hown⟩, ⟨l, hl.wellFormed⟩, by simp⟩

/-- An event that is handled gets a block for its bytes. -/
theorem buffAllocated_of_step (hs : ListInv t my_write_cb s)
    (hstep : (preparedWrites t my_write_cb).step s e = some (s', calls)) : BuffAllocated s e := by
  cases e with
  | prepare value node buff =>
    by_contra hnot
    simp only [BuffAllocated, not_or, Bool.not_eq_true, Option.isSome_eq_false_iff,
      Option.isNone_iff_eq_none] at hnot
    rw [preparedWrites_prepare hs.handles, storeWrBuffer_of_buff_none hnot.1 hnot.2.1 hnot.2.2]
      at hstep
    cases hstep
  | execute | cancel | disconnect | connect => trivial

/-- An event that is handled keeps the invariant and meets the law. -/
theorem listInv_step (hs : ListInv t my_write_cb s)
    (hstep : (preparedWrites t my_write_cb).step s e = some (s', calls)) :
    ListInv t my_write_cb s' ∧ ListLaw s e s' := by
  obtain ⟨s₁, calls₁, h₁, hs₁, hlaw⟩ := preparedWrites_step hs (buffAllocated_of_step hs hstep)
  rw [h₁] at hstep
  cases hstep
  exact ⟨hs₁, hlaw⟩

/-- In every run, whatever the allocations give, the list is well formed after each event that is
handled, and freed as it should be; and all events are handled if and only if no prepared write with
bytes is given a node without a block for the bytes. -/
theorem list_wellFormed_iff (t : HandleTable) (my_write_cb : Bool) (run : List LongWriteEvent) :
    (preparedWrites t my_write_cb).AllSteps run (fun _ s e s' _ => ListLaw s e s') ∧
      (((preparedWrites t my_write_cb).run (preparedWrites t my_write_cb).init run).isSome = true ∧
          (preparedWrites t my_write_cb).AllSteps run (fun _ s e s' _ => ListLaw s e s') ↔
        (preparedWrites t my_write_cb).Admits run fun _ s e => BuffAllocated s e) := by
  have hlaw : (preparedWrites t my_write_cb).AllSteps run fun _ s e s' _ => ListLaw s e s' :=
    Machine.allSteps_of_inv (I := fun _ s => ListInv t my_write_cb s) (listInv_init t my_write_cb)
      fun _ _ _ _ _ hs hstep => listInv_step hs hstep
  refine ⟨hlaw, ?_, fun hadmits => ⟨?_, hlaw⟩⟩
  · rintro ⟨hrun, -⟩
    exact Machine.admits_of_run_isSome (I := fun _ s => ListInv t my_write_cb s) hrun
      (listInv_init t my_write_cb) fun _ s e s' _ hs hstep =>
        ⟨buffAllocated_of_step hs hstep, (listInv_step hs hstep).1⟩
  · refine hadmits.run_isSome (I := fun _ s => ListInv t my_write_cb s)
      (listInv_init t my_write_cb) fun _ s e hs ha => ?_
    obtain ⟨s', calls, hstep, hs', -⟩ := preparedWrites_step hs ha
    exact ⟨s', calls, hstep, hs'⟩

/-- A client prepares one byte, and there is memory for the node and none for the byte: the event has
no result. -/
theorem list_not_wellFormed :
    ¬ ∀ (t : HandleTable) (my_write_cb : Bool) (run : List LongWriteEvent),
      ((preparedWrites t my_write_cb).run (preparedWrites t my_write_cb).init run).isSome = true ∧
        (preparedWrites t my_write_cb).AllSteps run fun _ s e s' _ => ListLaw s e s' := by
  intro h
  have hsome := (h (.consecutive 40) true [.prepare [1] (some 1) none]).1
  revert hsome
  decide

/-! ## One value -/

/-- The values of the list, as `print_write_buffer` finds them. -/
def listValues (w : WriteBuffer) : Option (List (List UInt8)) :=
  printLoop w true w.nodes.entries.length w.first_node

/-- The bytes of the list. -/
def listBytes (w : WriteBuffer) : Option (List UInt8) := (listValues w).map List.flatten

/-- The list is as it was, and so are the live blocks. -/
structure Unchanged (w w' : WriteBuffer) : Prop where
  values : ∃ values, listValues w = some values ∧ listValues w' = some values
  node_num : w'.node_num = w.node_num
  buff_size : w'.buff_size = w.buff_size
  nodes : w'.nodes = w.nodes
  buffs : w'.buffs = w.buffs

/-- When one of its allocations fails, `store_wr_buffer` returns `false` and leaves the list and the
blocks; when both succeed, it returns `true` and the bytes of the list are followed by the value. -/
def AllOrNothing (w : WriteBuffer) (value : List UInt8) (node buff : Option ℕ) : Prop :=
  (malloc w.nodes node = none ∨ malloc w.buffs buff = none →
    ∃ w', storeWrBuffer w value node buff = some (false, w') ∧ Unchanged w w') ∧
  (malloc w.nodes node ≠ none → malloc w.buffs buff ≠ none →
    ∃ w' bytes, storeWrBuffer w value node buff = some (true, w') ∧
      listBytes w = some bytes ∧ listBytes w' = some (bytes ++ value))

/-- The values that a list represents are those that are found. -/
theorem Holds.listValues_eq (h : Holds w l values) : listValues w = some values :=
  printLoop_spec true h.segment h.contents (h.segment.length_le h.nodup)

/-- The invariant holds after every run. -/
theorem listInv_run {run : List LongWriteEvent}
    (hrun : (preparedWrites t my_write_cb).run (preparedWrites t my_write_cb).init run =
      some (s, calls)) : ListInv t my_write_cb s :=
  Machine.run_inv (fun _ s => ListInv t my_write_cb s) (listInv_init t my_write_cb)
    (fun _ _ _ _ _ hs hstep => (listInv_step hs hstep).1) hrun

/-- In every reachable state and for every value with bytes, `store_wr_buffer` stores the value as a
whole or leaves everything as it was, if and only if it is not given a node without a buffer. -/
theorem store_allOrNothing_iff (t : HandleTable) (my_write_cb : Bool) (run : List LongWriteEvent)
    (s : SppServer) (calls : List SppCall)
    (hrun : (preparedWrites t my_write_cb).run (preparedWrites t my_write_cb).init run =
      some (s, calls)) (value : List UInt8) (hvalue : value ≠ []) (node buff : Option ℕ) :
    AllOrNothing s.writes value node buff ↔
      (malloc s.writes.nodes node = none ∨ malloc s.writes.buffs buff ≠ none) := by
  obtain ⟨-, -, l, values, hl, -⟩ := listInv_run hrun
  by_cases hn : malloc s.writes.nodes node = none
  · -- Nothing is stored, and nothing changes that the list or the blocks depend on.
    refine iff_of_true ⟨fun _ => ?_, fun hn' => absurd hn hn'⟩ (.inl hn)
    exact ⟨_, storeWrBuffer_of_node_none hn,
      ⟨values, hl.listValues_eq, (hl.withP1 none).listValues_eq⟩, rfl, rfl, rfl, rfl⟩
  · by_cases hb : malloc s.writes.buffs buff = none
    · -- The value is copied through a null pointer.
      refine iff_of_false ?_ (by simp [hn, hb])
      rintro ⟨hfails, -⟩
      obtain ⟨w', hw', -⟩ := hfails (.inr hb)
      rw [storeWrBuffer_of_buff_none hn hvalue hb] at hw'
      cases hw'
    · refine iff_of_true ⟨fun hfails => absurd hfails (by simp [hn, hb]), fun _ _ => ?_⟩ (.inr hb)
      obtain ⟨p1, hp1⟩ := Option.ne_none_iff_exists'.mp hn
      obtain ⟨w', l', hstore, hl', -⟩ :=
        storeWrBuffer_holds hl hp1 (.inr (Option.isSome_iff_ne_none.mpr hb))
      refine ⟨w', values.flatten, hstore, ?_, ?_⟩
      · rw [listBytes, hl.listValues_eq, Option.map_some]
      · rw [listBytes, hl'.listValues_eq, Option.map_some, List.flatten_append,
          List.flatten_singleton]

/-- A second value, for which there is memory, is stored behind the first. -/
theorem store_allOrNothing_second_value :
    ∃ s calls, (preparedWrites (.consecutive 40) true).run
        (preparedWrites (.consecutive 40) true).init [.prepare [1, 2] (some 1) (some 1)] =
          some (s, calls) ∧ AllOrNothing s.writes [3] (some 2) (some 2) := by
  have hsome : ((preparedWrites (.consecutive 40) true).run
      (preparedWrites (.consecutive 40) true).init [.prepare [1, 2] (some 1) (some 1)]).map
        (fun r => malloc r.1.writes.buffs (some 2)) = some (some 2) := by
    decide
  obtain ⟨⟨s, calls⟩, hrun, hb⟩ := Option.map_eq_some_iff.mp hsome
  refine ⟨s, calls, hrun, ?_⟩
  exact (store_allOrNothing_iff _ _ _ _ _ hrun [3] (by decide) (some 2) (some 2)).mpr
    (.inr (by simp [hb]))

/-- With memory for a node and none for the byte, `store_wr_buffer` does not return. -/
theorem store_not_allOrNothing :
    ¬ ∀ (t : HandleTable) (my_write_cb : Bool) (run : List LongWriteEvent) (s : SppServer)
        (calls : List SppCall), (preparedWrites t my_write_cb).run
          (preparedWrites t my_write_cb).init run = some (s, calls) →
      ∀ value ≠ [], ∀ node buff, AllOrNothing s.writes value node buff := by
  intro h
  obtain ⟨hfails, -⟩ := h (.consecutive 40) true [] _ _ rfl [1] (by decide) (some 1) none
  obtain ⟨w', hw', -⟩ := hfails (.inr rfl)
  cases hw'

end PartLib.Ble
