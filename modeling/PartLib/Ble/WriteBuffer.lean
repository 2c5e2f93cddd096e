import PartLib.Lib.LinkedList

/-!
# The list of prepared writes

`ble_spp_server.c` keeps the values of a long write in a linked list until it is executed:
`store_wr_buffer` appends a node, `print_write_buffer` hands every value to the write callback, and
`free_write_buffer` empties the list. The list lives in four statics and on the heap, as here: the
nodes and their buffers are blocks, and a use of a block that is not live has no result.

`Holds` says that the statics and the heap represent a list of values. Each function has one theorem
about it: storing appends a value, printing hands over the values in order, and freeing leaves the
empty list.
-/

namespace PartLib.Ble

/-- `spp_receive_data_node_t`: a node of the list, with the length of its value, the block that
holds the value, and the next node. -/
structure SppReceiveDataNode where
  len : ℤ
  node_buff : Option ℕ
  next_node : Option ℕ
  deriving DecidableEq, Repr

/-- The statics of the list (`temp_spp_recv_data_node_p1`, `temp_spp_recv_data_node_p2`, and the
fields of `SppRecvDataBuff`) and the heap blocks of its nodes and of their values. -/
structure WriteBuffer where
  temp_spp_recv_data_node_p1 : Option ℕ
  temp_spp_recv_data_node_p2 : Option ℕ
  node_num : ℤ
  buff_size : ℤ
  first_node : Option ℕ
  nodes : Heap SppReceiveDataNode
  buffs : Heap (List UInt8)

/-- The statics as the program starts, with nothing allocated. -/
def WriteBuffer.init : WriteBuffer := ⟨none, none, 0, 0, none, ∅, ∅⟩

/-! ## The functions -/

/-- `memcpy` of a value into the block just allocated for it; a copy of no bytes touches none. -/
def storeBytes (buffs : Heap (List UInt8)) (node_buff : Option ℕ) (value : List UInt8) :
    Option (Heap (List UInt8)) :=
  match node_buff with
  | none => if value = [] then some buffs else none
  | some b => some (buffs.insert b value)

/-- The `len` bytes that the write callback reads at `node_buff`. -/
def readBytes (buffs : Heap (List UInt8)) (node_buff : Option ℕ) (len : ℤ) : Option (List UInt8) :=
  if len = 0 then some []
  else
    (node_buff.bind buffs.lookup).bind fun bytes =>
      if 0 ≤ len ∧ len ≤ bytes.length then some (bytes.take len.toNat) else none

/-- Leading the last node, if there is one, to the new node `p1`. -/
def linkLast (w : WriteBuffer) (p1 : ℕ) : Option (Heap SppReceiveDataNode) :=
  match w.temp_spp_recv_data_node_p2 with
  | none => some w.nodes
  | some p2 => (w.nodes.lookup p2).map fun n => w.nodes.insert p2 { n with next_node := some p1 }

/-- The statics and blocks with the node `p1` stored behind the last one. -/
def WriteBuffer.stored (w : WriteBuffer) (value : List UInt8) (p1 : ℕ) (node_buff : Option ℕ)
    (linked : Heap SppReceiveDataNode) (buffs : Heap (List UInt8)) : WriteBuffer where
  temp_spp_recv_data_node_p1 := some p1
  temp_spp_recv_data_node_p2 := some p1
  node_num := w.node_num + 1
  buff_size := w.buff_size + value.length
  first_node := if w.node_num = 0 then some p1 else w.first_node
  nodes := linked.insert p1 ⟨value.length, node_buff, none⟩
  buffs := buffs

/-- `store_wr_buffer` on a prepared value, with what the allocator offers for the node and for its
buffer. The result of the second allocation is not checked. -/
def storeWrBuffer (w : WriteBuffer) (value : List UInt8) (node buff : Option ℕ) :
    Option (Bool × WriteBuffer) :=
  match malloc w.nodes node with
  | none => some (false, { w with temp_spp_recv_data_node_p1 := none })
  | some p1 =>
    (linkLast w p1).bind fun linked =>
      -- `node_buff` may be null, which `memcpy` then writes to.
      let node_buff := malloc w.buffs buff
      (storeBytes w.buffs node_buff value).map fun buffs =>
        (true, w.stored value p1 node_buff linked buffs)

/-- The loop of `print_write_buffer` from the node `p1`: the values handed to the write callback, if
one is registered. The fuel is a number of passes; as many as there are live nodes are enough, since
a walk that takes more comes back to a node and never ends. -/
def printLoop (w : WriteBuffer) (my_write_cb : Bool) : ℕ → Option ℕ → Option (List (List UInt8))
  | _, none => some []
  | 0, some _ => none
  | fuel + 1, some p1 => do
    let n ← w.nodes.lookup p1
    let calls ← if my_write_cb then (readBytes w.buffs n.node_buff n.len).map ([·]) else some []
    let rest ← printLoop w my_write_cb fuel n.next_node
    some (calls ++ rest)

/-- `print_write_buffer`: the values handed to the write callback, and the state after. -/
def printWriteBuffer (w : WriteBuffer) (my_write_cb : Bool) :
    Option (List (List UInt8) × WriteBuffer) :=
  (printLoop w my_write_cb w.nodes.entries.length w.first_node).map fun calls =>
    (calls, { w with temp_spp_recv_data_node_p1 := none })

/-- The loop of `free_write_buffer` from the node `p1`. -/
def freeLoop : ℕ → Option ℕ → WriteBuffer → Option WriteBuffer
  | _, none, w => some { w with temp_spp_recv_data_node_p1 := none }
  | 0, some _, _ => none
  | fuel + 1, some p1, w => do
    -- The node is read before it is freed.
    let n ← w.nodes.lookup p1
    let buffs ← free w.buffs n.node_buff
    let nodes ← free w.nodes (some p1)
    freeLoop fuel n.next_node
      { w with temp_spp_recv_data_node_p2 := n.next_node, nodes, buffs }

/-- `free_write_buffer`. -/
def freeWriteBuffer (w : WriteBuffer) : Option WriteBuffer :=
  (freeLoop w.nodes.entries.length w.first_node w).map fun w' =>
    { w' with node_num := 0, buff_size := 0, first_node := none }

/-- A call of `free`: of the value of a node, or of a node. -/
inductive FreeCall
  | buff (node_buff : Option ℕ)
  | node (p1 : ℕ)
  deriving DecidableEq

/-- The calls of `free` that the loop of `free_write_buffer` makes, in order. -/
def freeCalls : ℕ → Option ℕ → WriteBuffer → Option (List FreeCall)
  | _, none, _ => some []
  | 0, some _, _ => none
  | fuel + 1, some p1, w => do
    let n ← w.nodes.lookup p1
    let buffs ← free w.buffs n.node_buff
    let nodes ← free w.nodes (some p1)
    let rest ← freeCalls fuel n.next_node
      { w with temp_spp_recv_data_node_p2 := n.next_node, nodes, buffs }
    some (.buff n.node_buff :: .node p1 :: rest)

/-- What a call of `free` does to the blocks. -/
def FreeCall.perform (h : Heap SppReceiveDataNode × Heap (List UInt8)) :
    FreeCall → Option (Heap SppReceiveDataNode × Heap (List UInt8))
  | .buff node_buff => (free h.2 node_buff).map fun buffs => (h.1, buffs)
  | .node p1 => (free h.1 (some p1)).map fun nodes => (nodes, h.2)

/-! ## What the list represents -/

/-- The pointer `node_buff` leads to a block with the bytes of `value`; it may be null when there
are none. -/
def BuffHolds (buffs : Heap (List UInt8)) (node_buff : Option ℕ) (value : List UInt8) : Prop :=
  (node_buff = none ∧ value = []) ∨ ∃ b, node_buff = some b ∧ buffs.lookup b = some value

/-- What a node says of its value: the length and the block. -/
def SppReceiveDataNode.payload (n : SppReceiveDataNode) : ℤ × Option ℕ := (n.len, n.node_buff)

/-- The payloads of nodes with their addresses. -/
abbrev payloads (l : List (ℕ × SppReceiveDataNode)) : List (ℤ × Option ℕ) :=
  l.map fun x => x.2.payload

/-- A payload holds a value. -/
def PayloadHolds (buffs : Heap (List UInt8)) (x : ℤ × Option ℕ) (value : List UInt8) : Prop :=
  x.1 = value.length ∧ BuffHolds buffs x.2 value

/-- The statics and the heap represent the values `values`, in the nodes `l`: the nodes follow one
another from `first_node` to the null pointer, the last of them is `temp_spp_recv_data_node_p2`, the
counters count them, and no two nodes share an address or a block. -/
structure Holds (w : WriteBuffer) (l : List (ℕ × SppReceiveDataNode))
    (values : List (List UInt8)) : Prop where
  segment : Segment SppReceiveDataNode.next_node w.nodes w.first_node l none
  nodup : (l.map Prod.fst).Nodup
  last : w.temp_spp_recv_data_node_p2 = l.getLast?.map Prod.fst
  node_num : w.node_num = l.length
  buff_size : w.buff_size = (values.map List.length).sum
  contents : List.Forall₂ (PayloadHolds w.buffs) (payloads l) values
  buffs_nodup : ((payloads l).filterMap Prod.snd).Nodup

/-- No block is lost: each that is live is a node of `l` or holds the value of one. -/
structure OwnsAll (w : WriteBuffer) (l : List (ℕ × SppReceiveDataNode)) : Prop where
  nodes : ∀ a ∈ w.nodes, a ∈ l.map Prod.fst
  buffs : ∀ b ∈ w.buffs, b ∈ (payloads l).filterMap Prod.snd

/-- Nothing is stored as the program starts. -/
theorem holds_init : Holds WriteBuffer.init [] [] where
  segment := rfl
  nodup := List.nodup_nil
  last := rfl
  node_num := rfl
  buff_size := rfl
  contents := .nil
  buffs_nodup := List.nodup_nil

/-- Nothing is allocated as the program starts. -/
theorem ownsAll_init : OwnsAll WriteBuffer.init [] where
  nodes := by simp [WriteBuffer.init]
  buffs := by simp [WriteBuffer.init]

variable {w : WriteBuffer} {l : List (ℕ × SppReceiveDataNode)} {values : List (List UInt8)}

/-- What the list represents does not depend on `temp_spp_recv_data_node_p1`. -/
theorem Holds.withP1 (h : Holds w l values) (p1 : Option ℕ) :
    Holds { w with temp_spp_recv_data_node_p1 := p1 } l values :=
  ⟨h.1, h.2, h.3, h.4, h.5, h.6, h.7⟩

/-- Reading the bytes of a payload gives its value. -/
theorem readBytes_of_payloadHolds {buffs : Heap (List UInt8)} {x : ℤ × Option ℕ}
    {value : List UInt8} (h : PayloadHolds buffs x value) :
    readBytes buffs x.2 x.1 = some value := by
  obtain ⟨hlen, hbuff⟩ := h
  rw [readBytes, hlen]
  rcases hbuff with ⟨-, rfl⟩ | ⟨b, hb, hlook⟩
  · simp
  · rw [hb, Option.bind_some, hlook, Option.bind_some]
    split_ifs with h0 h1
    · have hnil : value = [] := List.eq_nil_of_length_eq_zero (by exact_mod_cast h0)
      rw [hnil]
    · simp
    · omega

/-- A block that holds a value is live. -/
theorem mem_of_mem_payloads {buffs : Heap (List UInt8)} {ps : List (ℤ × Option ℕ)}
    {values : List (List UInt8)} (h : List.Forall₂ (PayloadHolds buffs) ps values) {b : ℕ}
    (hb : b ∈ ps.filterMap Prod.snd) : b ∈ buffs := by
  induction h with
  | nil => cases hb
  | @cons x v ps vs hx _ ih =>
    obtain ⟨y, hy, hyb⟩ := List.mem_filterMap.mp hb
    rcases List.mem_cons.mp hy with rfl | hy
    · rcases hx.2 with ⟨hnone, -⟩ | ⟨b', hb', hlook⟩
      · rw [hnone] at hyb
        cases hyb
      · rw [hb'] at hyb
        cases hyb
        exact mem_of_lookup hlook
    · exact ih (List.mem_filterMap.mpr ⟨y, hy, hyb⟩)

/-! ## `store_wr_buffer` -/

/-- When the buffer was allocated, or there are no bytes to copy, the copy gives a block with the
value, and no other, and leaves every other block as it was. -/
theorem storeBytes_spec {buffs : Heap (List UInt8)} {node_buff : Option ℕ} {value : List UInt8}
    (hfresh : ∀ b, node_buff = some b → b ∉ buffs) (hok : value = [] ∨ node_buff.isSome) :
    ∃ buffs', storeBytes buffs node_buff value = some buffs' ∧
      BuffHolds buffs' node_buff value ∧ (∀ p v, BuffHolds buffs p v → BuffHolds buffs' p v) ∧
      ∀ b ∈ buffs', node_buff = some b ∨ b ∈ buffs := by
  cases node_buff with
  | none =>
    have hv : value = [] := by simpa using hok
    exact ⟨buffs, by simp [storeBytes, hv], .inl ⟨rfl, hv⟩, fun _ _ h => h, fun _ h => .inr h⟩
  | some b =>
    refine ⟨buffs.insert b value, rfl, .inr ⟨b, rfl, AList.lookup_insert _⟩, ?_, ?_⟩
    · rintro p v (h | ⟨b', rfl, hlook⟩)
      · exact .inl h
      · have hne : b' ≠ b := by
          rintro rfl
          rw [AList.lookup_eq_none.mpr (hfresh b' rfl)] at hlook
          cases hlook
        exact .inr ⟨b', rfl, by rw [AList.lookup_insert_ne hne, hlook]⟩
    · intro b' hb'
      exact ((AList.mem_insert _).mp hb').imp_left fun he => by rw [he]

/-- Linking a new node behind the nodes of the list: the same addresses and payloads, and a chain
that ends at the new node whatever is then written there. -/
theorem linkLast_spec (h : Holds w l values) {p1 : ℕ} (hp1 : p1 ∉ w.nodes) :
    ∃ linked l', linkLast w p1 = some linked ∧ l'.map Prod.fst = l.map Prod.fst ∧
      payloads l' = payloads l ∧ (∀ a ∈ linked, a ∈ w.nodes) ∧
      ∀ n, Segment SppReceiveDataNode.next_node (linked.insert p1 n)
        (if w.node_num = 0 then some p1 else w.first_node) l' (some p1) := by
  have hp1l : p1 ∉ l.map Prod.fst := h.segment.notMem hp1
  rcases List.eq_nil_or_concat' l with rfl | ⟨l₀, ⟨z, n⟩, rfl⟩
  · refine ⟨w.nodes, [], ?_, rfl, rfl, fun _ ha => ha, fun n => ?_⟩
    · rw [linkLast, h.last]
      rfl
    · have h0 : w.node_num = 0 := h.node_num
      rw [if_pos h0]
      rfl
  · -- The last node `z` is led to the new one; the nodes before it stay.
    obtain ⟨m, hseg₀, hm, hz, -⟩ := segment_append.mp h.segment
    have hzl : z ∉ l₀.map Prod.fst := by
      have hnd := h.nodup
      rw [List.map_append, List.nodup_append] at hnd
      exact fun hmem => hnd.2.2 z hmem z (by simp) rfl
    have hpz : z ≠ p1 := fun he => hp1l (by simp [he])
    have hp1l₀ : p1 ∉ l₀.map Prod.fst := fun hmem => hp1l (by simp [hmem])
    refine ⟨w.nodes.insert z { n with next_node := some p1 },
      l₀ ++ [(z, { n with next_node := some p1 })], ?_, by simp, ?_, fun a ha => ?_, fun n' => ?_⟩
    · have hlast : w.temp_spp_recv_data_node_p2 = some z := by simp [h.last]
      rw [linkLast, hlast]
      simp only [hz, Option.map_some]
    · simp [payloads, SppReceiveDataNode.payload]
    · rcases (AList.mem_insert _).mp ha with rfl | ha
      · exact mem_of_lookup hz
      · exact ha
    · have hne : w.node_num ≠ 0 := by
        rw [h.node_num, List.length_append, List.length_singleton]
        omega
      rw [if_neg hne]
      refine segment_append.mpr ⟨some z, ?_, rfl, ?_, rfl⟩
      · exact hm ▸ (hseg₀.insert hzl _).insert hp1l₀ _
      · rw [AList.lookup_insert_ne hpz, AList.lookup_insert]

/-- Storing a value when both allocations succeed, or the second is of no bytes: the list has the
value at its end, and no block is lost. -/
theorem storeWrBuffer_holds (h : Holds w l values) {value : List UInt8} {node buff : Option ℕ}
    {p1 : ℕ} (hn : malloc w.nodes node = some p1)
    (hb : value = [] ∨ (malloc w.buffs buff).isSome) :
    ∃ w' l', storeWrBuffer w value node buff = some (true, w') ∧
      Holds w' l' (values ++ [value]) ∧ (OwnsAll w l → OwnsAll w' l') := by
  have hp1 : p1 ∉ w.nodes := malloc_fresh hn
  obtain ⟨linked, l', hlink, haddr, hpay, hlinked, hseg⟩ := linkLast_spec h hp1
  obtain ⟨buffs', hstore, hnew, hkeep, hbuffs⟩ := storeBytes_spec (fun b hb => malloc_fresh hb) hb
  have hold : List.Forall₂ (PayloadHolds buffs') (payloads l) values :=
    h.contents.imp fun x v hx => ⟨hx.1, hkeep _ _ hx.2⟩
  have hlen : l'.length = l.length := by simpa using congrArg List.length haddr
  refine ⟨w.stored value p1 (malloc w.buffs buff) linked buffs',
    l' ++ [(p1, ⟨value.length, malloc w.buffs buff, none⟩)], ?_, ?_, fun hown => ?_⟩
  · simp only [storeWrBuffer, hn, hlink, hstore, Option.bind_some, Option.map_some]
  · exact
      { segment := segment_append.mpr ⟨some p1, hseg _, rfl, AList.lookup_insert _, rfl⟩
        nodup := by
          rw [List.map_append, haddr]
          exact h.nodup.append (List.nodup_singleton _) (by simpa using h.segment.notMem hp1)
        last := by simp [WriteBuffer.stored]
        node_num := by simp [WriteBuffer.stored, h.node_num, hlen]
        buff_size := by simp [WriteBuffer.stored, h.buff_size]
        contents := by
          rw [payloads, List.map_append, ← payloads, hpay]
          exact List.rel_append hold (.cons ⟨rfl, hnew⟩ .nil)
        buffs_nodup := by
          rw [payloads, List.map_append, ← payloads, hpay, List.filterMap_append]
          refine h.buffs_nodup.append (by
            simp only [List.map_cons, List.map_nil, List.filterMap_cons]
            split <;> simp) ?_
          -- A block of an older value is live, so it is not the new block.
          intro b hbl hbn
          have hmb : malloc w.buffs buff = some b := by
            simpa [SppReceiveDataNode.payload] using hbn
          exact malloc_fresh hmb (mem_of_mem_payloads h.contents hbl) }
  · refine ⟨fun a ha => ?_, fun b hb => ?_⟩
    · rw [List.map_append, haddr, List.mem_append]
      rcases (AList.mem_insert _).mp ha with rfl | ha
      · exact .inr List.mem_cons_self
      · exact .inl (hown.nodes a (hlinked a ha))
    · rw [payloads, List.map_append, ← payloads, hpay, List.filterMap_append, List.mem_append]
      rcases hbuffs b hb with hnew | hold
      · exact .inr (by simp [SppReceiveDataNode.payload, hnew])
      · exact .inl (hown.buffs b hold)

/-! ## `print_write_buffer` -/

/-- From the head of a list of values, the loop hands them over in order when a callback is
registered, with fuel for as many passes as there are nodes. -/
theorem printLoop_spec {p : Option ℕ} {fuel : ℕ} (my_write_cb : Bool)
    (hseg : Segment SppReceiveDataNode.next_node w.nodes p l none)
    (hval : List.Forall₂ (PayloadHolds w.buffs) (payloads l) values) (hfuel : l.length ≤ fuel) :
    printLoop w my_write_cb fuel p = some (if my_write_cb then values else []) := by
  induction l generalizing p values fuel with
  | nil =>
    obtain rfl : p = none := hseg
    obtain rfl : values = [] := by simpa using hval
    cases fuel <;> simp [printLoop]
  | cons x l ih =>
    obtain ⟨a, n⟩ := x
    obtain ⟨rfl, hn, hseg⟩ := hseg
    obtain ⟨v, vs, hv, hvs, rfl⟩ := List.forall₂_cons_left_iff.mp hval
    obtain ⟨fuel, rfl⟩ : ∃ k, fuel = k + 1 := Nat.exists_eq_add_of_le' (by simp at hfuel; omega)
    have hread : readBytes w.buffs n.node_buff n.len = some v := readBytes_of_payloadHolds hv
    have hrest := ih hseg hvs (by simpa using hfuel)
    cases my_write_cb <;> simp [printLoop, hn, hread, hrest]

/-- Printing hands over the values in the order in which they were stored, and leaves the list. -/
theorem printWriteBuffer_holds (h : Holds w l values) (my_write_cb : Bool) :
    ∃ w', printWriteBuffer w my_write_cb = some (if my_write_cb then values else [], w') ∧
      Holds w' l values ∧ (OwnsAll w l → OwnsAll w' l) := by
  -- Only `temp_spp_recv_data_node_p1` changes, which the representation does not mention.
  refine ⟨{ w with temp_spp_recv_data_node_p1 := none }, ?_, h.withP1 none,
    fun hown => ⟨hown.1, hown.2⟩⟩
  rw [printWriteBuffer,
    printLoop_spec my_write_cb h.segment h.contents (h.segment.length_le h.nodup)]
  rfl

/-! ## `free_write_buffer` -/

/-- Freeing the block of the first of some values, which share no block, keeps the blocks of the
others. -/
theorem free_payload {buffs : Heap (List UInt8)} {x : ℤ × Option ℕ} {ps : List (ℤ × Option ℕ)}
    {v : List UInt8} {values : List (List UInt8)} (hx : PayloadHolds buffs x v)
    (hps : List.Forall₂ (PayloadHolds buffs) ps values)
    (hnd : ((x :: ps).filterMap Prod.snd).Nodup) :
    ∃ buffs', free buffs x.2 = some buffs' ∧ List.Forall₂ (PayloadHolds buffs') ps values := by
  rcases hx.2 with ⟨hnone, -⟩ | ⟨b, hb, hlook⟩
  · exact ⟨buffs, by rw [hnone]; rfl, hps⟩
  · have hmem : b ∈ buffs := mem_of_lookup hlook
    refine ⟨buffs.erase b, by rw [hb, free, if_pos hmem], ?_⟩
    rw [List.filterMap_cons_some hb, List.nodup_cons] at hnd
    replace hnd := hnd.1
    induction hps with
    | nil => exact .nil
    | @cons y u ps values hy _ ih =>
      refine .cons ⟨hy.1, ?_⟩ (ih fun hmem => hnd ?_)
      · rcases hy.2 with hnone | ⟨b', hb', hlook'⟩
        · exact .inl hnone
        · have hne : b' ≠ b := by
            rintro rfl
            exact hnd (List.mem_filterMap.mpr ⟨y, List.mem_cons_self, hb'⟩)
          exact .inr ⟨b', hb', by rw [AList.lookup_erase_ne hne, hlook']⟩
      · obtain ⟨z, hz, hzb⟩ := List.mem_filterMap.mp hmem
        exact List.mem_filterMap.mpr ⟨z, List.mem_cons_of_mem _ hz, hzb⟩

/-- The calls of `free` for one node: its value is freed before it. -/
def FreeCall.ofNode (x : ℕ × SppReceiveDataNode) : List FreeCall := [.buff x.2.node_buff, .node x.1]

/-- From the head of a list, the loop frees its nodes and their values, one after another. -/
theorem freeCalls_spec {l : List (ℕ × SppReceiveDataNode)} {values : List (List UInt8)} :
    ∀ {w : WriteBuffer} {p : Option ℕ} {fuel : ℕ},
      Segment SppReceiveDataNode.next_node w.nodes p l none → (l.map Prod.fst).Nodup →
      List.Forall₂ (PayloadHolds w.buffs) (payloads l) values →
      ((payloads l).filterMap Prod.snd).Nodup → l.length ≤ fuel →
      freeCalls fuel p w = some (l.flatMap FreeCall.ofNode) := by
  induction l generalizing values with
  | nil =>
    rintro w p fuel hp - - - -
    obtain rfl : p = none := hp
    cases fuel <;> rfl
  | cons x l ih =>
    obtain ⟨a, n⟩ := x
    rintro w p fuel ⟨rfl, hn, hseg⟩ hnd hval hbnd hfuel
    obtain ⟨v, vs, hv, hvs, rfl⟩ := List.forall₂_cons_left_iff.mp hval
    obtain ⟨fuel, rfl⟩ : ∃ k, fuel = k + 1 := Nat.exists_eq_add_of_le' (by simp at hfuel; omega)
    have ha : a ∈ w.nodes := mem_of_lookup hn
    rw [List.map_cons, List.nodup_cons] at hnd
    obtain ⟨buffs', hfree, hrest⟩ := free_payload hv hvs hbnd
    have hbnd' : ((payloads l).filterMap Prod.snd).Nodup :=
      hbnd.sublist ((List.sublist_cons_self _ _).filterMap _)
    have hcalls := ih (w := { w with
        temp_spp_recv_data_node_p2 := n.next_node, nodes := w.nodes.erase a, buffs := buffs' })
      (hseg.erase hnd.1) hnd.2 hrest hbnd' (by simpa using hfuel)
    have hfn : free w.nodes (some a) = some (w.nodes.erase a) := by rw [free, if_pos ha]
    change free w.buffs n.node_buff = some buffs' at hfree
    simp only [freeCalls, hn, hfree, hfn, hcalls, Option.bind_eq_bind, Option.bind_some]
    rfl

/-- The loop ends when its calls of `free` do: it has freed what they free, and the last pointer to a
node is null when there was one. -/
theorem freeLoop_of_freeCalls {fuel : ℕ} {p : Option ℕ} {w : WriteBuffer} {calls : List FreeCall}
    (h : freeCalls fuel p w = some calls) :
    ∃ w', freeLoop fuel p w = some w' ∧
      calls.foldlM FreeCall.perform (w.nodes, w.buffs) = some (w'.nodes, w'.buffs) ∧
      w'.temp_spp_recv_data_node_p2 =
        if p = none then w.temp_spp_recv_data_node_p2 else none := by
  induction fuel generalizing p w calls with
  | zero =>
    cases p with
    | none =>
      cases h
      exact ⟨_, rfl, rfl, rfl⟩
    | some p1 => cases h
  | succ fuel ih =>
    cases p with
    | none =>
      cases h
      exact ⟨_, rfl, rfl, rfl⟩
    | some p1 =>
      simp only [freeCalls, Option.bind_eq_bind, Option.bind_eq_some_iff, Option.some.injEq] at h
      obtain ⟨n, hn, buffs, hbuffs, nodes, hnodes, rest, hrest, rfl⟩ := h
      obtain ⟨w', hw', hperform, hp2⟩ := ih hrest
      refine ⟨w', ?_, ?_, ?_⟩
      · simp only [freeLoop, hn, hbuffs, hnodes, Option.bind_eq_bind, Option.bind_some]
        exact hw'
      · simp only [List.foldlM_cons, FreeCall.perform, hbuffs, hnodes, Option.map_some,
          Option.bind_eq_bind, Option.bind_some]
        exact hperform
      · rw [hp2, if_neg (Option.some_ne_none p1)]
        exact ite_eq_right_iff.mpr id

/-- A block that is live after some calls of `free` was live before, and is none that they free. -/
theorem live_of_perform {calls : List FreeCall} :
    ∀ {nodes nodes' : Heap SppReceiveDataNode} {buffs buffs' : Heap (List UInt8)},
      calls.foldlM FreeCall.perform (nodes, buffs) = some (nodes', buffs') →
      (∀ a ∈ nodes', a ∈ nodes ∧ .node a ∉ calls) ∧
        ∀ b ∈ buffs', b ∈ buffs ∧ .buff (some b) ∉ calls := by
  induction calls with
  | nil =>
    intro nodes nodes' buffs buffs' h
    cases h
    simp
  | cons call calls ih =>
    intro nodes nodes' buffs buffs' h
    obtain ⟨⟨nodes₁, buffs₁⟩, hcall, hcalls⟩ := Option.bind_eq_some_iff.mp h
    obtain ⟨hnodes, hbuffs⟩ := ih hcalls
    cases call with
    | buff node_buff =>
      obtain ⟨buffs₂, hfree, heq⟩ := Option.map_eq_some_iff.mp hcall
      obtain ⟨rfl, rfl⟩ := Prod.mk.inj heq
      refine ⟨fun a ha => ⟨(hnodes a ha).1, ?_⟩, fun b hb => ⟨?_, ?_⟩⟩
      · simpa using (hnodes a ha).2
      · exact (mem_of_free hfree (hbuffs b hb).1).1
      · have hne := (mem_of_free hfree (hbuffs b hb).1).2
        simpa [hne.symm] using (hbuffs b hb).2
    | node p1 =>
      obtain ⟨nodes₂, hfree, heq⟩ := Option.map_eq_some_iff.mp hcall
      obtain ⟨rfl, rfl⟩ := Prod.mk.inj heq
      refine ⟨fun a ha => ⟨?_, ?_⟩, fun b hb => ⟨(hbuffs b hb).1, ?_⟩⟩
      · exact (mem_of_free hfree (hnodes a ha).1).1
      · have hne := (mem_of_free hfree (hnodes a ha).1).2
        have hne' : a ≠ p1 := fun he => hne (by rw [he])
        simpa [hne'] using (hnodes a ha).2
      · simpa using (hbuffs b hb).2

/-- Freeing the list frees its nodes and their values, and leaves the empty list; no block stays live
unless it was lost before. -/
theorem freeWriteBuffer_holds (h : Holds w l values) :
    freeCalls w.nodes.entries.length w.first_node w = some (l.flatMap FreeCall.ofNode) ∧
      ∃ w', freeWriteBuffer w = some w' ∧
        (l.flatMap FreeCall.ofNode).foldlM FreeCall.perform (w.nodes, w.buffs) =
          some (w'.nodes, w'.buffs) ∧
        Holds w' [] [] ∧ (OwnsAll w l → OwnsAll w' []) := by
  have hcalls := freeCalls_spec h.segment h.nodup h.contents h.buffs_nodup
    (h.segment.length_le h.nodup)
  obtain ⟨w', hw', hperform, hp2⟩ := freeLoop_of_freeCalls hcalls
  obtain ⟨hnodes, hbuffs⟩ := live_of_perform hperform
  refine ⟨hcalls, { w' with node_num := 0, buff_size := 0, first_node := none }, ?_, hperform, ?_,
    fun hown => ⟨fun a ha => ?_, fun b hb => ?_⟩⟩
  · rw [freeWriteBuffer, hw']
    rfl
  · -- With no node there was no last node, and otherwise the loop has cleared the pointer to it.
    have hlast : w'.temp_spp_recv_data_node_p2 = none := by
      rw [hp2]
      split_ifs with hfirst
      · rw [h.last, h.segment.eq_nil hfirst]
        rfl
      · rfl
    exact ⟨rfl, List.nodup_nil, hlast, rfl, rfl, .nil, List.nodup_nil⟩
  · obtain ⟨hlive, hkept⟩ := hnodes a ha
    obtain ⟨x, hx, rfl⟩ := List.mem_map.mp (hown.nodes a hlive)
    exact absurd (List.mem_flatMap.mpr ⟨x, hx, by simp [FreeCall.ofNode]⟩) hkept
  · obtain ⟨hlive, hkept⟩ := hbuffs b hb
    obtain ⟨y, hy, hyb⟩ := List.mem_filterMap.mp (hown.buffs b hlive)
    obtain ⟨x, hx, rfl⟩ := List.mem_map.mp hy
    refine absurd (List.mem_flatMap.mpr ⟨x, hx, ?_⟩) hkept
    simp only [SppReceiveDataNode.payload] at hyb
    simp [FreeCall.ofNode, hyb]

end PartLib.Ble
