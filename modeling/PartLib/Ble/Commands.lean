import PartLib.Ble.SppServer
import PartLib.Lib.CString
import Mathlib.Data.List.Forall2

/-!
# Commands and the task that handles them

A client writes commands to the command characteristic. The handler puts each into a block of its
own and sends the address of the block to a queue of ten, from which `spp_cmd_task` takes it; the
task calls the write callback with the block, and frees it. The length of a command is not queued:
the task looks for a null character. `commands` is the handler and the task, a statement at a time.
A send waits at most ten milliseconds for room in the queue. Here a write is one step, so a write
whose send succeeds after some waiting is a write that comes when there is room.

A command that the queue refuses is in a block that nobody frees. Otherwise every block is queued, or
with the task, or free (`commands_iff`).
-/

namespace PartLib.Ble

/-- What `strlen` walks over: the bytes of a block, and the memory behind it. -/
structure Scan where
  buff : List UInt8
  beyond : List UInt8
  deriving DecidableEq

/-- The scan ends inside the block. -/
def Scan.Inside (c : Scan) : Prop := 0 ∈ c.buff

instance (c : Scan) : Decidable c.Inside := inferInstanceAs (Decidable (_ ∈ _))

/-- The bytes up to the null character that the scan finds. -/
def Scan.bytes (c : Scan) : List UInt8 := (c.buff ++ c.beyond).takeWhile (· ≠ 0)

/-- The statements of `spp_cmd_task`, with the address that it has received. -/
inductive CmdPc
  | delay
  | receive
  | logHex (cmd_id : ℕ)
  | writeCb (cmd_id : ℕ)
  | free (cmd_id : ℕ)
  deriving DecidableEq

/-- The statics of the server, and the task. -/
structure CmdServer where
  spp : SppServer
  task : CmdPc

/-- The moves: a write to the command characteristic, a change of the MTU, and the next statement of
the task, where a scan that leaves its block goes on over `beyond`. -/
inductive CmdInput
  | write (value : List UInt8) (offer : Option ℕ)
  | mtu (mtu : Mtu)
  | task (beyond : List UInt8)

/-- What is seen: the bytes that are logged and those of a call of the write callback, each with the
address of the block, and an access to a block that is not live. -/
inductive CmdOut
  | logHex (cmd_id : ℕ) (c : Scan)
  | writeCb (cmd_id : ℕ) (c : Scan)
  | fault
  deriving DecidableEq

/-- The access to a block that is not live, or a call through a null pointer. -/
def CmdServer.fault (s : CmdServer) : CmdServer × List CmdOut := (s, [.fault])

/-- A statement of `spp_cmd_task`. -/
def sppCmdTask (s : CmdServer) (beyond : List UInt8) : Option (CmdServer × List CmdOut) :=
  match s.task with
  | .delay => some ({ s with task := .receive }, [])
  | .receive =>
    match s.spp.cmd_cmd_queue with
    | [] => none
    | cmd_id :: rest =>
      some ({ spp := { s.spp with cmd_cmd_queue := rest }, task := .logHex cmd_id }, [])
  | .logHex cmd_id =>
    match s.spp.cmd_buffs.lookup cmd_id with
    | none => some s.fault
    | some buff => some ({ s with task := .writeCb cmd_id }, [.logHex cmd_id ⟨buff, beyond⟩])
  | .writeCb cmd_id =>
    match s.spp.cmd_buffs.lookup cmd_id with
    | none => some s.fault
    | some buff =>
      if s.spp.my_write_cb then
        some ({ s with task := .free cmd_id }, [.writeCb cmd_id ⟨buff, beyond⟩])
      else some s.fault
  | .free cmd_id =>
    match free s.spp.cmd_buffs (some cmd_id) with
    | none => some s.fault
    | some cmd_buffs => some ({ spp := { s.spp with cmd_buffs := cmd_buffs }, task := .delay }, [])

/-- The event handler as a step. -/
def CmdServer.gatt (s : CmdServer) (e : GattsEvent) : Option (CmdServer × List CmdOut) :=
  (gattsProfileEventHandler s.spp e).map fun r => ({ s with spp := r.1 }, [])

/-- The handler and the task, once the attribute table is filled. -/
def commands (t : HandleTable) : Machine CmdServer CmdInput CmdOut where
  init := ⟨{ SppServer.init with spp_handle_table := t.handles }, .delay⟩
  step s i :=
    match i with
    | .write value offer => s.gatt (.write ⟨t.handles .commandVal, false, value⟩ ⟨none, none, offer⟩)
    | .mtu mtu => s.gatt (.mtu mtu)
    | .task beyond => sppCmdTask s beyond

/-- The block that the task is processing. -/
def CmdPc.block : CmdPc → Option ℕ
  | .delay | .receive => none
  | .logHex cmd_id | .writeCb cmd_id | .free cmd_id => some cmd_id

/-- The block for which the task has still to call the write callback. -/
def CmdPc.toPass : CmdPc → Option ℕ
  | .delay | .receive | .free _ => none
  | .logHex cmd_id | .writeCb cmd_id => some cmd_id

/-- The values that are written to the command characteristic. -/
def received (h : List CmdInput) : List (List UInt8) :=
  h.filterMap fun i =>
    match i with
    | .write value _ => some value
    | _ => none

/-- The blocks with which the write callback is called. -/
def passed (os : List CmdOut) : List (List UInt8) :=
  os.filterMap fun o =>
    match o with
    | .writeCb _ c => some c.buff
    | _ => none

/-- The block of a command: its bytes, and zeros. -/
def Carries (buff value : List UInt8) : Prop := ∃ k, buff = value ++ List.replicate k 0

/-- Every live block is queued, once, or with the task, and not both; blocks that are queued or with
the task are live. So a block is either queued, or with the task, or free. -/
structure Owned (s : CmdServer) : Prop where
  nodup : (s.task.block.toList ++ s.spp.cmd_cmd_queue).Nodup
  live_iff : ∀ b, b ∈ s.spp.cmd_buffs ↔ b ∈ s.task.block.toList ++ s.spp.cmd_cmd_queue

/-- What holds when nothing goes wrong: the blocks are owned, none is used that is not live, and the
commands passed to the write callback are a subsequence of those received. -/
structure CommandsOk (h : List CmdInput) (os : List CmdOut) (s : CmdServer) : Prop where
  owned : Owned s
  no_fault : .fault ∉ os
  order : List.SublistForall₂ Carries (passed os) (received h)

/-- A command that gets a block finds room in the queue. -/
def HasRoom (s : CmdServer) : CmdInput → Prop
  | .write _ offer =>
    malloc s.spp.cmd_buffs offer ≠ none → s.spp.cmd_cmd_queue.length < cmdQueueLength
  | _ => True

instance (s : CmdServer) : (i : CmdInput) → Decidable (HasRoom s i)
  | .write _ _ => inferInstanceAs (Decidable (_ → _))
  | .mtu _ | .task _ => .isTrue trivial

/-! ## One step -/

/-- The block that the handler makes of a value with an MTU. -/
def commandBlock (mtu : ℕ) (value : List UInt8) : List UInt8 :=
  value ++ List.replicate (mtu - 3 - value.length) 0

/-- What a step does with the blocks: nothing, a new block is queued or refused, the task receives a
block, logs it, passes it on, and frees it, or it finds a block that is not live. -/
inductive CmdMove (s : CmdServer) : CmdInput → CmdServer → List CmdOut → Prop
  | quiet {i : CmdInput} {s' : CmdServer} (hblocks : s'.spp.cmd_buffs = s.spp.cmd_buffs)
      (hqueue : s'.spp.cmd_cmd_queue = s.spp.cmd_cmd_queue)
      (hblock : s'.task.block = s.task.block) (hpass : s'.task.toPass = s.task.toPass)
      (hroom : HasRoom s i) : CmdMove s i s' []
  | queued {s' : CmdServer} {value : List UInt8} {offer : Option ℕ} {b : ℕ}
      (hmalloc : malloc s.spp.cmd_buffs offer = some b)
      (hroom : s.spp.cmd_cmd_queue.length < cmdQueueLength)
      (hblocks : s'.spp.cmd_buffs =
        s.spp.cmd_buffs.insert b (commandBlock s.spp.spp_mtu_size value))
      (hqueue : s'.spp.cmd_cmd_queue = s.spp.cmd_cmd_queue ++ [b]) (htask : s'.task = s.task) :
      CmdMove s (.write value offer) s' []
  | refused {s' : CmdServer} {value : List UInt8} {offer : Option ℕ} {b : ℕ}
      (hmalloc : malloc s.spp.cmd_buffs offer = some b)
      (hfull : ¬ s.spp.cmd_cmd_queue.length < cmdQueueLength)
      (hblocks : s'.spp.cmd_buffs =
        s.spp.cmd_buffs.insert b (commandBlock s.spp.spp_mtu_size value))
      (hqueue : s'.spp.cmd_cmd_queue = s.spp.cmd_cmd_queue) (htask : s'.task = s.task) :
      CmdMove s (.write value offer) s' []
  | received {s' : CmdServer} {beyond : List UInt8} {b : ℕ} (htask : s.task = .receive)
      (hqueue : s.spp.cmd_cmd_queue = b :: s'.spp.cmd_cmd_queue)
      (hblocks : s'.spp.cmd_buffs = s.spp.cmd_buffs) (htask' : s'.task = .logHex b) :
      CmdMove s (.task beyond) s' []
  | logged {s' : CmdServer} {beyond : List UInt8} {b : ℕ} {buff : List UInt8}
      (htask : s.task = .logHex b) (hbuff : s.spp.cmd_buffs.lookup b = some buff)
      (hspp : s'.spp = s.spp) (htask' : s'.task = .writeCb b) :
      CmdMove s (.task beyond) s' [.logHex b ⟨buff, beyond⟩]
  | called {s' : CmdServer} {beyond : List UInt8} {b : ℕ} {buff : List UInt8}
      (htask : s.task = .writeCb b) (hbuff : s.spp.cmd_buffs.lookup b = some buff)
      (hspp : s'.spp = s.spp) (htask' : s'.task = .free b) :
      CmdMove s (.task beyond) s' [.writeCb b ⟨buff, beyond⟩]
  | freed {s' : CmdServer} {beyond : List UInt8} {b : ℕ} (htask : s.task = .free b)
      (hblocks : s'.spp.cmd_buffs = s.spp.cmd_buffs.erase b)
      (hqueue : s'.spp.cmd_cmd_queue = s.spp.cmd_cmd_queue) (htask' : s'.task = .delay) :
      CmdMove s (.task beyond) s' []
  | fault {beyond : List UInt8} {b : ℕ} (htask : s.task.block = some b)
      (hdead : b ∉ s.spp.cmd_buffs ∨ s.spp.my_write_cb = false) :
      CmdMove s (.task beyond) s [.fault]

/-- What stays of the statics. -/
structure CmdStatics (t : HandleTable) (s : CmdServer) : Prop where
  handles : s.spp.spp_handle_table = t.handles
  cb : s.spp.my_write_cb = true
  mtu : 23 ≤ s.spp.spp_mtu_size

/-- The copy of a value that fits into a block of zeros. -/
theorem memcpy_zeros {n : ℕ} {value : List UInt8} (h : value.length ≤ n) :
    memcpy (List.replicate n 0) 0 value 0 value.length =
      some (value ++ List.replicate (n - value.length) 0) := by
  have hcopy := @memcpy_natCast _ (List.replicate n (0 : UInt8)) value 0 0 value.length
    (by simpa using h) (by omega)
  rw [Nat.cast_zero] at hcopy
  rw [hcopy, List.drop_zero, List.take_length, splice, List.take_zero, List.nil_append,
    Nat.zero_add, List.drop_replicate]

/-- A copy that does not fit into a block has no result. -/
theorem memcpy_zeros_eq_none {n : ℕ} {value : List UInt8} (h : n < value.length) :
    memcpy (List.replicate n 0) 0 value 0 value.length = none := by
  rw [memcpy, if_neg]
  rw [List.length_replicate]
  omega

variable {t : HandleTable} {s s' : CmdServer} {i : CmdInput} {o os : List CmdOut}
  {h : List CmdInput}

/-- A write to the command characteristic. -/
theorem commands_write (hs : CmdStatics t s) (value : List UInt8) (offer : Option ℕ) :
    (commands t).step s (.write value offer) =
      (commandWrite s.spp value offer).map fun spp => ({ s with spp := spp }, []) := by
  simp only [commands, CmdServer.gatt, gattsProfileEventHandler, writeEvt, hs.handles,
    findCharAndDesrIndex_handles, if_true, Option.map_map]
  rfl

/-- What a write does with the blocks. -/
theorem commandWrite_move (hs : CmdStatics t s) {value : List UInt8} {offer : Option ℕ}
    (hstep : (commands t).step s (.write value offer) = some (s', o)) :
    CmdMove s (.write value offer) s' o ∧ CmdStatics t s' := by
  rw [commands_write hs] at hstep
  obtain ⟨spp, hwrite, heq⟩ := Option.map_eq_some_iff.mp hstep
  cases heq
  rw [commandWrite] at hwrite
  split at hwrite
  case h_1 hmalloc =>
    cases hwrite
    exact ⟨.quiet rfl rfl rfl rfl fun h => absurd hmalloc h, hs⟩
  case h_2 b hmalloc =>
    by_cases hlen : value.length ≤ s.spp.spp_mtu_size - 3
    · rw [memcpy_zeros hlen, Option.map_some] at hwrite
      cases hwrite
      refine ⟨?_, hs.handles, hs.cb, hs.mtu⟩
      by_cases hroom : s.spp.cmd_cmd_queue.length < cmdQueueLength
      · exact .queued hmalloc hroom rfl (if_pos hroom) rfl
      · exact .refused hmalloc hroom rfl (if_neg hroom) rfl
    · rw [memcpy_zeros_eq_none (Nat.lt_of_not_le hlen)] at hwrite
      cases hwrite

/-- What a statement of the task does with the blocks. -/
theorem sppCmdTask_move (hs : CmdStatics t s) {beyond : List UInt8}
    (hstep : sppCmdTask s beyond = some (s', o)) :
    CmdMove s (.task beyond) s' o ∧ CmdStatics t s' := by
  unfold sppCmdTask at hstep
  cases htask : s.task with
  | delay =>
    simp only [htask] at hstep
    cases hstep
    exact ⟨.quiet rfl rfl (by rw [htask]; rfl) (by rw [htask]; rfl) trivial, hs.handles, hs.cb,
      hs.mtu⟩
  | receive =>
    simp only [htask] at hstep
    split at hstep
    case h_1 => cases hstep
    case h_2 b rest hqueue =>
      cases hstep
      exact ⟨.received htask hqueue rfl rfl, hs.handles, hs.cb, hs.mtu⟩
  | logHex b =>
    simp only [htask] at hstep
    split at hstep
    case h_1 hnone =>
      cases hstep
      exact ⟨.fault (by rw [htask]; rfl) (.inl (AList.lookup_eq_none.mp hnone)), hs⟩
    case h_2 buff hbuff =>
      cases hstep
      exact ⟨.logged htask hbuff rfl rfl, hs.handles, hs.cb, hs.mtu⟩
  | writeCb b =>
    simp only [htask] at hstep
    split at hstep
    case h_1 hnone =>
      cases hstep
      exact ⟨.fault (by rw [htask]; rfl) (.inl (AList.lookup_eq_none.mp hnone)), hs⟩
    case h_2 buff hbuff =>
      rw [if_pos hs.cb] at hstep
      cases hstep
      exact ⟨.called htask hbuff rfl rfl, hs.handles, hs.cb, hs.mtu⟩
  | free b =>
    simp only [htask, free] at hstep
    by_cases hlive : b ∈ s.spp.cmd_buffs
    · rw [if_pos hlive] at hstep
      cases hstep
      exact ⟨.freed htask rfl rfl rfl, hs.handles, hs.cb, hs.mtu⟩
    · rw [if_neg hlive] at hstep
      cases hstep
      exact ⟨.fault (by rw [htask]; rfl) (.inl hlive), hs⟩

/-- What a step does with the blocks. -/
theorem commands_step (hs : CmdStatics t s) (hstep : (commands t).step s i = some (s', o)) :
    CmdMove s i s' o ∧ CmdStatics t s' := by
  cases i with
  | write value offer => exact commandWrite_move hs hstep
  | mtu mtu =>
    cases hstep
    exact ⟨.quiet rfl rfl rfl rfl trivial, hs.handles, hs.cb, mtu.ge⟩
  | task beyond => exact sppCmdTask_move hs hstep

/-! ## Blocks and their owners -/

/-- What holds in every run: the blocks that are queued or with the task are live and different, none
is used that is not live, and with those that are still to be passed on, the commands passed to the
write callback are a subsequence of those received. -/
structure CmdInv (t : HandleTable) (h : List CmdInput) (os : List CmdOut) (s : CmdServer) : Prop where
  statics : CmdStatics t s
  nodup : (s.task.block.toList ++ s.spp.cmd_cmd_queue).Nodup
  live : ∀ b ∈ s.task.block.toList ++ s.spp.cmd_cmd_queue, b ∈ s.spp.cmd_buffs
  no_fault : .fault ∉ os
  order : ∃ buffs, List.Forall₂ (fun b buff => s.spp.cmd_buffs.lookup b = some buff)
      (s.task.toPass.toList ++ s.spp.cmd_cmd_queue) buffs ∧
    List.SublistForall₂ Carries (passed os ++ buffs) (received h)

/-- The lookups of other blocks do not change. -/
theorem forall₂_lookup_congr {bs : List ℕ} {buffs : List (List UInt8)}
    {heap heap' : Heap (List UInt8)}
    (h : List.Forall₂ (fun b buff => heap.lookup b = some buff) bs buffs)
    (hsame : ∀ b ∈ bs, heap'.lookup b = heap.lookup b) :
    List.Forall₂ (fun b buff => heap'.lookup b = some buff) bs buffs := by
  induction h with
  | nil => exact .nil
  | @cons b buff bs buffs hb _ ih =>
    rw [List.forall_mem_cons] at hsame
    exact .cons (hsame.1.trans hb) (ih hsame.2)

/-- A subsequence with one more element on both sides. -/
theorem sublistForall₂_snoc {α β : Type*} {R : α → β → Prop} {as : List α} {bs : List β} {a : α}
    {b : β} (h : List.SublistForall₂ R as bs) (hab : R a b) :
    List.SublistForall₂ R (as ++ [a]) (bs ++ [b]) := by
  obtain ⟨bs', has, hbs⟩ := List.sublistForall₂_iff.mp h
  exact List.sublistForall₂_iff.mpr ⟨bs' ++ [b], List.rel_append has (.cons hab .nil),
    hbs.append_right [b]⟩

/-- The values received so far, and one more. -/
theorem received_write (h : List CmdInput) (value : List UInt8) (offer : Option ℕ) :
    received (h ++ [.write value offer]) = received h ++ [value] := List.filterMap_append

/-- The values received so far stay a beginning of those received. -/
theorem received_snoc_isPrefix (h : List CmdInput) (i : CmdInput) :
    received h <+: received (h ++ [i]) :=
  ⟨received [i], List.filterMap_append.symm⟩

/-- A step that passes nothing on. -/
theorem passed_append_nil {o : List CmdOut} (ho : passed o = []) (os : List CmdOut) :
    passed (os ++ o) = passed os := by
  rw [passed, List.filterMap_append, ← passed, ← passed, ho, List.append_nil]

/-- A subsequence stays one when more is received. -/
theorem sublistForall₂_received {as : List (List UInt8)}
    {hist : List CmdInput}
    (h : List.SublistForall₂ Carries as (received hist)) (i : CmdInput) :
    List.SublistForall₂ Carries as (received (hist ++ [i])) := by
  obtain ⟨bs, has, hbs⟩ := List.sublistForall₂_iff.mp h
  exact List.sublistForall₂_iff.mpr ⟨bs, has, hbs.trans (received_snoc_isPrefix hist i).sublist⟩

/-- A new block, whether it is queued or refused, is not one of those that are owned. -/
theorem CmdInv.fresh (hs : CmdInv t h os s) {offer : Option ℕ} {b : ℕ}
    (hmalloc : malloc s.spp.cmd_buffs offer = some b) :
    b ∉ s.task.block.toList ++ s.spp.cmd_cmd_queue := fun hb =>
  malloc_fresh hmalloc (hs.live b hb)

/-- The blocks to pass on are among those that are owned. -/
theorem toPass_subset (s : CmdServer) {b : ℕ} (h : b ∈ s.task.toPass.toList ++ s.spp.cmd_cmd_queue) :
    b ∈ s.task.block.toList ++ s.spp.cmd_cmd_queue := by
  rw [List.mem_append] at h ⊢
  refine h.imp_left fun h => ?_
  cases htask : s.task <;> simp [htask, CmdPc.toPass, CmdPc.block] at h ⊢ <;> exact h

/-- Every step keeps the invariant. -/
theorem CmdInv.step (hs : CmdInv t h os s) (hstep : (commands t).step s i = some (s', o)) :
    CmdInv t (h ++ [i]) (os ++ o) s' := by
  obtain ⟨hmove, hstatics⟩ := commands_step hs.statics hstep
  obtain ⟨buffs, hbuffs, horder⟩ := hs.order
  have hnodup := hs.nodup
  have hlive := hs.live
  have hmore := sublistForall₂_received horder i
  cases hmove with
  | quiet hblocks hqueue hblock hpass =>
    rw [List.append_nil]
    refine ⟨hstatics, by rwa [hblock, hqueue], by rwa [hblock, hqueue, hblocks], hs.no_fault,
      buffs, by rwa [hpass, hqueue, hblocks], hmore⟩
  | @queued _ value offer b hmalloc hroom hblocks hqueue htask =>
    have hfresh := hs.fresh hmalloc
    rw [List.append_nil]
    refine ⟨hstatics, ?_, ?_, hs.no_fault, buffs ++ [commandBlock s.spp.spp_mtu_size value], ?_, ?_⟩
    · rw [htask, hqueue, ← List.append_assoc, List.nodup_append]
      simp only [List.nodup_singleton, List.mem_singleton, true_and]
      refine ⟨hnodup, ?_⟩
      rintro a ha _ rfl rfl
      exact hfresh ha
    · rw [htask, hqueue, hblocks, ← List.append_assoc]
      intro a ha
      rw [AList.mem_insert]
      exact (List.mem_append.mp ha).symm.imp List.mem_singleton.mp (hlive a)
    · rw [htask, hqueue, hblocks, ← List.append_assoc]
      refine List.rel_append (forall₂_lookup_congr hbuffs fun a ha => ?_)
        (.cons (AList.lookup_insert _) .nil)
      exact AList.lookup_insert_ne fun hab => hfresh (hab ▸ toPass_subset s ha)
    · rw [← List.append_assoc, received_write]
      exact sublistForall₂_snoc horder ⟨_, rfl⟩
  | @refused _ value offer b hmalloc hfull hblocks hqueue htask =>
    have hfresh := hs.fresh hmalloc
    rw [List.append_nil]
    refine ⟨hstatics, by rwa [htask, hqueue], ?_, hs.no_fault, buffs, ?_, hmore⟩
    · rw [htask, hqueue, hblocks]
      exact fun a ha => (AList.mem_insert _).mpr (.inr (hlive a ha))
    · rw [htask, hqueue, hblocks]
      refine forall₂_lookup_congr hbuffs fun a ha => ?_
      exact AList.lookup_insert_ne fun hab => hfresh (hab ▸ toPass_subset s ha)
  | @received _ beyond b htask hqueue hblocks htask' =>
    rw [htask, hqueue] at hnodup hlive hbuffs
    rw [List.append_nil]
    exact ⟨hstatics, by rwa [htask'], by rwa [htask', hblocks], hs.no_fault, buffs,
      by rwa [htask', hblocks], hmore⟩
  | @logged _ beyond b buff htask hbuff hspp htask' =>
    rw [htask] at hnodup hlive hbuffs
    refine ⟨hstatics, by rwa [htask', hspp], by rwa [htask', hspp], by simpa using hs.no_fault,
      buffs, by rwa [htask', hspp], ?_⟩
    rwa [passed_append_nil (by rfl)]
  | @called _ beyond b buff htask hbuff hspp htask' =>
    rw [htask] at hnodup hlive hbuffs
    refine ⟨hstatics, by rwa [htask', hspp], by rwa [htask', hspp], by simpa using hs.no_fault, ?_⟩
    -- The block that is passed on is the first of those that were to be.
    cases hbuffs with
    | @cons _ first _ rest hfirst hrest =>
      obtain rfl : first = buff := Option.some.inj (hfirst.symm.trans hbuff)
      refine ⟨rest, by rwa [htask', hspp], ?_⟩
      have hpassed : passed (os ++ [.writeCb b ⟨first, beyond⟩]) = passed os ++ [first] :=
        List.filterMap_append
      rwa [hpassed, List.append_assoc, List.singleton_append]
  | @freed _ beyond b htask hblocks hqueue htask' =>
    rw [htask] at hnodup hlive hbuffs
    have hne : ∀ a ∈ s.spp.cmd_cmd_queue, a ≠ b := fun a ha hab =>
      (List.nodup_cons.mp hnodup).1 (hab ▸ ha)
    rw [List.append_nil]
    refine ⟨hstatics, ?_, ?_, hs.no_fault, buffs, ?_, hmore⟩
    · rw [htask', hqueue]
      exact (List.nodup_cons.mp hnodup).2
    · rw [htask', hqueue, hblocks]
      exact fun a ha => AList.mem_erase.mpr ⟨hne a ha, hlive a (List.mem_cons_of_mem _ ha)⟩
    · rw [htask', hqueue, hblocks]
      exact forall₂_lookup_congr hbuffs fun a ha => AList.lookup_erase_ne (hne a ha)
  | @fault beyond b htask hdead =>
    exfalso
    have hmem : b ∈ s.spp.cmd_buffs := hlive b (by rw [htask]; simp)
    rcases hdead with hdead | hdead
    · exact hdead hmem
    · rw [hs.statics.cb] at hdead
      cases hdead

/-- The invariant holds of every run. -/
theorem cmdInv_run (hrun : (commands t).run (commands t).init h = some (s, os)) :
    CmdInv t h os s := by
  have htriv : (commands t).AllSteps h fun _ _ _ _ _ => True := fun _ _ _ _ _ _ => trivial
  refine htriv.inv_outputs (I := CmdInv t) ?_ (fun _ _ _ _ _ _ hs _ => hs.step)
    (List.prefix_refl h) hrun
  exact ⟨⟨rfl, rfl, Nat.le_refl _⟩, by simp [commands, SppServer.init, CmdPc.block],
    by simp [commands, SppServer.init, CmdPc.block], by simp, [],
    by simp [commands, SppServer.init, CmdPc.toPass], .nil⟩

/-- Every live block is queued or with the task. -/
def NoLeak (s : CmdServer) : Prop :=
  ∀ b ∈ s.spp.cmd_buffs, b ∈ s.task.block.toList ++ s.spp.cmd_cmd_queue

/-- A step that finds room leaks no block. -/
theorem NoLeak.step (hs : CmdInv t h os s) (hleak : NoLeak s) (hroom : HasRoom s i)
    (hstep : (commands t).step s i = some (s', o)) : NoLeak s' := by
  intro a ha
  have hold := hleak a
  cases (commands_step hs.statics hstep).1 with
  | quiet hblocks hqueue hblock hpass =>
    rw [hblock, hqueue]
    exact hold (hblocks ▸ ha)
  | @queued _ value offer b hmalloc hroom hblocks hqueue htask =>
    rw [hblocks, AList.mem_insert] at ha
    rw [htask, hqueue, ← List.append_assoc, List.mem_append, List.mem_singleton]
    exact ha.symm.imp_left hold
  | refused hmalloc hfull hblocks hqueue htask =>
    exact absurd (hroom (by rw [hmalloc]; exact Option.some_ne_none _)) hfull
  | received htask hqueue hblocks htask' =>
    rw [htask, hqueue] at hold
    rw [htask']
    exact hold (hblocks ▸ ha)
  | logged htask hbuff hspp htask' =>
    rw [htask] at hold
    rw [htask', hspp]
    exact hold (hspp ▸ ha)
  | called htask hbuff hspp htask' =>
    rw [htask] at hold
    rw [htask', hspp]
    exact hold (hspp ▸ ha)
  | freed htask hblocks hqueue htask' =>
    rw [htask] at hold
    rw [hblocks, AList.mem_erase] at ha
    rw [htask', hqueue]
    exact (List.mem_cons.mp (hold ha.2)).resolve_left ha.1
  | fault htask hdead => exact hold ha

/-- A block that the queue refuses is not owned. -/
theorem not_owned_of_refused (hs : CmdInv t h os s)
    (hstep : (commands t).step s i = some (s', o)) (hroom : ¬ HasRoom s i) : ¬ Owned s' := by
  intro howned
  cases (commands_step hs.statics hstep).1 with
  | quiet _ _ _ _ hroom' => exact hroom hroom'
  | queued hmalloc hroom' => exact hroom fun _ => hroom'
  | @refused _ value offer b hmalloc hfull hblocks hqueue htask =>
    have hmem := (howned.live_iff b).mp (by rw [hblocks, AList.mem_insert]; exact .inl rfl)
    rw [htask, hqueue] at hmem
    exact hs.fresh hmalloc hmem
  | _ => exact hroom trivial

/-- In every state of a run each block is queued, or with the task, or free, no block is used or freed
that is not live, and the commands passed to the write callback are a subsequence of those received,
if and only if each command that gets a block finds room in the queue. -/
theorem commands_iff (t : HandleTable) (inputs : List CmdInput) :
    (∀ h os s, h <+: inputs → (commands t).run (commands t).init h = some (s, os) →
        CommandsOk h os s) ↔
      (commands t).AllSteps inputs fun _ s i _ _ => HasRoom s i := by
  constructor
  · intro hall h s i s' o hocc
    obtain ⟨past, hrun⟩ := hocc.before
    have hafter := (commands t).run_snoc_eq_some.mpr ⟨s, past, o, hrun, hocc.step, rfl⟩
    by_contra hroom
    exact not_owned_of_refused (cmdInv_run hrun) hocc.step hroom (hall _ _ _ hocc.isPrefix hafter).owned
  · intro hroom h os s hp hrun
    have hs := cmdInv_run hrun
    have hleak : NoLeak s := by
      refine (hroom.inv_outputs (I := fun h os s => CmdInv t h os s ∧ NoLeak s)
        ⟨cmdInv_run (Machine.run_nil _ _), ?_⟩ ?_ hp hrun).2
      · intro b hb
        simp [commands, SppServer.init] at hb
      · rintro h os s i s' o ⟨hs, hleak⟩ hroom hstep
        exact ⟨hs.step hstep, hleak.step hs hroom hstep⟩
    obtain ⟨buffs, -, horder⟩ := hs.order
    refine ⟨⟨hs.nodup, fun b => ⟨hleak b, hs.live b⟩⟩, hs.no_fault, ?_⟩
    obtain ⟨bs, has, hbs⟩ := List.sublistForall₂_iff.mp horder
    exact List.sublistForall₂_iff.mpr
      ⟨_, (List.forall₂_take_append bs _ _ has.flip).flip, (List.take_sublist _ _).trans hbs⟩

/-- Eleven commands in a row: the queue refuses the last one. -/
def burst : List CmdInput := (List.range 11).map fun i => .write [65] (some i)

/-- The block of the command that the queue refuses is live, and nobody has it. -/
theorem commands_leak :
    ¬ ∀ h os s, (commands (.consecutive 40)).run (commands (.consecutive 40)).init h =
      some (s, os) → CommandsOk h os s := by
  intro hall
  have hrun : ((commands (.consecutive 40)).run (commands (.consecutive 40)).init burst).map
      (fun r => decide (10 ∈ r.1.spp.cmd_buffs ∧
        10 ∉ r.1.task.block.toList ++ r.1.spp.cmd_cmd_queue)) = some true := by
    decide +kernel
  obtain ⟨⟨s, os⟩, hrun, hleak⟩ := Option.map_eq_some_iff.mp hrun
  obtain ⟨hlive, hlost⟩ := of_decide_eq_true hleak
  exact hlost (((hall _ _ _ hrun).owned.live_iff 10).mp hlive)

end PartLib.Ble
