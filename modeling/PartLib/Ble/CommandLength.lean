import PartLib.Ble.Commands

/-!
# The length of a command

The length of a command is not sent to `spp_cmd_task` with its block, which is zero behind the
command. The task looks for the first null character instead. It finds the command if there is none in
the command and the block is longer; with the default MTU of 23, a command of `SPP_CMD_MAX_LEN` bytes
fills its block, and the task reads what is behind it (`command_scan_iff`).
-/

namespace PartLib.Ble

variable {t : HandleTable} {s s' : CmdServer} {i : CmdInput} {o os : List CmdOut}
  {h : List CmdInput}

/-- `SPP_CMD_MAX_LEN`. -/
def sppCmdMaxLen : ℕ := 20

/-- A block with a command for which the write callback is still to be called. -/
structure Awaits (s : CmdServer) (b : ℕ) (buff : List UInt8) : Prop where
  toPass : b ∈ s.task.toPass.toList ++ s.spp.cmd_cmd_queue
  buff : s.spp.cmd_buffs.lookup b = some buff

/-- A step that does not call the write callback for a block leaves it as it is. What it logs and what
it calls the callback with are the bytes of the block. -/
theorem Awaits.step (hs : CmdInv t h os s) {b : ℕ} {buff : List UInt8} (hb : Awaits s b buff)
    (hstep : (commands t).step s i = some (s', o)) :
    (∀ c, .logHex b c ∈ o ∨ .writeCb b c ∈ o → c.buff = buff) ∧
      ((∀ c, .writeCb b c ∉ o) → Awaits s' b buff) := by
  have hpass := hb.toPass
  have hbuff := hb.buff
  have howned := toPass_subset s hpass
  cases (commands_step hs.statics hstep).1 with
  | quiet hblocks hqueue hblock hpass' =>
    exact ⟨by simp, fun _ => ⟨by rwa [hpass', hqueue], by rwa [hblocks]⟩⟩
  | @queued _ value offer a hmalloc hroom hblocks hqueue htask =>
    have hne : b ≠ a := fun h => hs.fresh hmalloc (h ▸ howned)
    refine ⟨by simp, fun _ => ⟨?_, by rwa [hblocks, AList.lookup_insert_ne hne]⟩⟩
    rw [htask, hqueue, ← List.append_assoc]
    exact List.mem_append_left _ hpass
  | @refused _ value offer a hmalloc hfull hblocks hqueue htask =>
    have hne : b ≠ a := fun h => hs.fresh hmalloc (h ▸ howned)
    exact ⟨by simp, fun _ => ⟨by rwa [htask, hqueue], by rwa [hblocks, AList.lookup_insert_ne hne]⟩⟩
  | @received _ beyond a htask hqueue hblocks htask' =>
    rw [htask, hqueue] at hpass
    exact ⟨by simp, fun _ => ⟨by rwa [htask'], by rwa [hblocks]⟩⟩
  | @logged _ beyond a buff' htask hbuff' hspp htask' =>
    rw [htask] at hpass
    refine ⟨fun c hc => ?_, fun _ => ⟨by rwa [htask', hspp], by rwa [hspp]⟩⟩
    simp only [List.mem_singleton, CmdOut.logHex.injEq, reduceCtorEq, or_false] at hc
    obtain ⟨rfl, rfl⟩ := hc
    exact Option.some.inj (hbuff'.symm.trans hbuff)
  | @called _ beyond a buff' htask hbuff' hspp htask' =>
    rw [htask] at hpass
    refine ⟨fun c hc => ?_, fun hno => ⟨?_, by rwa [hspp]⟩⟩
    · simp only [List.mem_singleton, CmdOut.writeCb.injEq, reduceCtorEq, false_or] at hc
      obtain ⟨rfl, rfl⟩ := hc
      exact Option.some.inj (hbuff'.symm.trans hbuff)
    · rw [htask', hspp]
      refine (List.mem_cons.mp hpass).resolve_left ?_
      rintro rfl
      exact hno _ List.mem_cons_self
  | @freed _ beyond a htask hblocks hqueue htask' =>
    have hnodup := hs.nodup
    rw [htask] at hpass hnodup
    have hne : b ≠ a := fun h => (List.nodup_cons.mp hnodup).1 (h ▸ hpass)
    exact ⟨by simp, fun _ => ⟨by rwa [htask', hqueue], by rwa [hblocks, AList.lookup_erase_ne hne]⟩⟩
  | fault htask hdead => exact ⟨by simp, fun _ => hb⟩

/-- A block awaits its call until the call comes. -/
theorem Awaits.run {h₀ : List CmdInput} {os₀ : List CmdOut} {s₀ : CmdServer}
    (h₀run : (commands t).run (commands t).init h₀ = some (s₀, os₀)) {b : ℕ} {buff : List UInt8}
    (hb : Awaits s₀ b buff) {is : List CmdInput} : ∀ {s : CmdServer} {past : List CmdOut},
      (commands t).run s₀ is = some (s, past) → (∀ c, .writeCb b c ∉ past) →
        Awaits s b buff ∧ ∃ h os, (commands t).run (commands t).init h = some (s, os) := by
  induction is using List.reverseRecOn with
  | nil =>
    intro s past hrun _
    cases hrun
    exact ⟨hb, _, _, h₀run⟩
  | append_singleton is i ih =>
    intro s past hrun hno
    obtain ⟨s₁, past₁, o, hrun₁, hstep, rfl⟩ := (commands t).run_snoc_eq_some.mp hrun
    obtain ⟨hb₁, h, os, hh⟩ := ih hrun₁ fun c hc => hno c (List.mem_append_left o hc)
    refine ⟨(Awaits.step (cmdInv_run hh) hb₁ hstep).2 fun c hc =>
      hno c (List.mem_append_right past₁ hc), h ++ [i], os ++ o, ?_⟩
    exact (commands t).run_snoc_eq_some.mpr ⟨s₁, os, o, hh, hstep, rfl⟩

/-- The statements of the task until the queue is empty and it waits for the next command. -/
def CmdServer.remaining (s : CmdServer) : ℕ :=
  5 * s.spp.cmd_cmd_queue.length + match s.task with
    | .logHex _ => 4
    | .writeCb _ => 3
    | .free _ => 2
    | .delay => 1
    | .receive => 0

/-- While a block awaits its call, the task goes on. -/
theorem Awaits.goes_on (hs : CmdInv t h os s) {b : ℕ} {buff : List UInt8} (hb : Awaits s b buff)
    (beyond : List UInt8) : ∃ s' o, (commands t).step s (.task beyond) = some (s', o) ∧
      s'.remaining < s.remaining := by
  have hlive : ∀ a, s.task.block = some a → a ∈ s.spp.cmd_buffs := fun a ha =>
    hs.live a (by simp [ha])
  simp only [commands, sppCmdTask, CmdServer.remaining]
  cases htask : s.task with
  | delay => exact ⟨_, _, rfl, by simp⟩
  | receive =>
    cases hqueue : s.spp.cmd_cmd_queue with
    | nil =>
      have hpass := hb.toPass
      simp [htask, hqueue, CmdPc.toPass] at hpass
    | cons a rest => exact ⟨_, _, rfl, by simp; omega⟩
  | logHex a =>
    obtain ⟨buff', hbuff'⟩ := Option.isSome_iff_exists.mp
      (AList.lookup_isSome.mpr (hlive a (by rw [htask]; rfl)))
    simp only [hbuff']
    exact ⟨_, _, rfl, by simp⟩
  | writeCb a =>
    obtain ⟨buff', hbuff'⟩ := Option.isSome_iff_exists.mp
      (AList.lookup_isSome.mpr (hlive a (by rw [htask]; rfl)))
    simp only [hbuff', hs.statics.cb, if_true]
    exact ⟨_, _, rfl, by simp⟩
  | free a =>
    simp only [free, hlive a (by rw [htask]; rfl), if_true]
    exact ⟨_, _, rfl, by simp⟩

/-- The call comes after finitely many statements of the task. -/
theorem Awaits.called {b : ℕ} {buff : List UInt8} : ∀ {s : CmdServer} {h : List CmdInput}
    {os : List CmdOut}, (commands t).run (commands t).init h = some (s, os) → Awaits s b buff →
      ∃ k s' past c, (commands t).run s (List.replicate k (.task [])) = some (s', past) ∧
        .writeCb b c ∈ past := by
  intro s
  induction hk : s.remaining using Nat.strong_induction_on generalizing s with
  | _ k ih =>
    intro h os hrun hb
    subst hk
    obtain ⟨s₁, o, hstep, hlt⟩ := hb.goes_on (cmdInv_run hrun) []
    by_cases hcall : ∃ c, .writeCb b c ∈ o
    · obtain ⟨c, hc⟩ := hcall
      refine ⟨1, s₁, o, c, ?_, hc⟩
      rw [List.replicate_one, Machine.run_cons, hstep]
      simp
    · have hb₁ := (hb.step (cmdInv_run hrun) hstep).2 fun c hc => hcall ⟨c, hc⟩
      have hrun₁ := (commands t).run_snoc_eq_some.mpr ⟨s, os, o, hrun, hstep, rfl⟩
      obtain ⟨k, s', past, c, hrun', hc⟩ := ih _ hlt rfl hrun₁ hb₁
      refine ⟨k + 1, s', o ++ past, c, ?_, List.mem_append_right _ hc⟩
      rw [List.replicate_succ, Machine.run_cons, hstep, Option.bind_some, hrun']
      rfl

/-- In the block of a command, the scan ends inside the block and finds the command if and only if
there is no null character in the command and room for one behind it. -/
theorem scan_commandBlock_iff {mtu : ℕ} {value beyond : List UInt8}
    (hlen : value.length ≤ mtu - 3) :
    (Scan.Inside ⟨commandBlock mtu value, beyond⟩ ∧
        Scan.bytes ⟨commandBlock mtu value, beyond⟩ = value) ↔
      0 ∉ value ∧ value.length < mtu - 3 := by
  simp only [Scan.Inside, Scan.bytes, commandBlock, List.mem_append, List.mem_replicate]
  constructor
  · rintro ⟨hin, hbytes⟩
    have hno : 0 ∉ value := by
      intro h0
      rw [← hbytes] at h0
      simpa using List.mem_takeWhile_imp h0
    exact ⟨hno, by have := (hin.resolve_left hno).1; omega⟩
  · rintro ⟨hno, hroom⟩
    obtain ⟨k, hk⟩ : ∃ k, mtu - 3 - value.length = k + 1 := ⟨mtu - 3 - value.length - 1, by omega⟩
    have hall : ∀ a ∈ value, decide (a ≠ 0) = true := fun a ha =>
      decide_eq_true fun h => hno (h ▸ ha)
    refine ⟨.inr ⟨by omega, trivial⟩, ?_⟩
    rw [hk, List.replicate_succ, List.append_assoc, List.takeWhile_append_of_pos hall]
    simp

/-- A command of at most 20 bytes that fits into a write is copied into its block. If the queue takes
the block, the task comes to call the write callback for it; and its scans end inside the block and
find the command, whatever happens before, if and only if there is no null character in the command
and it is shorter than the block. -/
theorem command_scan_iff {t : HandleTable} {h : List CmdInput} {s : CmdServer} {os : List CmdOut}
    (hrun : (commands t).run (commands t).init h = some (s, os)) {value : List UInt8}
    (hlen : value.length ≤ min sppCmdMaxLen (s.spp.spp_mtu_size - 3)) (offer : Option ℕ) :
    ∃ s₁, (commands t).step s (.write value offer) = some (s₁, []) ∧
      ∀ b, malloc s.spp.cmd_buffs offer = some b →
        s.spp.cmd_cmd_queue.length < cmdQueueLength →
        (∃ k s₂ past c, (commands t).run s₁ (List.replicate k (.task [])) = some (s₂, past) ∧
          .writeCb b c ∈ past) ∧
        ∀ is s₂ past i s₃ o, (commands t).run s₁ is = some (s₂, past) →
          (∀ c, .writeCb b c ∉ past) → (commands t).step s₂ i = some (s₃, o) →
          ∀ c, .logHex b c ∈ o ∨ .writeCb b c ∈ o →
            (c.Inside ∧ c.bytes = value ↔ 0 ∉ value ∧ value.length < s.spp.spp_mtu_size - 3) := by
  have hs := cmdInv_run hrun
  have hfit : value.length ≤ s.spp.spp_mtu_size - 3 := hlen.trans (Nat.min_le_right _ _)
  have hwrite := commands_write hs.statics value offer
  rw [commandWrite, memcpy_zeros hfit] at hwrite
  cases hmalloc : malloc s.spp.cmd_buffs offer with
  | none =>
    simp only [hmalloc, Option.map_some] at hwrite
    exact ⟨_, hwrite, fun b hb => by cases hb⟩
  | some b =>
    simp only [hmalloc, Option.map_some] at hwrite
    refine ⟨_, hwrite, fun b' hb' hroom => ?_⟩
    cases hb'
    rw [if_pos hroom] at hwrite ⊢
    -- The block awaits its call from the write on.
    have hafter := (commands t).run_snoc_eq_some.mpr ⟨s, os, [], hrun, hwrite, rfl⟩
    have hqueued : Awaits
        { s with spp := { s.spp with
          cmd_buffs := s.spp.cmd_buffs.insert b (commandBlock s.spp.spp_mtu_size value)
          cmd_cmd_queue := s.spp.cmd_cmd_queue ++ [b] } }
        b (commandBlock s.spp.spp_mtu_size value) := ⟨by simp, AList.lookup_insert _⟩
    refine ⟨Awaits.called hafter hqueued, fun is s₂ past i s₃ o his hno hstep c hc => ?_⟩
    obtain ⟨hawaits, h', os', hrun'⟩ := Awaits.run hafter hqueued his hno
    have hbuff := (Awaits.step (cmdInv_run hrun') hawaits hstep).1 c hc
    obtain ⟨buff, beyond⟩ := c
    obtain rfl : buff = commandBlock s.spp.spp_mtu_size value := hbuff
    exact scan_commandBlock_iff hfit

/-- While the task waits with a command before it in the queue, a command of 19 bytes is written, with
the default MTU. -/
theorem command_scan_iff_nineteen :
    ∃ s os, (commands (.consecutive 40)).run (commands (.consecutive 40)).init
        [.write [66] (some 0), .write [67] (some 1), .task []] = some (s, os) ∧
      ∃ s₁, (commands (.consecutive 40)).step s (.write (List.replicate 19 65) (some 2)) =
          some (s₁, []) ∧
        (∃ k s₂ past c, (commands (.consecutive 40)).run s₁ (List.replicate k (.task [])) =
          some (s₂, past) ∧ .writeCb 2 c ∈ past) ∧
        ∀ is s₂ past i s₃ o, (commands (.consecutive 40)).run s₁ is = some (s₂, past) →
          (∀ c, .writeCb 2 c ∉ past) → (commands (.consecutive 40)).step s₂ i = some (s₃, o) →
          ∀ c, .logHex 2 c ∈ o ∨ .writeCb 2 c ∈ o →
            c.Inside ∧ c.bytes = List.replicate 19 65 := by
  refine ⟨_, _, rfl, ?_⟩
  obtain ⟨s₁, hstep, hcalled⟩ := @command_scan_iff (.consecutive 40)
    [.write [66] (some 0), .write [67] (some 1), .task []] _ _ rfl (List.replicate 19 65) (by decide)
    (some 2)
  obtain ⟨hcall, hscan⟩ := hcalled 2 (by decide) (by decide)
  refine ⟨s₁, hstep, hcall, fun is s₂ past i s₃ o hrun hno hi c hc => ?_⟩
  exact (hscan is s₂ past i s₃ o hrun hno hi c hc).mpr (by decide)

/-- A command of twenty bytes with the default MTU: the scan leaves the block. -/
theorem command_scan_leaves_block :
    ∃ value : List UInt8, value.length ≤ min sppCmdMaxLen (23 - 3) ∧ ∃ s os c,
      (commands (.consecutive 40)).run (commands (.consecutive 40)).init
          (.write value (some 0) :: List.replicate 4 (.task [66])) = some (s, os) ∧
        .writeCb 0 c ∈ os ∧ ¬ c.Inside ∧ c.bytes ≠ value := by
  have hrun : ((commands (.consecutive 40)).run (commands (.consecutive 40)).init
      (.write (List.replicate 20 65) (some 0) :: List.replicate 4 (.task [66]))).map (fun r => r.2) =
        some [.logHex 0 ⟨List.replicate 20 65, [66]⟩, .writeCb 0 ⟨List.replicate 20 65, [66]⟩] := by
    decide +kernel
  obtain ⟨⟨s, os⟩, hrun, rfl⟩ := Option.map_eq_some_iff.mp hrun
  exact ⟨List.replicate 20 65, by decide, s, _, ⟨List.replicate 20 65, [66]⟩, hrun, by simp,
    by decide, by decide⟩

end PartLib.Ble
