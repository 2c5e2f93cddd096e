import PartLib.Ble.ConsolePrint
import PartLib.Ble.LinkGate
import PartLib.Ble.Uplink

/-!
# From `console_printf` to the notifications

What tasks print goes through `tx_queue` and the array of `link_task` before it is sent, a character
and a statement at a time, while other tasks print and the stack has events. An observer notes what
each task prints, and which character of which task is put into the queue.

As long as no event changes the MTU between the first and the last fragment of a line, nothing is
lost, repeated, or put out of order on the way (`console_delivers`): the characters of each task go
into the queue in their order, without a gap, and the values sent are the frames of lines that make
up, one after another, what was put into the queue, less the null characters.
-/

namespace PartLib.Ble

/-! ## Where the task stands in a line -/

/-- The array of the task holds a line. -/
structure LineHeld (line : List UInt8) (t : LinkTask) : Prop where
  temp_le : line.length ≤ t.temp.length
  temp : t.temp.take line.length = line
  linesize : t.linesize = line.length

/-- The line can be delivered, and does not fit into a notification with the MTU `m`. -/
structure IsCut (m : ℕ) (line : List UInt8) : Prop where
  deliverable : Deliverable line
  lt : m - 3 < line.length

/-- The task is at a statement of the loop, at the fragment `i` of a line that is cut. -/
structure CutAt (m : ℕ) (pc : LinkPc) (line : List UInt8) (i : ℕ) (t : LinkTask) : Prop where
  held : LineHeld line t
  frag : AtFragment pc (m - 3) t.temp line.length (fragCount m line.length) i t

/-- The task has read `line`, and `k` of its frames are sent; `m` is the MTU that the line is compared
with, and `buf` what `__link_tx` has stored in this call. -/
inductive AtLine (m : ℕ) (spp : SppServer) :
    List UInt8 → ℕ → List UInt8 → LinkTask → Prop
  | gate {t : LinkTask} (hpc : t.pc = .gate ∨ t.pc = .idle ∨ t.pc = .free) : AtLine m spp [] 0 [] t
  | gateNtf {t : LinkTask} (hpc : t.pc = .gateNtf) (hline : t.linesize = 0) : AtLine m spp [] 0 [] t
  | read {t : LinkTask} {buf : List UInt8} (hpc : t.pc = .read) (htemp : t.temp.length = uplinkBufsize)
      (hnull : 0 ∉ buf) (hnewline : newline ∉ buf) (hlt : buf.length < uplinkBufsize) :
      AtLine m spp buf 0 buf t
  | size {t : LinkTask} {line : List UInt8} (hpc : t.pc = .size) (hheld : LineHeld line t)
      (hline : line = [] ∨ Deliverable line) : AtLine m spp line 0 [] t
  | whole {t : LinkTask} {line : List UInt8} (hpc : t.pc = .sendWhole) (hheld : LineHeld line t)
      (hline : Deliverable line) (hfit : line.length ≤ m - 3) : AtLine m spp line 0 [] t
  | total {t : LinkTask} {line : List UInt8} (hm : spp.spp_mtu_size = m) (hpc : t.pc = .total)
      (hheld : LineHeld line t) (hline : IsCut m line) : AtLine m spp line 0 [] t
  | malloc {t : LinkTask} {line : List UInt8} (hm : spp.spp_mtu_size = m) (hpc : t.pc = .malloc)
      (hheld : LineHeld line t) (hline : IsCut m line) (htotal : t.total_num = fragCount m line.length)
      (hcurrent : t.current_num = 1) : AtLine m spp line 0 [] t
  | loop {t : LinkTask} {line : List UInt8} {i : ℕ} (hm : spp.spp_mtu_size = m ∨ fragCount m line.length ≤ i)
      (hi : i ≤ fragCount m line.length) (hline : IsCut m line) (hcut : CutAt m .loop line i t) :
      AtLine m spp line i [] t
  | fill {t : LinkTask} {line : List UInt8} {i : ℕ} (hm : spp.spp_mtu_size = m)
      (hi : i < fragCount m line.length) (hline : IsCut m line) (hcut : CutAt m .fill line i t) :
      AtLine m spp line i [] t
  | sendFrag {t : LinkTask} {line : List UInt8} {i : ℕ} (hm : spp.spp_mtu_size = m)
      (hi : i < fragCount m line.length) (hline : IsCut m line) (hcut : CutAt m .sendFrag line i t)
      (hbuff : ∀ buff ∈ t.ntf_value_p, buff.take (4 + (slice (m - 7) line i).length) =
        fragment m line i) : AtLine m spp line i [] t
  | delay {t : LinkTask} {line : List UInt8} {i : ℕ}
      (hm : spp.spp_mtu_size = m ∨ fragCount m line.length ≤ i + 1)
      (hi : i < fragCount m line.length) (hline : IsCut m line) (hcut : CutAt m .delay line i t) :
      AtLine m spp line (i + 1) [] t
  | dead {t : LinkTask} {line : List UInt8} (hpc : t.pc = .dead) (hline : Deliverable line) :
      AtLine m spp line 0 [] t

/-- From `k` frames of a line on, the task sends these values, and comes to `k'` frames of the same
line, or the line is done. -/
inductive Goes (m : ℕ) (line : List UInt8) (k : ℕ) (values : List (List UInt8)) :
    ℕ → List UInt8 → ℕ → Prop
  | on {m' k' : ℕ} (h : (frames m line).take k ++ values = (frames m' line).take k') :
      Goes m line k values m' line k'
  | done (h : (frames m line).take k ++ values = frames m line) (hline : Deliverable line) :
      Goes m line k values m [] 0

section

variable {m i : ℕ} {line : List UInt8} {spp : SppServer} {ans : LinkAns} {t t' : LinkTask}
  {acts : List LinkAct}

/-- The frames of a line that is cut are its fragments. -/
theorem IsCut.frames_eq (h : IsCut m line) :
    frames m line = (List.range (fragCount m line.length)).map (fragment m line) := by
  unfold frames
  rw [if_neg (Nat.not_le_of_lt h.lt)]

/-- One fragment more. -/
theorem IsCut.take_succ (h : IsCut m line) (hi : i < fragCount m line.length) :
    (frames m line).take (i + 1) = (frames m line).take i ++ [fragment m line i] := by
  rw [h.frames_eq, List.take_add_one, List.getElem?_map, List.getElem?_range hi]
  rfl

/-- All the fragments. -/
theorem IsCut.take_all (h : IsCut m line) (hi : fragCount m line.length ≤ i) :
    (frames m line).take i = frames m line := by
  apply List.take_of_length_le
  rw [h.frames_eq, List.length_map, List.length_range]
  exact hi

/-- Nothing is sent, and nothing of the line was. -/
theorem Goes.start {m' : ℕ} : Goes m line 0 [] m' line 0 := .on rfl

/-- The comparison of the size of a line with the MTU. -/
theorem AtLine.step_size (hpc : t.pc = .size) (hheld : LineHeld line t)
    (hline : line = [] ∨ Deliverable line) (hstep : linkStep spp ans t = some (t', acts)) :
    ∃ m' line' k', Goes m line 0 (notifications acts) m' line' k' ∧ m' = spp.spp_mtu_size ∧
      AtLine m' spp line' k' [] t' := by
  refine ⟨spp.spp_mtu_size, line, 0, ?_⟩
  have hlen := hheld.linesize
  simp only [linkStep, hpc] at hstep
  split_ifs at hstep with hsize hfit <;> cases hstep
  · have hne : line ≠ [] := List.ne_nil_of_length_pos (by omega)
    exact ⟨.start, rfl, .whole rfl ⟨hheld.temp_le, hheld.temp, hlen⟩ (hline.resolve_left hne)
      (by omega)⟩
  · have hne : line ≠ [] := List.ne_nil_of_length_pos (by omega)
    exact ⟨.start, rfl, .total rfl rfl ⟨hheld.temp_le, hheld.temp, hlen⟩
      ⟨hline.resolve_left hne, by omega⟩⟩
  · -- Only an empty line is not sent.
    have hnil : line = [] := by
      rcases hline with hnil | hdel
      · exact hnil
      · have := hdel.length_le
        exact List.eq_nil_of_length_eq_zero (by omega)
    subst hnil
    exact ⟨.start, rfl, .gate (.inl rfl)⟩

/-- A line that fits is sent. -/
theorem AtLine.step_whole (hpc : t.pc = .sendWhole) (hheld : LineHeld line t)
    (hline : Deliverable line) (hfit : line.length ≤ m - 3)
    (hstep : linkStep spp ans t = some (t', acts)) :
    Goes m line 0 (notifications acts) m [] 0 ∧ AtLine m spp [] 0 [] t' := by
  have hlen := hheld.linesize
  have htemp := hheld.temp_le
  have hsend : sendIndicate spp t.temp t.linesize = some (spp.indicate line) := by
    unfold sendIndicate
    rw [hlen, if_pos (by omega), Int.toNat_natCast, hheld.temp]
    rfl
  simp only [linkStep, hpc, hsend, Option.map_some, Option.some.injEq, Prod.mk.injEq] at hstep
  obtain ⟨rfl, rfl⟩ := hstep
  refine ⟨.done ?_ hline, .gate (.inl rfl)⟩
  unfold frames
  rw [if_pos hfit]
  rfl

/-- The number of the fragments is computed. -/
theorem AtLine.step_total (hm : 23 ≤ m) (hspp : spp.spp_mtu_size = m) (hpc : t.pc = .total)
    (hheld : LineHeld line t) (hline : IsCut m line)
    (hstep : linkStep spp ans t = some (t', acts)) :
    Goes m line 0 (notifications acts) m line 0 ∧ AtLine m spp line 0 [] t' := by
  have htotal := total_eq hm hline.deliverable.length_le
  have hpos : ((m : ℤ) - 7) ≠ 0 := by omega
  simp only [linkStep, hpc, hspp, if_neg hpos, hheld.linesize, htotal, Option.some.injEq,
    Prod.mk.injEq] at hstep
  obtain ⟨rfl, rfl⟩ := hstep
  exact ⟨.start, .malloc hspp rfl ⟨hheld.temp_le, hheld.temp, rfl⟩ hline rfl rfl⟩

/-- The buffer of the fragments is allocated, or the task ends. -/
theorem AtLine.step_malloc (hspp : spp.spp_mtu_size = m) (hpc : t.pc = .malloc)
    (hheld : LineHeld line t) (hline : IsCut m line) (htotal : t.total_num = fragCount m line.length)
    (hcurrent : t.current_num = 1) (hstep : linkStep spp ans t = some (t', acts)) :
    Goes m line 0 (notifications acts) m line 0 ∧ AtLine m spp line 0 [] t' := by
  simp only [linkStep, hpc] at hstep
  cases hmalloc : ans.malloc with
  | none =>
    rw [hmalloc] at hstep
    cases hstep
    exact ⟨.start, .dead rfl hline.deliverable⟩
  | some contents =>
    rw [hmalloc] at hstep
    cases hstep
    refine ⟨.start, .loop (.inl hspp) (Nat.zero_le _) hline
      ⟨⟨hheld.temp_le, hheld.temp, hheld.linesize⟩, ?_⟩⟩
    exact ⟨rfl, rfl, hheld.linesize, htotal, hcurrent, _, rfl, by simp [hspp]⟩

/-- The statements of the loop leave the line in the array. -/
theorem CutAt.next {pc pc' : LinkPc} {j : ℕ} (hcut : CutAt m pc line i t)
    (hfrag : AtFragment pc' (m - 3) t.temp line.length (fragCount m line.length) j t') :
    CutAt m pc' line j t' where
  held := by
    have hheld := hcut.held
    exact ⟨hfrag.temp ▸ hheld.temp_le, hfrag.temp ▸ hheld.temp, hfrag.linesize⟩
  frag := hfrag.temp ▸ hfrag

/-- The copy of a fragment stays inside the array and the buffer. -/
theorem CutAt.fits {pc : LinkPc} (hm : 23 ≤ m) (hi : i < fragCount m line.length)
    (hcut : CutAt m pc line i t) :
    CopyFits (m - 3) t.temp.length line.length (fragCount m line.length) m i := by
  obtain ⟨hzero, hdst, hsrc⟩ := copyFits_line hm line hi
  have htemp := hcut.held.temp_le
  exact ⟨hzero, hdst, by omega⟩

/-- What is sent for a fragment is the fragment of the line. -/
theorem CutAt.fragmentValue_eq {pc : LinkPc} (hm : 23 ≤ m) (hi : i < fragCount m line.length)
    (hcut : CutAt m pc line i t) :
    fragmentValue t.temp line.length (fragCount m line.length) m i = fragment m line i := by
  unfold fragmentValue fragment
  rw [payloadAt_eq hm hcut.held.temp hi]

/-- The test of the loop. -/
theorem AtLine.step_loop (hspp : spp.spp_mtu_size = m ∨ fragCount m line.length ≤ i)
    (hi : i ≤ fragCount m line.length) (hline : IsCut m line) (hcut : CutAt m .loop line i t)
    (hstep : linkStep spp ans t = some (t', acts)) :
    ∃ line' k', Goes m line i (notifications acts) m line' k' ∧ AtLine m spp line' k' [] t' := by
  by_cases hlt : i < fragCount m line.length
  · obtain ⟨t₁, hloop, hfrag⟩ := linkStep_loop spp ans hlt hcut.frag
    rw [hloop] at hstep
    cases hstep
    exact ⟨line, i, .on (List.append_nil _),
      .fill (hspp.resolve_right (Nat.not_le_of_lt hlt)) hlt hline (hcut.next hfrag)⟩
  · have hend : ¬ i + 1 ≤ t.total_num := by
      rw [hcut.frag.total_num]
      omega
    simp only [linkStep, hcut.frag.pc, hcut.frag.current_num, if_neg hend, Option.some.injEq,
      Prod.mk.injEq] at hstep
    obtain ⟨rfl, rfl⟩ := hstep
    refine ⟨[], 0, .done ?_ hline.deliverable, .gate (.inr (.inr rfl))⟩
    rw [hline.take_all (Nat.le_of_not_lt hlt)]
    exact List.append_nil _

/-- The copy of a fragment. -/
theorem AtLine.step_fill (hm : 23 ≤ m) (hspp : spp.spp_mtu_size = m)
    (hi : i < fragCount m line.length) (hline : IsCut m line) (hcut : CutAt m .fill line i t)
    (hstep : linkStep spp ans t = some (t', acts)) :
    Goes m line i (notifications acts) m line i ∧ AtLine m spp line i [] t' := by
  subst hspp
  obtain ⟨hsome, -⟩ := linkStep_fill ans hm (by omega) hcut.frag
  obtain ⟨t₁, hfill, hfrag, hbuff⟩ := hsome (hcut.fits hm hi)
  rw [hfill] at hstep
  cases hstep
  rw [hcut.fragmentValue_eq hm hi, copyLen_eq hm line hi, Int.toNat_natCast] at hbuff
  exact ⟨.on (List.append_nil _), .sendFrag rfl hi hline (hcut.next hfrag) hbuff⟩

/-- A fragment is sent. -/
theorem AtLine.step_sendFrag (hm : 23 ≤ m) (hspp : spp.spp_mtu_size = m)
    (hi : i < fragCount m line.length) (hline : IsCut m line) (hcut : CutAt m .sendFrag line i t)
    (hbuff : ∀ buff ∈ t.ntf_value_p, buff.take (4 + (slice (m - 7) line i).length) =
      fragment m line i) (hstep : linkStep spp ans t = some (t', acts)) :
    Goes m line i (notifications acts) m line (i + 1) ∧ AtLine m spp line (i + 1) [] t' := by
  subst hspp
  have hvalue := hcut.fragmentValue_eq hm hi
  have hbuff' : ∀ buff ∈ t.ntf_value_p,
      buff.take (4 + (copyLen line.length (fragCount spp.spp_mtu_size line.length)
        spp.spp_mtu_size i).toNat) =
          fragmentValue t.temp line.length (fragCount spp.spp_mtu_size line.length)
            spp.spp_mtu_size i := by
    rw [copyLen_eq hm line hi, Int.toNat_natCast, hvalue]
    exact hbuff
  obtain ⟨t₁, hsend, hfrag⟩ := linkStep_sendFrag ans hcut.frag (hcut.fits hm hi) hbuff'
  rw [hsend, hvalue] at hstep
  cases hstep
  exact ⟨.on (hline.take_succ hi).symm, .delay (.inl rfl) hi hline (hcut.next hfrag)⟩

/-- The delay after a fragment. -/
theorem AtLine.step_delay (hm : 23 ≤ m)
    (hspp : spp.spp_mtu_size = m ∨ fragCount m line.length ≤ i + 1)
    (hi : i < fragCount m line.length) (hline : IsCut m line) (hcut : CutAt m .delay line i t)
    (hstep : linkStep spp ans t = some (t', acts)) :
    Goes m line (i + 1) (notifications acts) m line (i + 1) ∧
      AtLine m spp line (i + 1) [] t' := by
  have hcount := fragCount_le hm hline.deliverable.length_le
  obtain ⟨t₁, hdelay, hfrag⟩ := linkStep_delay spp ans (by omega) hcut.frag
  rw [hdelay] at hstep
  cases hstep
  exact ⟨.on (List.append_nil _), .loop hspp hi hline (hcut.next hfrag)⟩

/-- A statement other than the read goes on with the line. -/
theorem AtLine.linkStep {k : ℕ} {buf : List UInt8} (hm : 23 ≤ m) (hspp : 23 ≤ spp.spp_mtu_size)
    (h : AtLine m spp line k buf t) (hread : t.pc ≠ .read)
    (hstep : linkStep spp ans t = some (t', acts)) :
    ∃ m' line' k', 23 ≤ m' ∧ Goes m line k (notifications acts) m' line' k' ∧
      AtLine m' spp line' k' [] t' := by
  cases h with
  | gate hpc =>
    refine ⟨m, [], 0, hm, ?_⟩
    rcases hpc with hpc | hpc | hpc <;> simp only [PartLib.Ble.linkStep, hpc] at hstep <;> cases hstep
    · by_cases hconn : spp.is_connected = true
      · exact ⟨.start, .gateNtf (by simp [hconn]) rfl⟩
      · exact ⟨.start, .gate (.inr (.inl (by simp [hconn])))⟩
    · exact ⟨.start, .gate (.inl rfl)⟩
    · exact ⟨.start, .gate (.inl rfl)⟩
  | gateNtf hpc hline =>
    refine ⟨m, [], 0, hm, ?_⟩
    simp only [PartLib.Ble.linkStep, hpc] at hstep
    split_ifs at hstep with hntf hcb <;> cases hstep
    · exact ⟨.start, .read rfl (List.length_replicate ..) (by simp) (by simp) (by decide)⟩
    · exact ⟨.start, .size rfl ⟨Nat.zero_le _, rfl, hline⟩ (.inl rfl)⟩
    · exact ⟨.start, .gate (.inr (.inl rfl))⟩
  | read hpc => exact absurd hpc hread
  | size hpc hheld hline =>
    obtain ⟨m', line', k', hgoes, rfl, hat⟩ := AtLine.step_size hpc hheld hline hstep
    exact ⟨_, line', k', hspp, hgoes, hat⟩
  | whole hpc hheld hline hfit =>
    exact ⟨m, [], 0, hm, AtLine.step_whole hpc hheld hline hfit hstep⟩
  | total hmtu hpc hheld hline =>
    exact ⟨m, line, 0, hm, AtLine.step_total hm hmtu hpc hheld hline hstep⟩
  | malloc hmtu hpc hheld hline htotal hcurrent =>
    exact ⟨m, line, 0, hm, AtLine.step_malloc hmtu hpc hheld hline htotal hcurrent hstep⟩
  | loop hmtu hi hline hcut =>
    obtain ⟨line', k', h⟩ := AtLine.step_loop hmtu hi hline hcut hstep
    exact ⟨m, line', k', hm, h⟩
  | fill hmtu hi hline hcut => exact ⟨m, line, _, hm, AtLine.step_fill hm hmtu hi hline hcut hstep⟩
  | sendFrag hmtu hi hline hcut hbuff =>
    exact ⟨m, line, _, hm, AtLine.step_sendFrag hm hmtu hi hline hcut hbuff hstep⟩
  | delay hmtu hi hline hcut =>
    exact ⟨m, line, _, hm, AtLine.step_delay hm hmtu hi hline hcut hstep⟩
  | dead hpc hline =>
    simp only [PartLib.Ble.linkStep, hpc] at hstep
    cases hstep
    exact ⟨m, line, 0, hm, .start, .dead hpc hline⟩

/-- While `__link_tx` runs, the line is what it has stored. -/
theorem AtLine.reading {k : ℕ} {buf : List UInt8} (h : AtLine m spp line k buf t)
    (hpc : t.pc = .read) : line = buf ∧ k = 0 ∧ t.temp.length = uplinkBufsize ∧ 0 ∉ buf ∧
      newline ∉ buf ∧ buf.length < uplinkBufsize := by
  cases h with
  | read _ htemp hnull hnewline hlt => exact ⟨rfl, rfl, htemp, hnull, hnewline, hlt⟩
  | gate h =>
    rw [hpc] at h
    simp at h
  | loop _ _ _ hcut | fill _ _ _ hcut | sendFrag _ _ _ hcut | delay _ _ _ hcut =>
    have := hcut.frag.pc
    rw [hpc] at this
    cases this
  | _ => simp_all

/-- What `__link_tx` returns is the line that the task goes on with. -/
theorem AtLine.returns {l : Line} (hpc : t.pc = .read) (htemp : t.temp.length = uplinkBufsize)
    (hline : l.bytes = [] ∨ Deliverable l.bytes) (hans : ans.line = l)
    (hstep : PartLib.Ble.linkStep spp ans t = some (t', acts)) :
    acts = [] ∧ AtLine m spp l.bytes 0 [] t' := by
  simp only [PartLib.Ble.linkStep, hpc, hans] at hstep
  cases hstep
  have hle : 0 + l.bytes.length ≤ t.temp.length := by
    rw [htemp, Nat.zero_add]
    exact l.le
  refine ⟨rfl, .size rfl ⟨?_, ?_, rfl⟩ hline⟩
  · show l.bytes.length ≤ (splice t.temp 0 l.bytes).length
    rw [length_splice hle]
    omega
  · show (splice t.temp 0 l.bytes).take l.bytes.length = l.bytes
    have htake := take_splice hle
    rwa [Nat.zero_add, List.take_zero, List.nil_append] at htake

/-! ## Events of the stack -/

/-- The number of the fragments is about to be computed, or there are fragments to be sent. -/
def Cutting (t : LinkTask) : Prop := Sending t ∧ t.pc ≠ .size ∧ t.pc ≠ .sendWhole

instance : DecidablePred Cutting := fun _ => inferInstanceAs (Decidable (_ ∧ _ ∧ _))

/-- An event that leaves the MTU while a line is cut leaves the task where it stands. -/
theorem AtLine.event {k : ℕ} {buf : List UInt8} {spp' : SppServer} (h : AtLine m spp line k buf t)
    (hm : 23 ≤ m) (hmtu : Cutting t → spp'.spp_mtu_size = spp.spp_mtu_size) :
    AtLine m spp' line k buf t := by
  cases h with
  | gate hpc => exact .gate hpc
  | gateNtf hpc hline => exact .gateNtf hpc hline
  | read hpc htemp hnull hnewline hlt => exact .read hpc htemp hnull hnewline hlt
  | size hpc hheld hline => exact .size hpc hheld hline
  | whole hpc hheld hline hfit => exact .whole hpc hheld hline hfit
  | dead hpc hline => exact .dead hpc hline
  | total hspp hpc hheld hline =>
    have hcut : Cutting t := by simp [Cutting, Sending, hpc]
    exact .total ((hmtu hcut).trans hspp) hpc hheld hline
  | malloc hspp hpc hheld hline htotal hcurrent =>
    have hcut : Cutting t := by simp [Cutting, Sending, hpc]
    exact .malloc ((hmtu hcut).trans hspp) hpc hheld hline htotal hcurrent
  | fill hspp hi hline hcut =>
    have hcutting : Cutting t := by simp [Cutting, Sending, hcut.frag.pc]
    exact .fill ((hmtu hcutting).trans hspp) hi hline hcut
  | sendFrag hspp hi hline hcut hbuff =>
    have hcutting : Cutting t := by simp [Cutting, Sending, hcut.frag.pc]
    exact .sendFrag ((hmtu hcutting).trans hspp) hi hline hcut hbuff
  | loop hspp hi hline hcut =>
    refine .loop (hspp.elim (fun hspp => ?_) .inr) hi hline hcut
    by_cases hlt : k < fragCount m line.length
    · have hcutting : Cutting t := by
        simp only [Cutting, Sending, hcut.frag.pc, hcut.frag.current_num, hcut.frag.total_num]
        exact ⟨hlt, by simp, by simp⟩
      exact .inl ((hmtu hcutting).trans hspp)
    · exact .inr (Nat.le_of_not_lt hlt)
  | @delay _ _ i hspp hi hline hcut =>
    refine .delay (hspp.elim (fun hspp => ?_) .inr) hi hline hcut
    have hcount := fragCount_le hm hline.deliverable.length_le
    by_cases hlt : i + 1 < fragCount m line.length
    · have hcutting : Cutting t := by
        simp only [Cutting, Sending, hcut.frag.pc, hcut.frag.current_num, hcut.frag.total_num]
        exact ⟨by omega, by simp, by simp⟩
      exact .inl ((hmtu hcutting).trans hspp)
    · exact .inr (Nat.le_of_not_lt hlt)

end

/-! ## The observer -/

/-- What is noted: the texts that each task has begun to print, and the characters that have been put
into the queue, each with the task that put it. -/
structure PrintBook (τ : Type) where
  texts : τ → List UInt8
  put : List (τ × UInt8)

section

variable {τ : Type} [DecidableEq τ]

/-- The note of one step. -/
def PrintBook.note (b : PrintBook τ) (s : Console τ) : ConsoleInput τ → PrintBook τ
  | .printf t text => { b with texts := Function.update b.texts t (b.texts t ++ text.chars) }
  | .putc t =>
    match s.printing t with
    | some (c :: _) =>
      if s.txQueue.length < consolePrintSize then { b with put := b.put ++ [(t, c)] } else b
    | _ => b
  | _ => b

/-- The characters that a task has put. -/
def PrintBook.putBy (b : PrintBook τ) (t : τ) : List UInt8 :=
  (b.put.filter fun p => p.1 = t).map Prod.snd

/-- The characters that have been put, by all tasks, without the null characters, which `__link_tx`
takes for the end of a line. -/
def PrintBook.kept (b : PrintBook τ) : List UInt8 := (b.put.map Prod.snd).filter (· ≠ 0)

/-- The console beside the observer. -/
abbrev observedConsole (τ : Type) [DecidableEq τ] :
    Machine (Console τ × PrintBook τ) (ConsoleInput τ) ConsoleOut :=
  (console τ).observe ⟨fun _ => [], []⟩ PrintBook.note

/-- What is seen of the server. -/
def ConsoleOut.toServer : ConsoleOut → Option ServerOut
  | .server o => some o
  | .assertFailed => none

/-- The values that are sent. -/
def uplinkValues (o : List ConsoleOut) : List (List UInt8) := sent (o.filterMap ConsoleOut.toServer)

/-- An event that comes while a line is cut leaves the MTU. -/
def MtuKept (s : Console τ) : ConsoleInput τ → Prop
  | .gatt e => Cutting s.server.link →
    e.mtuAfter s.server.spp.spp_mtu_size = s.server.spp.spp_mtu_size
  | _ => True

instance (s : Console τ) : DecidablePred (MtuKept s)
  | .gatt _ => inferInstanceAs (Decidable (_ → _))
  | .printf _ _ | .putc _ | .returns _ | .link _ | .receive | .timeout => .isTrue trivial

/-- The frames of lines, each with the MTU that it was compared with. -/
def framesOf (lines : List (ℕ × List UInt8)) : List (List UInt8) :=
  lines.flatMap fun l => frames l.1 l.2

/-- The lines can be delivered, with an MTU that Bluetooth allows. -/
def LinesOk (lines : List (ℕ × List UInt8)) : Prop := ∀ l ∈ lines, 23 ≤ l.1 ∧ Deliverable l.2

/-- What was put is in lines whose frames are sent, in the line of the task, and in the queue. -/
structure UplinkInv (s : Console τ) (b : PrintBook τ) (values : List (List UInt8)) : Prop where
  mtu : 23 ≤ s.server.spp.spp_mtu_size
  texts : ∀ t, b.putBy t ++ (s.printing t).getD [] = b.texts t
  stream : ∃ lines m line k, LinesOk lines ∧ 23 ≤ m ∧
    AtLine m s.server.spp line k s.buf.bytes s.server.link ∧
    values = framesOf lines ++ (frames m line).take k ∧
    b.kept = (lines.map Prod.snd).flatten ++ line ++ s.txQueue.filter (· ≠ 0)

/-! ## One step -/

variable {s s' : Console τ} {b : PrintBook τ} {values : List (List UInt8)} {o : List ConsoleOut}

omit [DecidableEq τ] in
/-- A statement of `link_task`, and what it sends. -/
theorem Console.link_eq_some {line : Line} {malloc : Option (ℕ → UInt8)}
    (h : s.link line malloc = some (s', o)) :
    ∃ t acts, linkStep s.server.spp ⟨line, malloc⟩ s.server.link = some (t, acts) ∧
      s' = { s with server := { s.server with link := t }, buf := ⟨[], Nat.zero_le _⟩ } ∧
      uplinkValues o = notifications acts := by
  obtain ⟨⟨t, acts⟩, hstep, he⟩ := Option.map_eq_some_iff.mp h
  cases he
  refine ⟨t, acts, hstep, rfl, ?_⟩
  unfold uplinkValues
  rw [List.filterMap_map]
  show sent (acts.filterMap (some ∘ Sum.inr)) = notifications acts
  rw [List.filterMap_eq_map]
  exact sent_map_inr acts

/-- The calls of the event handler send nothing. -/
theorem uplinkValues_gatt (calls : List SppCall) :
    uplinkValues ((calls.map Sum.inl).map .server) = [] := by
  unfold uplinkValues
  rw [List.filterMap_map]
  show sent ((calls.map Sum.inl).filterMap some) = []
  rw [List.filterMap_some]
  exact sent_map_inl calls

/-- What is sent on the way through a line is of its frames. -/
theorem Goes.stream {lines : List (ℕ × List UInt8)} {m k m' k' : ℕ} {line line' : List UInt8}
    {vs : List (List UInt8)} (h : Goes m line k vs m' line' k') (hm : 23 ≤ m)
    (hlines : LinesOk lines) :
    ∃ lines', LinesOk lines' ∧
      framesOf lines ++ (frames m line).take k ++ vs = framesOf lines' ++ (frames m' line').take k' ∧
      (lines.map Prod.snd).flatten ++ line = (lines'.map Prod.snd).flatten ++ line' := by
  cases h with
  | on h => exact ⟨lines, hlines, by rw [List.append_assoc, h], rfl⟩
  | done h hline =>
    refine ⟨lines ++ [(m, line)], fun l hl => ?_, ?_, ?_⟩
    · rcases List.mem_append.mp hl with hl | hl
      · exact hlines l hl
      · obtain rfl := List.mem_singleton.mp hl
        exact ⟨hm, hline⟩
    · rw [List.append_assoc, h]
      simp [framesOf]
    · simp

/-- A statement of `link_task` other than the read. -/
theorem UplinkInv.link (hs : UplinkInv s b values) {line : Line} {malloc : Option (ℕ → UInt8)}
    (hread : s.server.link.pc ≠ .read) (h : s.link line malloc = some (s', o)) :
    UplinkInv s' b (values ++ uplinkValues o) := by
  obtain ⟨t, acts, hstep, rfl, ho⟩ := Console.link_eq_some h
  obtain ⟨lines, m, l, k, hlines, hm, hat, rfl, hkept⟩ := hs.stream
  obtain ⟨m', l', k', hm', hgoes, hat'⟩ := hat.linkStep hm hs.mtu hread hstep
  obtain ⟨lines', hlines', hvalues, hbytes⟩ := hgoes.stream hm hlines
  refine ⟨hs.mtu, hs.texts, lines', m', l', k', hlines', hm', hat', ?_, ?_⟩
  · rw [ho, hvalues]
  · rw [hkept, hbytes]

/-- `__link_tx` returns, after it has taken `new` from the queue. -/
theorem UplinkInv.linkTx (hs : UplinkInv s b values) {line : Line} (new rest : List UInt8)
    (hpc : s.server.link.pc = .read) (hbytes : line.bytes = s.buf.bytes ++ new)
    (hline : line.bytes = [] ∨ Deliverable line.bytes)
    (hqueue : s.txQueue.filter (· ≠ 0) = new ++ rest.filter (· ≠ 0))
    (h : ({ s with txQueue := rest } : Console τ).link line none = some (s', o)) :
    UplinkInv s' b (values ++ uplinkValues o) := by
  obtain ⟨t, acts, hstep, rfl, ho⟩ := Console.link_eq_some h
  obtain ⟨lines, m, l, k, hlines, hm, hat, rfl, hkept⟩ := hs.stream
  obtain ⟨rfl, rfl, htemp, -, -, -⟩ := hat.reading hpc
  obtain ⟨rfl, hat'⟩ := AtLine.returns (m := m) hpc htemp hline rfl hstep
  refine ⟨hs.mtu, hs.texts, lines, m, _, 0, hlines, hm, hat', ?_, ?_⟩
  · rw [ho]
    exact List.append_nil _
  · rw [hkept, hqueue, hbytes]
    simp only [List.append_assoc]

/-- What `__link_tx` has stored is a line, if it returns now. -/
theorem deliverable_of_stored {buf : List UInt8} (hnull : 0 ∉ buf) (hnewline : newline ∉ buf)
    (hlt : buf.length < uplinkBufsize) : buf = [] ∨ Deliverable buf := by
  by_cases hnil : buf = []
  · exact .inl hnil
  · exact .inr ⟨hnil, hlt.le, hnull, fun h => hnewline (List.mem_of_mem_dropLast h)⟩

/-- And with the character that it stores. -/
theorem deliverable_snoc {buf : List UInt8} {tmp : UInt8} (hnull : 0 ∉ buf)
    (hnewline : newline ∉ buf) (hlt : buf.length < uplinkBufsize) (htmp : tmp ≠ 0) :
    Deliverable (buf ++ [tmp]) where
  ne_nil := by simp
  length_le := by
    rw [List.length_append]
    exact hlt
  no_null := by
    rw [List.mem_append, List.mem_singleton, not_or]
    exact ⟨hnull, htmp.symm⟩
  newline_last := by rwa [List.dropLast_concat]

/-- `__link_tx` takes a character. -/
theorem UplinkInv.receive (hs : UplinkInv s b values) {tmp : UInt8} {rest : List UInt8}
    (hpc : s.server.link.pc = .read) (hqueue : s.txQueue = tmp :: rest)
    (h : s.receive tmp rest = some (s', o)) : UplinkInv s' b (values ++ uplinkValues o) := by
  obtain ⟨lines, m, l, k, hlines, hm, hat, hvalues, hkept⟩ := hs.stream
  obtain ⟨rfl, rfl, htemp, hnull, hnewline, hlt⟩ := hat.reading hpc
  unfold Console.receive at h
  by_cases hzero : tmp = 0
  · rw [if_pos hzero] at h
    refine hs.linkTx [] rest hpc (List.append_nil _).symm
      (deliverable_of_stored hnull hnewline hlt) ?_ h
    simp [hqueue, hzero]
  · have hnew : s.txQueue.filter (· ≠ 0) = [tmp] ++ rest.filter (· ≠ 0) := by
      simp [hqueue, hzero]
    rw [if_neg hzero, dif_pos hlt] at h
    split_ifs at h with hends
    · exact hs.linkTx [tmp] rest hpc rfl (.inr (deliverable_snoc hnull hnewline hlt hzero)) hnew h
    · cases h
      rw [not_or] at hends
      refine ⟨hs.mtu, hs.texts, lines, m, s.buf.bytes ++ [tmp], 0, hlines, hm, ?_, ?_, ?_⟩
      · refine .read hpc htemp ?_ ?_ ?_
        · rw [List.mem_append, List.mem_singleton, not_or]
          exact ⟨hnull, Ne.symm hzero⟩
        · rw [List.mem_append, List.mem_singleton, not_or]
          exact ⟨hnewline, Ne.symm hends.1⟩
        · rw [List.length_append, List.length_singleton]
          omega
      · rw [hvalues]
        exact List.append_nil _
      · rw [hkept, hnew]
        simp only [List.append_assoc]

/-- A task calls `console_printf`. -/
theorem UplinkInv.printf (hs : UplinkInv s b values) {t : τ} {text : Text}
    (hnone : s.printing t = none) :
    UplinkInv { s with printing := Function.update s.printing t (some text.chars) }
      (b.note s (.printf t text)) values := by
  refine ⟨hs.mtu, fun t' => ?_, hs.stream⟩
  have htexts := hs.texts t'
  show b.putBy t' ++ (Function.update s.printing t (some text.chars) t').getD [] =
    Function.update b.texts t (b.texts t ++ text.chars) t'
  by_cases heq : t' = t
  · subst heq
    rw [hnone, Option.getD_none, List.append_nil] at htexts
    rw [Function.update_self, Function.update_self, Option.getD_some, htexts]
  · rw [Function.update_of_ne heq, Function.update_of_ne heq]
    exact htexts

/-- A task puts a character into the queue. -/
theorem UplinkInv.putc (hs : UplinkInv s b values) {t : τ} {c : UInt8} {rest : List UInt8}
    (hsome : s.printing t = some (c :: rest)) :
    UplinkInv { s with
      txQueue := s.txQueue ++ [c], printing := Function.update s.printing t (some rest) }
      { b with put := b.put ++ [(t, c)] } values := by
  refine ⟨hs.mtu, fun t' => ?_, ?_⟩
  · have htexts := hs.texts t'
    have hput : PrintBook.putBy { b with put := b.put ++ [(t, c)] } t' =
        b.putBy t' ++ if t = t' then [c] else [] := by
      unfold PrintBook.putBy
      rw [List.filter_append, List.map_append]
      by_cases heq : t = t' <;> simp [heq]
    show PrintBook.putBy { b with put := b.put ++ [(t, c)] } t' ++
      (Function.update s.printing t (some rest) t').getD [] = b.texts t'
    rw [hput, ← htexts]
    by_cases heq : t' = t
    · subst heq
      rw [if_pos rfl, hsome, Function.update_self, Option.getD_some, Option.getD_some,
        List.append_assoc]
      rfl
    · rw [if_neg (Ne.symm heq), List.append_nil, Function.update_of_ne heq]
  · obtain ⟨lines, m, line, k, hlines, hm, hat, hvalues, hkept⟩ := hs.stream
    refine ⟨lines, m, line, k, hlines, hm, hat, hvalues, ?_⟩
    have hput : PrintBook.kept { b with put := b.put ++ [(t, c)] } =
        b.kept ++ [c].filter (· ≠ 0) := by
      unfold PrintBook.kept
      rw [List.map_append, List.filter_append]
      rfl
    rw [hput, hkept, List.filter_append, List.append_assoc]

/-- An event of the stack. -/
theorem UplinkInv.event (hs : UplinkInv s b values) {e : GattsEvent} {spp : SppServer}
    {calls : List SppCall} (hmtu : MtuKept s (.gatt e))
    (h : gattsProfileEventHandler s.server.spp e = some (spp, calls)) :
    UplinkInv { s with server := { s.server with spp := spp } } b values := by
  have hsize := handler_spp_mtu_size h
  obtain ⟨lines, m, line, k, hlines, hm, hat, hvalues, hkept⟩ := hs.stream
  refine ⟨?_, hs.texts, lines, m, line, k, hlines, hm, ?_, hvalues, hkept⟩
  · show 23 ≤ spp.spp_mtu_size
    rw [hsize]
    cases e with
    | mtu e => exact e.ge
    | _ => exact hs.mtu
  · exact hat.event hm fun hcut => hsize.trans (hmtu hcut)

/-- A step keeps the invariant. -/
theorem UplinkInv.step (hs : UplinkInv s b values) {i : ConsoleInput τ} (hmtu : MtuKept s i)
    (hstep : (console τ).step s i = some (s', o)) :
    UplinkInv s' (b.note s i) (values ++ uplinkValues o) := by
  have hrunning : ¬ s.stopped = true := by simp [(console_step hstep).1]
  simp only [console, if_neg hrunning] at hstep
  cases i with
  | printf t text =>
    cases hprint : s.printing t with
    | some _ => simp [hprint] at hstep
    | none =>
      simp only [hprint, Option.some.injEq, Prod.mk.injEq] at hstep
      obtain ⟨rfl, rfl⟩ := hstep
      exact (List.append_nil values).symm ▸ hs.printf hprint
  | putc t =>
    dsimp only at hstep
    split at hstep
    case h_2 => cases hstep
    case h_1 c rest hprint =>
      simp only [PrintBook.note, hprint]
      split_ifs at hstep ⊢ with hroom <;> cases hstep
      · exact (List.append_nil values).symm ▸ hs.putc hprint
      · exact (List.append_nil values).symm ▸ ⟨hs.mtu, hs.texts, hs.stream⟩
  | returns t =>
    dsimp only at hstep
    split at hstep
    case h_2 => cases hstep
    case h_1 hprint =>
      cases hstep
      refine (List.append_nil values).symm ▸ ⟨hs.mtu, fun t' => ?_, hs.stream⟩
      have htexts := hs.texts t'
      by_cases heq : t' = t
      · subst heq
        rw [hprint] at htexts
        simpa [PrintBook.note] using htexts
      · simpa [PrintBook.note, Function.update_of_ne heq] using htexts
  | gatt e =>
    obtain ⟨⟨srv, out⟩, hgatt, he⟩ := Option.map_eq_some_iff.mp hstep
    obtain ⟨⟨spp, calls⟩, hev, he'⟩ := Option.map_eq_some_iff.mp hgatt
    cases he'
    cases he
    rw [uplinkValues_gatt, List.append_nil]
    exact hs.event hmtu hev
  | link malloc =>
    dsimp only at hstep
    split_ifs at hstep with hread
    exact hs.link hread hstep
  | receive =>
    dsimp only at hstep
    split at hstep
    case h_2 => cases hstep
    case h_1 tmp rest hqueue =>
      split_ifs at hstep with hread
      exact hs.receive hread hqueue hstep
  | timeout =>
    dsimp only at hstep
    split_ifs at hstep with hread
    obtain ⟨lines, m, l, k, -, -, hat, -, -⟩ := hs.stream
    obtain ⟨-, -, -, hnull, hnewline, hlt⟩ := hat.reading hread.1
    exact hs.linkTx [] s.txQueue hread.1 (List.append_nil _).symm
      (deliverable_of_stored hnull hnewline hlt) rfl hstep

end

/-! ## Whole runs -/

/-- In every run in which no event changes the MTU while a line is cut, what each task has put into
the queue and has still to put are its texts; and what was put, by all of them, less the null
characters, is in lines whose frames are sent, in order, in the line of `link_task`, of which the
first frames may be sent, and in the queue. At its gate, `link_task` has no line. -/
theorem console_delivers {τ : Type} [DecidableEq τ] {inputs : List (ConsoleInput τ)} {s : Console τ}
    {b : PrintBook τ} {o : List ConsoleOut}
    (h : (observedConsole τ).run (observedConsole τ).init inputs = some ((s, b), o))
    (hmtu : (observedConsole τ).AllSteps inputs fun _ s i _ _ => MtuKept s.1 i) :
    (∀ t, b.putBy t ++ (s.printing t).getD [] = b.texts t) ∧
      ∃ lines m line k, LinesOk lines ∧ 23 ≤ m ∧
        uplinkValues o = framesOf lines ++ (frames m line).take k ∧
        b.kept = (lines.map Prod.snd).flatten ++ line ++ s.txQueue.filter (· ≠ 0) ∧
        (s.server.link.pc = .gate → line = []) := by
  have h0 : UplinkInv (console τ).init (⟨fun _ => [], []⟩ : PrintBook τ) [] :=
    ⟨le_refl 23, fun _ => rfl, [], 23, [], 0, by simp [LinesOk], by decide, .gate (.inl rfl), rfl, rfl⟩
  have hs : UplinkInv s b (uplinkValues o) := by
    refine hmtu.inv_outputs (I := fun _ os s => UplinkInv s.1 s.2 (uplinkValues os)) h0 ?_
      (List.prefix_refl inputs) h
    intro _ past s i s' o hs hkept hstep
    obtain ⟨⟨s₁, o₁⟩, hmove, he⟩ := Option.map_eq_some_iff.mp hstep
    cases he
    have happ : uplinkValues (past ++ o₁) = uplinkValues past ++ uplinkValues o₁ := by
      unfold uplinkValues
      rw [List.filterMap_append, sent_append]
    rw [happ]
    exact hs.step hkept hmove
  obtain ⟨lines, m, line, k, hlines, hm, hat, hvalues, hkept⟩ := hs.stream
  refine ⟨hs.texts, lines, m, line, k, hlines, hm, hvalues, hkept, fun hgate => ?_⟩
  generalize s.buf.bytes = buf at hat
  cases hat with
  | gate => rfl
  | gateNtf => rfl
  | loop _ _ _ hcut | fill _ _ _ hcut | sendFrag _ _ _ hcut | delay _ _ _ hcut =>
    have hpc := hcut.frag.pc
    rw [hgate] at hpc
    cases hpc
  | _ => simp_all

/-- A client listens; two tasks print at the same time, and the line that comes out of it is sent. -/
def twoTasks : List (ConsoleInput Bool) :=
  listenEvents.filterMap (fun i =>
      match i with
      | .gatt e => some (.gatt e)
      | .link _ => none) ++
    [.printf true ⟨[104, 105], by decide⟩, .printf false ⟨[58, 10], by decide⟩, .putc true,
      .link none, .link none, .receive, .putc false, .putc true, .receive, .receive, .putc false,
      .receive, .link none, .link none]

/-- Nothing of their texts is lost. -/
theorem console_delivers_two_tasks :
    ∃ s b o, (observedConsole Bool).run (observedConsole Bool).init twoTasks = some ((s, b), o) ∧
      ∀ t, b.putBy t ++ (s.printing t).getD [] = b.texts t := by
  have hsome : ((observedConsole Bool).run (observedConsole Bool).init twoTasks).isSome := by
    decide +kernel
  obtain ⟨⟨⟨s, b⟩, o⟩, hrun⟩ := Option.isSome_iff_exists.mp hsome
  exact ⟨s, b, o, hrun, (console_delivers hrun (by decide +kernel)).1⟩

end PartLib.Ble
