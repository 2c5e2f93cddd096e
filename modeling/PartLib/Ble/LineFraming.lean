import PartLib.Ble.ConsoleLl
import PartLib.Ble.Uplink
import PartLib.Ble.Server
import PartLib.Lib.Framing

/-!
# What a receiver can tell from the notifications

`uplinkStream` is what `link_task` sends for a sequence of lines of the console while the connection
stays as it is: the notifications, one by one. The uplink is a framing: the header of a fragment says
how many there are, and which one it is. It has no escape for a line that looks like a fragment, so a
line in fragments and the fragments as lines have the same stream (`fragments_as_lines`). The stream
determines the lines when no line's fragments are lines of the sequence, one after another, and there
was a block for every line that was cut (`uplinkStream_injective`).
-/

namespace PartLib.Ble

/-! ## Headers -/

/-- A byte of a header determines the number that it was made from. -/
theorem headerByte_inj {a b : ℕ} (ha : a < 2 ^ 8) (hb : b < 2 ^ 8)
    (h : UInt8.ofNat a = UInt8.ofNat b) : a = b :=
  calc a = (UInt8.ofNat a).toNat := (UInt8.toNat_ofNat_of_lt ha).symm
    _ = (UInt8.ofNat b).toNat := by rw [h]
    _ = b := UInt8.toNat_ofNat_of_lt hb

variable {m : ℕ} {x y : List UInt8}

/-- Fragments that are the same have the same number, and are of equally many. -/
theorem fragment_inj (hm : 23 ≤ m) (hx : x.length ≤ uplinkBufsize)
    (hy : y.length ≤ uplinkBufsize) {i j : ℕ} (hi : i < fragCount m x.length)
    (hj : j < fragCount m y.length) (h : fragment m x i = fragment m y j) :
    fragCount m x.length = fragCount m y.length ∧ i = j := by
  have hcx := fragCount_le hm hx
  have hcy := fragCount_le hm hy
  simp only [fragment, List.cons_append, List.cons.injEq, true_and] at h
  obtain ⟨htotal, hnumber, -⟩ := h
  have h₁ := headerByte_inj (by omega) (by omega) htotal
  have h₂ := headerByte_inj (by omega) (by omega) hnumber
  exact ⟨h₁, by omega⟩

/-- The fragments of a line. -/
def fragments (m : ℕ) (line : List UInt8) : List (List UInt8) :=
  (List.range (fragCount m line.length)).map (fragment m line)

/-- The fragments of a line that does not fit, from the first on. -/
theorem fragments_eq_cons (hm : 23 ≤ m) (hx : m - 3 < x.length) :
    fragments m x = fragment m x 0 ::
      (List.range' 1 (fragCount m x.length - 1)).map (fragment m x) := by
  have htwo := two_le_fragCount hm hx
  rw [fragments, List.range_eq_range', show fragCount m x.length =
    fragCount m x.length - 1 + 1 by omega, List.range'_succ, List.map_cons]
  rfl

/-- The fragments of a line tell where they end, and the line is their payload. -/
theorem fragments_delimited (hm : 23 ≤ m) (hx : x.length ≤ uplinkBufsize)
    (hy : y.length ≤ uplinkBufsize) (hcx : m - 3 < x.length) (hcy : m - 3 < y.length)
    {r₁ r₂ : List (List UInt8)} (h : fragments m x ++ r₁ = fragments m y ++ r₂) : x = y := by
  have htx := two_le_fragCount hm hcx
  have hty := two_le_fragCount hm hcy
  have hfirst : fragment m x 0 = fragment m y 0 := by
    rw [fragments_eq_cons hm hcx, fragments_eq_cons hm hcy] at h
    exact (List.cons.inj h).1
  -- The first fragments say that there are equally many, so these are the same lists.
  have hcount := (fragment_inj hm hx hy (by omega) (by omega) hfirst).1
  have hfrag : fragments m x = fragments m y :=
    (List.append_inj h (by simp [fragments, hcount])).1
  rw [← flatMap_payload hm x, ← flatMap_payload hm y]
  exact congrArg (List.flatMap (List.drop 4)) hfrag

/-- The framing of the console's lines. -/
def uplinkFraming (m : ℕ) (hm : 23 ≤ m) : Framing (List UInt8) where
  Valid := Deliverable
  Whole line := line.length ≤ m - 3
  decWhole _ := inferInstanceAs (Decidable (_ ≤ _))
  parts := fragments m
  parts_ne_nil x _ hx := by
    rw [fragments_eq_cons hm (Nat.lt_of_not_le hx)]
    simp
  whole_of_mem_parts x _ _ p hp := by
    obtain ⟨i, -, rfl⟩ := List.mem_map.mp hp
    exact length_fragment_le hm x i
  delimited x y r₁ r₂ hx hy hwx hwy h :=
    fragments_delimited hm hx.length_le hy.length_le (Nat.lt_of_not_le hwx) (Nat.lt_of_not_le hwy) h
  later_ne_first x y hx hy hwx hwy p hp := by
    rw [fragments_eq_cons hm (Nat.lt_of_not_le hwx), List.tail_cons] at hp
    rw [fragments_eq_cons hm (Nat.lt_of_not_le hwy), List.head?_cons]
    obtain ⟨i, hi, rfl⟩ := List.mem_map.mp hp
    rw [List.mem_range'_1] at hi
    have hty := two_le_fragCount hm (Nat.lt_of_not_le hwy)
    -- The header of a later fragment has another number than that of a first one.
    intro h
    have := (fragment_inj hm hx.length_le hy.length_le (by omega) (by omega)
      (Option.some.inj h).symm).2
    omega

/-! ## The stream -/

/-- A line of the console. -/
structure ConsoleLine where
  bytes : List UInt8
  deliverable : Deliverable bytes

/-- What a pass that reads a line gets: the line, and the contents of the block of `malloc`, if it
returns one. -/
structure ConsolePass where
  line : ConsoleLine
  malloc : Option (ℕ → UInt8)

/-- The pass, as the task makes it. -/
def ConsolePass.ans (p : ConsolePass) : LinkAns :=
  ⟨⟨p.line.bytes, p.line.deliverable.length_le⟩, p.malloc⟩

/-- The bytes of the line. -/
def ConsolePass.bytes (p : ConsolePass) : List UInt8 := p.line.bytes

/-- The notifications of a sequence of passes, one after another, from a given state of the server. -/
def uplinkStream (s : Server) (passes : List ConsolePass) : Option (List (List UInt8)) :=
  (sppServerPasses.run s (passes.map fun p => .link p.ans)).map fun r => sent r.2

/-- There is a block for the fragments of every line that does not fit. -/
def Allocated (m : ℕ) (passes : List ConsolePass) : Prop :=
  ∀ p ∈ passes, m - 3 < p.bytes.length → p.malloc ≠ none

instance (m : ℕ) : DecidablePred (Allocated m) := fun passes => List.decidableBAll _ passes

/-- A client listens, and the task is at the gate. -/
structure Ready (s : Server) : Prop where
  reads : s.spp.Reads
  mtu : 23 ≤ s.spp.spp_mtu_size
  pc : s.link.pc = .gate

/-- The stream is that of the frames of the lines. -/
theorem uplinkStream_eq {s : Server} (hs : Ready s) {passes : List ConsolePass}
    (halloc : Allocated s.spp.spp_mtu_size passes) :
    uplinkStream s passes =
      some ((passes.map ConsolePass.bytes).flatMap (frames s.spp.spp_mtu_size)) := by
  induction passes generalizing s with
  | nil => rfl
  | cons p passes ih =>
    have hblock : s.spp.spp_mtu_size - 3 < p.ans.line.bytes.length → p.ans.malloc ≠ none :=
      halloc p List.mem_cons_self
    obtain ⟨t, hiter, hpc, -⟩ := linkIteration_spec p.ans hs.mtu hs.pc
    have hgate : t.pc = .gate := by
      rw [hpc, if_neg fun h => hblock h.2.1 h.2.2]
    have hstep : sppServerPasses.step s (.link p.ans) =
        some ({ s with link := t }, (passActs s.spp p.ans).map .inr) := by
      simp only [sppServerPasses, hiter, Option.map_some]
    have hrest := ih (s := { s with link := t }) ⟨hs.reads, hs.mtu, hgate⟩
      fun q hq => halloc q (List.mem_cons_of_mem _ hq)
    rw [uplinkStream] at hrest ⊢
    obtain ⟨r, hrun, hr⟩ := Option.map_eq_some_iff.mp hrest
    have hframes : sent ((passActs s.spp p.ans).map .inr) = frames s.spp.spp_mtu_size p.bytes := by
      rw [sent_map_inr]
      exact notifications_passActs hs.reads p.line.deliverable.ne_nil hblock
    rw [List.map_cons, Machine.run_cons, hstep, Option.bind_some, hrun]
    simp only [Option.map_some, sent_append, hframes, hr, List.map_cons, List.flatMap_cons]

/-! ## What the stream determines -/

/-- The lines of a sequence of passes, one after another. -/
def lineBytes (passes : List ConsolePass) : List UInt8 := (passes.map ConsolePass.bytes).flatten

/-- No line that is cut has its fragments as consecutive lines of the sequence. -/
def NoFragments (m : ℕ) (passes : List ConsolePass) : Prop :=
  ∀ l : ConsoleLine, m - 3 < l.bytes.length → ¬ frames m l.bytes <:+: passes.map ConsolePass.bytes

/-- A line that does not fit is sent in its fragments. -/
theorem frames_of_lt (hx : m - 3 < x.length) : frames m x = fragments m x :=
  if_neg (Nat.not_le_of_lt hx)

/-- To the framing, such a sequence is one that contains no value's parts. -/
theorem NoFragments.plain (hm : 23 ≤ m) {passes : List ConsolePass} (h : NoFragments m passes) :
    (uplinkFraming m hm).Plain (passes.map ConsolePass.bytes) := by
  intro line hline hw hp
  have hcut : m - 3 < line.length := Nat.lt_of_not_le hw
  exact h ⟨line, hline⟩ hcut (by rw [frames_of_lt hcut]; exact hp)

/-- Two sequences of lines, with blocks for the lines that are cut, and neither of which contains the
fragments of a line as consecutive lines, are the same when the same notifications are sent for them,
one by one; and then their bytes are the same. -/
theorem uplinkStream_injective (s : Server) (xs ys : List ConsolePass) (hs : Ready s)
    (hxa : Allocated s.spp.spp_mtu_size xs) (hya : Allocated s.spp.spp_mtu_size ys)
    (hx : NoFragments s.spp.spp_mtu_size xs) (hy : NoFragments s.spp.spp_mtu_size ys)
    (h : uplinkStream s xs = uplinkStream s ys) :
    xs.map ConsolePass.bytes = ys.map ConsolePass.bytes ∧ lineBytes xs = lineBytes ys := by
  rw [uplinkStream_eq hs hxa, uplinkStream_eq hs hya] at h
  have hvalid : ∀ passes : List ConsolePass, ∀ line ∈ passes.map ConsolePass.bytes,
      (uplinkFraming _ hs.mtu).Valid line := by
    intro passes line hline
    obtain ⟨p, -, rfl⟩ := List.mem_map.mp hline
    exact p.line.deliverable
  have hlines : xs.map ConsolePass.bytes = ys.map ConsolePass.bytes :=
    Framing.flatMap_frames_injective (hvalid xs) (hvalid ys) (hx.plain hs.mtu) (hy.plain hs.mtu)
      (Option.some.inj h)
  exact ⟨hlines, congrArg List.flatten hlines⟩

/-- The bytes that every first fragment starts with, but for the number of fragments. -/
def LooksFirst (line : List UInt8) : Prop :=
  line.take 2 = [hash, hash] ∧ (line.drop 3).head? = some 1

instance : DecidablePred LooksFirst := fun _ => inferInstanceAs (Decidable (_ ∧ _))

/-- Lines none of which looks like a first fragment contain no line's fragments. -/
theorem noFragments_of_looksFirst (hm : 23 ≤ m) {passes : List ConsolePass}
    (h : ∀ p ∈ passes, ¬ LooksFirst p.bytes) : NoFragments m passes := by
  intro l hcut hwithin
  rw [frames_of_lt hcut, fragments_eq_cons hm hcut] at hwithin
  obtain ⟨p, hp, hfirst⟩ := List.mem_map.mp (hwithin.subset List.mem_cons_self)
  refine h p hp ?_
  rw [hfirst]
  exact ⟨rfl, rfl⟩

/-- A line of 21 letters. -/
def letters : ConsoleLine := ⟨List.replicate 21 65, by decide⟩

/-- A line with its newline. -/
def hiLine : ConsoleLine := ⟨[104, 105, newline], by decide⟩

/-- Three lines, the second of which is cut. -/
def cutBetween (contents : ℕ → UInt8) : List ConsolePass :=
  [⟨hiLine, none⟩, ⟨letters, some contents⟩, ⟨hiLine, none⟩]

/-- Three lines, and the same again with another content of the block. -/
theorem uplinkStream_injective_cut_between :
    lineBytes (cutBetween fun _ => 0) = lineBytes (cutBetween fun _ => 255) :=
  (uplinkStream_injective ⟨.listening, .init⟩ _ _ ⟨⟨rfl, rfl, rfl⟩, le_rfl, rfl⟩ (by decide) (by decide)
    (noFragments_of_looksFirst le_rfl (by decide)) (noFragments_of_looksFirst le_rfl (by decide))
    (by decide +kernel)).2

/-- The two fragments of the letters, as lines. -/
def letterFragments : List ConsolePass :=
  [⟨⟨[hash, hash, 2, 1] ++ List.replicate 16 65, by decide⟩, none⟩,
    ⟨⟨[hash, hash, 2, 2] ++ List.replicate 5 65, by decide⟩, none⟩]

/-- Lines with the bytes of the two fragments, and other boundaries. -/
def letterPieces : List ConsolePass :=
  [⟨⟨[hash], by decide⟩, none⟩, ⟨⟨[hash, 2, 1] ++ List.replicate 16 65, by decide⟩, none⟩,
    ⟨⟨[hash, hash, 2, 2] ++ List.replicate 5 65, by decide⟩, none⟩]

/-- A line of 21 letters and two shorter lines have the same stream, and not the same bytes. Where the
boundaries of the notifications are lost, so do lines that contain no fragments. Without a block for
its fragments, a line has an empty stream. -/
theorem uplinkStream_not_injective :
    (∃ (xs ys : List ConsolePass) (stream : List (List UInt8)), Allocated 23 xs ∧ Allocated 23 ys ∧
      uplinkStream ⟨.listening, .init⟩ xs = some stream ∧
        uplinkStream ⟨.listening, .init⟩ ys = some stream ∧ lineBytes xs ≠ lineBytes ys) ∧
    (∃ (xs ys : List ConsolePass) (stream stream' : List (List UInt8)), Allocated 23 xs ∧
      Allocated 23 ys ∧ NoFragments 23 xs ∧ NoFragments 23 ys ∧
      uplinkStream ⟨.listening, .init⟩ xs = some stream ∧
        uplinkStream ⟨.listening, .init⟩ ys = some stream' ∧ stream.flatten = stream'.flatten ∧
          lineBytes xs ≠ lineBytes ys) ∧
    ∃ xs ys : List ConsolePass, NoFragments 23 xs ∧ NoFragments 23 ys ∧
      uplinkStream ⟨.listening, .init⟩ xs = some [] ∧
        uplinkStream ⟨.listening, .init⟩ ys = some [] ∧ lineBytes xs ≠ lineBytes ys := by
  refine ⟨⟨[⟨letters, some fun _ => 0⟩], letterFragments, letterFragments.map ConsolePass.bytes, ?_⟩,
    ⟨[⟨letters, some fun _ => 0⟩], letterPieces, letterFragments.map ConsolePass.bytes,
      letterPieces.map ConsolePass.bytes, ?_⟩, [⟨letters, none⟩], [⟨letters, none⟩, ⟨letters, none⟩], ?_⟩
  · decide +kernel
  · exact ⟨by decide, by decide, noFragments_of_looksFirst le_rfl (by decide),
      noFragments_of_looksFirst le_rfl (by decide), by decide +kernel, by decide +kernel,
      by decide +kernel, by decide +kernel⟩
  · exact ⟨noFragments_of_looksFirst le_rfl (by decide), noFragments_of_looksFirst le_rfl (by decide),
      by decide +kernel, by decide +kernel, by decide +kernel⟩

/-- Each fragment has four bytes more than its payload. -/
theorem length_flatten_fragments (m : ℕ) (line : List UInt8) (is : List ℕ) :
    (is.map (fragment m line)).flatten.length =
      ((is.map (fragment m line)).flatMap (List.drop 4)).length + 4 * is.length := by
  induction is with
  | nil => rfl
  | cons i is ih =>
    have hdrop : (fragment m line i).length = ((fragment m line i).drop 4).length + 4 := by
      simp [fragment]
    rw [List.map_cons, List.flatten_cons, List.flatMap_cons, List.length_append,
      List.length_append, List.length_cons, ih, hdrop]
    ring

/-- A sequence that contains the fragments of a line as consecutive lines has the stream of another
sequence, with fewer bytes. -/
theorem fragments_as_lines (s : Server) (xs : List ConsolePass) (hs : Ready s)
    (hxa : Allocated s.spp.spp_mtu_size xs) (hx : ¬ NoFragments s.spp.spp_mtu_size xs) :
    ∃ ys, Allocated s.spp.spp_mtu_size ys ∧ uplinkStream s ys = uplinkStream s xs ∧
      (lineBytes ys).length < (lineBytes xs).length := by
  unfold NoFragments at hx
  push Not at hx
  obtain ⟨l, hcut, before, after, hsplit⟩ := hx
  rw [frames_of_lt hcut] at hsplit
  -- The lines that are the fragments, `xs₂`, are replaced by the line.
  obtain ⟨xs₁, xs₃, rfl, hxs₁, rfl⟩ := List.map_eq_append_iff.mp hsplit.symm
  obtain ⟨xs₁, xs₂, rfl, rfl, hxs₂⟩ := List.map_eq_append_iff.mp hxs₁
  have hya : Allocated s.spp.spp_mtu_size (xs₁ ++ [⟨l, some fun _ => 0⟩] ++ xs₃) := by
    intro p hp hlong
    simp only [List.append_assoc, List.mem_append, List.mem_singleton] at hp
    rcases hp with hp | rfl | hp
    · exact hxa p (by simp [hp]) hlong
    · exact Option.some_ne_none _
    · exact hxa p (by simp [hp]) hlong
  refine ⟨xs₁ ++ [⟨l, some fun _ => 0⟩] ++ xs₃, hya, ?_, ?_⟩
  · rw [uplinkStream_eq hs hya, uplinkStream_eq hs hxa]
    have hsame := (uplinkFraming _ hs.mtu).flatMap_frames_parts l.deliverable
      (Nat.not_le_of_lt hcut) (xs₁.map ConsolePass.bytes) (xs₃.map ConsolePass.bytes)
    rw [List.map_append, List.map_append, List.map_append, List.map_append, hxs₂]
    exact congrArg some hsame.symm
  · have hlen := length_flatten_fragments s.spp.spp_mtu_size l.bytes
      (List.range (fragCount s.spp.spp_mtu_size l.bytes.length))
    rw [flatMap_payload hs.mtu, List.length_range] at hlen
    have htwo := two_le_fragCount hs.mtu hcut
    simp only [lineBytes, List.map_append, List.flatten_append, List.length_append, hxs₂, fragments,
      hlen, List.map_cons, List.map_nil, List.flatten_cons, List.flatten_nil, List.append_nil,
      ConsolePass.bytes]
    omega

end PartLib.Ble
