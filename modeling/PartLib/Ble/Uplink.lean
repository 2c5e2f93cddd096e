import PartLib.Ble.Fragment
import PartLib.Lib.Slices
import Mathlib.Data.List.Range

/-!
# What one pass of the uplink sends

A line that fits into one notification is sent as it is. A longer one is cut into slices of
`spp_mtu_size - 7` bytes, and each is sent behind a header of two hash marks, the number of
fragments, and the fragment's own number. `frames` is that encoding, and `passActs` the calls and
copies of a pass of the task's loop; `linkIteration_spec` is that a pass makes exactly these.

A line has at most 512 bytes, so with any MTU there are at most 32 fragments, and the 8-bit counters
do not wrap.
-/

namespace PartLib.Ble

/-! ## The frames of a line -/

/-- The number of fragments of a line of `n` bytes. -/
def fragCount (m n : ℕ) : ℕ := sliceCount (m - 7) n

/-- The fragment of a line at the index `i`, from zero: its header and its payload. -/
def fragment (m : ℕ) (line : List UInt8) (i : ℕ) : List UInt8 :=
  [hash, hash, UInt8.ofNat (fragCount m line.length), UInt8.ofNat (i + 1)] ++ slice (m - 7) line i

/-- The notifications that carry a line. -/
def frames (m : ℕ) (line : List UInt8) : List (List UInt8) :=
  if line.length ≤ m - 3 then [line]
  else (List.range (fragCount m line.length)).map (fragment m line)

variable {m : ℕ} {line : List UInt8}

/-- A line that does not fit into one notification has at least two fragments. -/
theorem two_le_fragCount (hm : 23 ≤ m) (hn : m - 3 < line.length) :
    2 ≤ fragCount m line.length := by
  have hle := le_sliceCount_mul (by omega : 0 < m - 7) line.length
  by_contra hlt
  have hone : sliceCount (m - 7) line.length ≤ 1 := by
    rw [fragCount] at hlt
    omega
  have hfit : line.length ≤ m - 7 :=
    calc line.length ≤ sliceCount (m - 7) line.length * (m - 7) := hle
      _ ≤ 1 * (m - 7) := Nat.mul_le_mul_right _ hone
      _ = m - 7 := Nat.one_mul _
  omega

/-- No line has more than 32 fragments. -/
theorem fragCount_le (hm : 23 ≤ m) (hn : line.length ≤ uplinkBufsize) :
    fragCount m line.length ≤ 32 := by
  by_contra hlt
  have hlong : 32 * 16 < line.length :=
    calc 32 * 16 ≤ 32 * (m - 7) := Nat.mul_le_mul_left 32 (by omega)
      _ < line.length := mul_lt_of_lt_sliceCount (by omega) (by rw [fragCount] at hlt; omega)
  rw [uplinkBufsize] at hn
  omega

/-- Every fragment has a payload. -/
theorem slice_length_pos (hm : 23 ≤ m) {i : ℕ} (hi : i < fragCount m line.length) :
    0 < (slice (m - 7) line i).length := by
  have h := mul_lt_of_lt_sliceCount (by omega : 0 < m - 7) hi
  rw [length_slice]
  omega

/-- A fragment fits into a notification. -/
theorem length_fragment_le (hm : 23 ≤ m) (line : List UInt8) (i : ℕ) :
    (fragment m line i).length ≤ m - 3 := by
  rw [fragment, List.length_append, length_slice]
  simp only [List.length_cons, List.length_nil]
  omega

/-- The payloads of the fragments make up the line. -/
theorem flatMap_payload (hm : 23 ≤ m) (line : List UInt8) :
    ((List.range (fragCount m line.length)).map (fragment m line)).flatMap (List.drop 4) =
      line := by
  rw [List.flatMap_map]
  exact flatMap_slice (le_sliceCount_mul (by omega) line.length)

/-! ## The calls of a pass -/

/-- The task gets past the gate, and asks the read callback for a line. -/
def SppServer.Reads (s : SppServer) : Prop :=
  s.is_connected = true ∧ s.enable_data_ntf = true ∧ s.my_read_cb = true

instance (s : SppServer) : Decidable s.Reads := inferInstanceAs (Decidable (_ ∧ _))

/-- What the fragment loop does for the fragment at `i`. -/
def fragActs (s : SppServer) (line : List UInt8) (i : ℕ) : List LinkAct :=
  [.memcpy 4 (i * (s.spp_mtu_size - 7) : ℕ) (slice (s.spp_mtu_size - 7) line i).length,
    s.indicate (fragment s.spp_mtu_size line i), .delay 20]

/-- The calls and copies of a pass. -/
def passActs (s : SppServer) (ans : LinkAns) : List LinkAct :=
  if s.is_connected = true ∧ s.enable_data_ntf = true then
    if s.my_read_cb = false ∨ ans.line.bytes = [] then []
    else if ans.line.bytes.length ≤ s.spp_mtu_size - 3 then [s.indicate ans.line.bytes]
    else if ans.malloc = none then []
    else (List.range (fragCount s.spp_mtu_size ans.line.bytes.length)).flatMap
      (fragActs s ans.line.bytes)
  else
    [.delay 50]

/-- The task ends in a pass: a line has to be cut, and there is no block for the fragments. -/
def Kills (s : SppServer) (ans : LinkAns) : Prop :=
  s.Reads ∧ s.spp_mtu_size - 3 < ans.line.bytes.length ∧ ans.malloc = none

instance (s : SppServer) (ans : LinkAns) : Decidable (Kills s ans) :=
  inferInstanceAs (Decidable (_ ∧ _ ∧ _))

/-- A pass that reads no bytes sends nothing. -/
theorem passActs_nil {s : SppServer} {ans : LinkAns} (hreads : s.Reads)
    (hnil : ans.line.bytes = []) : passActs s ans = [] := by
  rw [passActs, if_pos ⟨hreads.1, hreads.2.1⟩, if_pos (.inr hnil)]

/-- A pass sends a line that fits in one notification. -/
theorem passActs_whole {s : SppServer} {ans : LinkAns} (hreads : s.Reads)
    (hpos : ans.line.bytes ≠ []) (hfit : ans.line.bytes.length ≤ s.spp_mtu_size - 3) :
    passActs s ans = [s.indicate ans.line.bytes] := by
  rw [passActs, if_pos ⟨hreads.1, hreads.2.1⟩, if_neg (by simp [hreads.2.2, hpos]), if_pos hfit]

/-- A pass cuts a line that does not fit. -/
theorem passActs_cut {s : SppServer} {ans : LinkAns} (hreads : s.Reads)
    (hcut : s.spp_mtu_size - 3 < ans.line.bytes.length) (hmalloc : ans.malloc ≠ none) :
    passActs s ans = (List.range (fragCount s.spp_mtu_size ans.line.bytes.length)).flatMap
      (fragActs s ans.line.bytes) := by
  have hpos : ans.line.bytes ≠ [] := List.ne_nil_of_length_pos (by omega)
  rw [passActs, if_pos ⟨hreads.1, hreads.2.1⟩, if_neg (by simp [hreads.2.2, hpos]),
    if_neg (Nat.not_le_of_lt hcut), if_neg hmalloc]

/-- The task sends nothing in the pass in which it ends. -/
theorem passActs_kills {s : SppServer} {ans : LinkAns} (h : Kills s ans) : passActs s ans = [] := by
  obtain ⟨hreads, hcut, hnone⟩ := h
  have hpos : ans.line.bytes ≠ [] := List.ne_nil_of_length_pos (by omega)
  rw [passActs, if_pos ⟨hreads.1, hreads.2.1⟩, if_neg (by simp [hreads.2.2, hpos]),
    if_neg (Nat.not_le_of_lt hcut), if_pos hnone]

/-- A pass that does not read a line sends nothing. -/
theorem notifications_of_not_reads {s : SppServer} (ans : LinkAns) (hreads : ¬ s.Reads) :
    notifications (passActs s ans) = [] := by
  rw [passActs]
  split_ifs with hopen hread
  · rfl
  all_goals
    first
      | rfl
      | exact absurd ⟨hopen.1, hopen.2, by simpa using fun h => hread (.inl h)⟩ hreads

/-! ## The loop -/

/-- A statement that does not end the pass, and then the rest of it. -/
theorem linkRun_step {s : SppServer} {ans : LinkAns} {t t' : LinkTask} {acts : List LinkAct}
    (h : linkStep s ans t = some (t', acts)) (hg : t'.pc ≠ .gate) (hd : t'.pc ≠ .dead)
    (fuel : ℕ) :
    linkRun s ans (fuel + 1) t = (linkRun s ans fuel t').map fun q => (q.1, acts ++ q.2) := by
  rw [linkRun, h, Option.bind_some, if_neg (by simp [hg, hd])]

/-- The statement that ends the pass. -/
theorem linkRun_last {s : SppServer} {ans : LinkAns} {t t' : LinkTask} {acts : List LinkAct}
    (h : linkStep s ans t = some (t', acts)) (hpc : t'.pc = .gate ∨ t'.pc = .dead) (fuel : ℕ) :
    linkRun s ans (fuel + 1) t = some (t', acts) := by
  rw [linkRun, h, Option.bind_some, if_pos hpc]

/-- The task is at the test of the loop with the fragments below `i` sent. -/
structure AtLoop (s : SppServer) (line : List UInt8) (i : ℕ) (t : LinkTask) : Prop where
  pc : t.pc = .loop
  temp_le : line.length ≤ t.temp.length
  temp : t.temp.take line.length = line
  linesize : t.linesize = line.length
  total_num : t.total_num = fragCount s.spp_mtu_size line.length
  current_num : t.current_num = i + 1
  buff : ∃ buff, t.ntf_value_p = some buff ∧ buff.length = s.spp_mtu_size - 3

/-- A slice of the line lies inside it. -/
theorem slice_end_le (hm : 23 ≤ m) {i : ℕ} (hi : i < fragCount m line.length) :
    i * (m - 7) + (slice (m - 7) line i).length ≤ line.length := by
  have h := mul_lt_of_lt_sliceCount (by omega : 0 < m - 7) hi
  rw [length_slice]
  omega

/-- The buffer holds more of the line than a slice, so the slice is what is copied. -/
theorem slice_of_temp {temp : List UInt8} (htemp : temp.take line.length = line) (hm : 23 ≤ m)
    {i : ℕ} (hi : i < fragCount m line.length) :
    (temp.drop (i * (m - 7))).take (slice (m - 7) line i).length = slice (m - 7) line i := by
  have hend := slice_end_le hm hi
  have hlen := length_slice (m - 7) line i
  conv_rhs => rw [slice, ← htemp, List.drop_take, List.take_take]
  congr 1

/-- The length that is copied for a fragment is that of its slice. -/
theorem copyLen_eq {m : ℕ} (hm : 23 ≤ m) (line : List UInt8) {i : ℕ}
    (hi : i < fragCount m line.length) :
    copyLen line.length (fragCount m line.length) m i = (slice (m - 7) line i).length := by
  have hpos : 0 < m - 7 := by omega
  have hlt := mul_lt_of_lt_sliceCount hpos hi
  rw [copyLen, length_slice, offset_eq hm]
  split_ifs with hlast
  · -- There is a slice after this one, so this one is full.
    have := mul_lt_of_lt_sliceCount hpos hlast
    rw [Nat.add_mul] at this
    omega
  · have hle := le_sliceCount_mul hpos line.length
    rw [show sliceCount (m - 7) line.length = i + 1 by rw [fragCount] at hi hlast; omega,
      Nat.add_mul] at hle
    omega

/-- And what is copied is the slice. -/
theorem payloadAt_eq {m : ℕ} (hm : 23 ≤ m) {temp line : List UInt8}
    (htemp : temp.take line.length = line) {i : ℕ} (hi : i < fragCount m line.length) :
    payloadAt temp line.length (fragCount m line.length) m i = slice (m - 7) line i := by
  rw [payloadAt, copyLen_eq hm line hi, Int.toNat_natCast, slice_of_temp htemp hm hi]

/-- The copy stays inside the line, and inside the buffer. -/
theorem copyFits_line {m : ℕ} (hm : 23 ≤ m) (line : List UInt8) {i : ℕ}
    (hi : i < fragCount m line.length) :
    CopyFits (m - 3) line.length line.length (fragCount m line.length) m i := by
  have hend := slice_end_le hm hi
  have hlen := length_slice (m - 7) line i
  rw [CopyFits, copyLen_eq hm line hi, offset_eq hm i]
  omega

/-- One pass of the loop sends one fragment, and the counter goes up by one. -/
theorem loop_pass {s : SppServer} (ans : LinkAns) {i : ℕ} {t : LinkTask}
    (hm : 23 ≤ s.spp_mtu_size) (hn : line.length ≤ uplinkBufsize) (ht : AtLoop s line i t)
    (hi : i < fragCount s.spp_mtu_size line.length) :
    ∃ t', AtLoop s line (i + 1) t' ∧ ∀ fuel, linkRun s ans (fuel + 4) t =
      (linkRun s ans fuel t').map fun q => (q.1, fragActs s line i ++ q.2) := by
  have hcount := fragCount_le hm hn
  have hlen := copyLen_eq hm line hi
  have hpay := payloadAt_eq hm ht.temp hi
  obtain ⟨h0, hdst, hsrc⟩ := copyFits_line hm line hi
  have hfits : CopyFits (s.spp_mtu_size - 3) t.temp.length line.length
      (fragCount s.spp_mtu_size line.length) s.spp_mtu_size i :=
    ⟨h0, hdst, hsrc.trans (by exact_mod_cast ht.temp_le)⟩
  -- The four statements of the pass take the task through `t₁`, `t₂`, `t₃`, and `t₄`.
  have hat : AtFragment .loop (s.spp_mtu_size - 3) t.temp line.length
      (fragCount s.spp_mtu_size line.length) i t :=
    ⟨ht.pc, rfl, ht.linesize, ht.total_num, ht.current_num, ht.buff⟩
  obtain ⟨t₁, h₁, hat₁⟩ := linkStep_loop s ans hi hat
  obtain ⟨t₂, h₂, hat₂, hbuff⟩ := (linkStep_fill ans hm (by omega) hat₁).1 hfits
  obtain ⟨t₃, h₃, hat₃⟩ := linkStep_sendFrag ans hat₂ hfits hbuff
  obtain ⟨t₄, h₄, hat₄⟩ := linkStep_delay s ans (by omega) hat₃
  refine ⟨t₄, ⟨hat₄.pc, hat₄.temp ▸ ht.temp_le, hat₄.temp ▸ ht.temp, hat₄.linesize, hat₄.total_num,
    hat₄.current_num, hat₄.buff⟩, fun fuel => ?_⟩
  rw [linkRun_step h₁ (by simp [hat₁.pc]) (by simp [hat₁.pc]),
    linkRun_step h₂ (by simp [hat₂.pc]) (by simp [hat₂.pc]),
    linkRun_step h₃ (by simp [hat₃.pc]) (by simp [hat₃.pc]),
    linkRun_step h₄ (by simp [hat₄.pc]) (by simp [hat₄.pc])]
  rw [hlen, offset_eq hm, fragmentValue, hpay]
  simp only [Option.map_map, fragActs]
  rfl

/-- From the test of the loop, the fragments that are left are sent, and the task returns to the
gate. The counters end at the number of fragments and one more. -/
theorem loop_spec {s : SppServer} (ans : LinkAns) (hm : 23 ≤ s.spp_mtu_size)
    (hn : line.length ≤ uplinkBufsize) (fuel : ℕ) :
    ∀ {k i : ℕ} {t : LinkTask}, AtLoop s line i t → i + k = fragCount s.spp_mtu_size line.length →
      ∃ t', linkRun s ans (4 * k + (fuel + 2)) t =
          some (t', (List.range' i k).flatMap (fragActs s line)) ∧
        t'.pc = .gate ∧ t'.total_num = i + k ∧ t'.current_num = i + k + 1 := by
  intro k
  induction k with
  | zero =>
    intro i t ht hik
    let t₁ : LinkTask := { t with pc := .free }
    let t₂ : LinkTask := { t₁ with ntf_value_p := none, pc := .gate }
    have h₁ : linkStep s ans t = some (t₁, []) := by
      have hend : ¬ i + 1 ≤ t.total_num := by rw [ht.total_num]; omega
      simp only [linkStep, ht.pc, ht.current_num, t₁, if_neg hend]
    refine ⟨t₂, ?_, rfl, by rw [hik]; exact ht.total_num, ht.current_num⟩
    rw [Nat.mul_zero, Nat.zero_add, linkRun_step h₁ (by simp [t₁]) (by simp [t₁]),
      @linkRun_last s ans t₁ t₂ [] rfl (.inl rfl)]
    rfl
  | succ k ih =>
    intro i t ht hik
    obtain ⟨t₁, ht₁, hpass⟩ := loop_pass ans hm hn ht (by omega)
    obtain ⟨t', hrun, hpc, htot, hcur⟩ := ih ht₁ (by omega)
    refine ⟨t', ?_, hpc, by omega, by omega⟩
    rw [show 4 * (k + 1) + (fuel + 2) = 4 * k + (fuel + 2) + 4 by ring, hpass, hrun]
    rw [List.range'_succ, List.flatMap_cons]
    rfl

/-! ## The pass -/

/-- The number of fragments that the task computes. -/
theorem total_eq (hm : 23 ≤ m) (hn : line.length ≤ uplinkBufsize) :
    ((if (line.length : ℤ).tmod ((m : ℤ) - 7) = 0 then (line.length : ℤ).tdiv ((m : ℤ) - 7)
      else (line.length : ℤ).tdiv ((m : ℤ) - 7) + 1) % 2 ^ 8).toNat =
      fragCount m line.length := by
  have hcount := fragCount_le hm hn
  have hm7 : (m : ℤ) - 7 = (m - 7 : ℕ) := by omega
  rw [hm7, ← Int.ofNat_tmod, ← Int.ofNat_tdiv]
  rw [fragCount, sliceCount] at hcount ⊢
  generalize line.length / (m - 7) = q at *
  generalize line.length % (m - 7) = r at *
  split_ifs at hcount ⊢ <;> omega

/-- With the gate closed the task waits, and returns to the gate. -/
theorem linkRun_closed {s : SppServer} (ans : LinkAns) {t : LinkTask} (ht : t.pc = .gate)
    (hgate : ¬ (s.is_connected = true ∧ s.enable_data_ntf = true)) (fuel : ℕ) :
    ∃ t', linkRun s ans (fuel + 3) t = some (t', [.delay 50]) ∧ t'.pc = .gate := by
  let t₁ : LinkTask := { t with linesize := 0, pc := .idle }
  have hidle : linkRun s ans (fuel + 1) t₁ = some ({ t₁ with pc := .gate }, [.delay 50]) :=
    linkRun_last rfl (.inl rfl) fuel
  have hidle' : linkRun s ans (fuel + 2) t₁ = some ({ t₁ with pc := .gate }, [.delay 50]) :=
    linkRun_last rfl (.inl rfl) (fuel + 1)
  refine ⟨{ t₁ with pc := .gate }, ?_, rfl⟩
  by_cases hconn : s.is_connected = true
  · have hntf : s.enable_data_ntf = false := by simpa [hconn] using hgate
    let t₀ : LinkTask := { t with linesize := 0, pc := .gateNtf }
    have h₀ : linkStep s ans t = some (t₀, []) := by simp [linkStep, ht, hconn, t₀]
    have h₁ : linkStep s ans t₀ = some (t₁, []) := by simp [linkStep, hntf, t₀, t₁]
    rw [linkRun_step h₀ (by simp [t₀]) (by simp [t₀]), linkRun_step h₁ (by simp [t₁])
      (by simp [t₁]), hidle]
    rfl
  · have h₁ : linkStep s ans t = some (t₁, []) := by simp [linkStep, ht, hconn, t₁]
    rw [linkRun_step h₁ (by simp [t₁]) (by simp [t₁]), hidle']
    rfl

/-- The task has a line to send. -/
structure AtSize (line : List UInt8) (t : LinkTask) : Prop where
  pc : t.pc = .size
  temp_le : line.length ≤ t.temp.length
  temp : t.temp.take line.length = line
  linesize : t.linesize = line.length

/-- Past the gate, the task gets the line of the read callback, if there is one. -/
theorem linkRun_open {s : SppServer} (ans : LinkAns) {t : LinkTask} (ht : t.pc = .gate)
    (hconn : s.is_connected = true) (hntf : s.enable_data_ntf = true) (fuel : ℕ) :
    ∃ t' k, k ≤ 1 ∧ linkRun s ans (fuel + 3) t = linkRun s ans (fuel + k) t' ∧
      AtSize (if s.my_read_cb then ans.line.bytes else []) t' := by
  let t₁ : LinkTask := { t with linesize := 0, pc := .gateNtf }
  let t₂ : LinkTask := { t₁ with
    temp := List.replicate uplinkBufsize 0
    ntf_value_p := none
    pc := if s.my_read_cb then .read else .size }
  have h₁ : linkStep s ans t = some (t₁, []) := by simp [linkStep, ht, hconn, t₁]
  have h₂ : linkStep s ans t₁ = some (t₂, []) := by simp [linkStep, hntf, t₁, t₂]
  have hle : ans.line.bytes.length ≤ (List.replicate uplinkBufsize (0 : UInt8)).length := by
    rw [List.length_replicate]
    exact ans.line.le
  cases hcb : s.my_read_cb with
  | false =>
    refine ⟨t₂, 1, by omega, ?_, by simp [t₂, hcb], by simp, by simp, by simp [t₂, t₁]⟩
    rw [linkRun_step h₁ (by simp [t₁]) (by simp [t₁]),
      linkRun_step h₂ (by simp [t₂, hcb]) (by simp [t₂, hcb])]
    simp
  | true =>
    let t₃ : LinkTask := { t₂ with
      temp := splice t₂.temp 0 ans.line.bytes, linesize := ans.line.bytes.length, pc := .size }
    have h₃ : linkStep s ans t₂ = some (t₃, []) := by simp [linkStep, hcb, t₂, t₃]
    have hsplice := @take_splice _ t₂.temp ans.line.bytes 0 (by rw [Nat.zero_add]; exact hle)
    refine ⟨t₃, 0, by omega, ?_, rfl, ?_, ?_, rfl⟩
    · rw [linkRun_step h₁ (by simp [t₁]) (by simp [t₁]),
        linkRun_step h₂ (by simp [t₂, hcb]) (by simp [t₂, hcb]),
        linkRun_step h₃ (by simp [t₃]) (by simp [t₃])]
      simp
    · rw [if_pos rfl, length_splice (by rw [Nat.zero_add]; exact hle)]
      exact hle
    · rw [if_pos rfl]
      simpa using hsplice

/-- With no bytes read, the task returns to the gate. -/
theorem linkRun_nil {s : SppServer} (ans : LinkAns) {t : LinkTask} (ht : AtSize [] t) (fuel : ℕ) :
    ∃ t', linkRun s ans (fuel + 1) t = some (t', []) ∧ t'.pc = .gate := by
  refine ⟨{ t with pc := .gate }, linkRun_last ?_ (.inl rfl) fuel, rfl⟩
  simp [linkStep, ht.pc, ht.linesize]

/-- A line that fits is sent as it is. -/
theorem linkRun_whole {s : SppServer} (ans : LinkAns) {t : LinkTask} (hm : 23 ≤ s.spp_mtu_size)
    (ht : AtSize line t) (hpos : line ≠ []) (hn : line.length ≤ uplinkBufsize)
    (hfit : line.length ≤ s.spp_mtu_size - 3) (fuel : ℕ) :
    ∃ t', linkRun s ans (fuel + 2) t = some (t', [s.indicate line]) ∧ t'.pc = .gate := by
  have hlen : 0 < line.length := List.length_pos_iff.mpr hpos
  have htemp := ht.temp_le
  let t₁ : LinkTask := { t with pc := .sendWhole }
  let t₂ : LinkTask := { t₁ with pc := .gate }
  have h₁ : linkStep s ans t = some (t₁, []) := by
    simp only [linkStep, ht.pc]
    rw [if_pos (by rw [ht.linesize]; omega), if_pos (by rw [ht.linesize]; omega)]
  have h₂ : linkStep s ans t₁ = some (t₂, [s.indicate line]) := by
    have hsend : sendIndicate s t.temp t.linesize = some (s.indicate line) := by
      rw [sendIndicate, ht.linesize, if_pos (by omega), Int.toNat_natCast, ht.temp]
      rfl
    simp only [linkStep, t₁, hsend]
    rfl
  refine ⟨t₂, ?_, rfl⟩
  rw [linkRun_step h₁ (by simp [t₁]) (by simp [t₁]), linkRun_last h₂ (.inl rfl)]
  rfl

/-- A line that does not fit is cut, if there is a block for the fragments; without one the task
ends. -/
theorem linkRun_cut {s : SppServer} {ans : LinkAns} {t : LinkTask} (hm : 23 ≤ s.spp_mtu_size)
    (ht : AtSize line t) (hn : line.length ≤ uplinkBufsize)
    (hcut : s.spp_mtu_size - 3 < line.length) (fuel : ℕ) :
    (ans.malloc = none → ∃ t', linkRun s ans (fuel + 3) t = some (t', []) ∧ t'.pc = .dead) ∧
      (ans.malloc ≠ none → ∃ t', linkRun s ans
          (4 * fragCount s.spp_mtu_size line.length + (fuel + 2) + 3) t =
            some (t', (List.range (fragCount s.spp_mtu_size line.length)).flatMap
              (fragActs s line)) ∧
        t'.pc = .gate ∧ t'.total_num = fragCount s.spp_mtu_size line.length ∧
        t'.current_num = fragCount s.spp_mtu_size line.length + 1) := by
  let t₁ : LinkTask := { t with pc := .total }
  let t₂ : LinkTask := { t₁ with
    total_num := fragCount s.spp_mtu_size line.length, current_num := 1, pc := .malloc }
  have h₁ : linkStep s ans t = some (t₁, []) := by
    simp only [linkStep, ht.pc]
    rw [if_pos (by rw [ht.linesize]; omega), if_neg (by rw [ht.linesize]; omega)]
  have h₂ : linkStep s ans t₁ = some (t₂, []) := by
    have htotal := total_eq hm hn
    rw [← ht.linesize] at htotal
    simp only [linkStep, t₁]
    rw [if_neg (by omega), htotal]
  constructor
  · intro hnone
    refine ⟨{ t₂ with ntf_value_p := none, pc := .dead }, ?_, rfl⟩
    rw [linkRun_step h₁ (by simp [t₁]) (by simp [t₁]),
      linkRun_step h₂ (by simp [t₂]) (by simp [t₂]),
      linkRun_last (by simp only [linkStep, t₂, hnone]; rfl) (.inr rfl)]
    rfl
  · intro hsome
    obtain ⟨contents, hcontents⟩ := Option.ne_none_iff_exists'.mp hsome
    let t₃ : LinkTask := { t₂ with
      ntf_value_p := some ((List.range (s.spp_mtu_size - 3)).map contents), pc := .loop }
    have h₃ : linkStep s ans t₂ = some (t₃, []) := by simp [linkStep, t₂, t₃, hcontents]
    have hloop : AtLoop s line 0 t₃ :=
      ⟨rfl, ht.temp_le, ht.temp, ht.linesize, rfl, rfl, _, rfl, by simp⟩
    obtain ⟨t', hrun, hpc, htot, hcur⟩ := loop_spec ans hm hn fuel hloop (Nat.zero_add _)
    refine ⟨t', ?_, hpc, by omega, by omega⟩
    rw [linkRun_step h₁ (by simp [t₁]) (by simp [t₁]),
      linkRun_step h₂ (by simp [t₂]) (by simp [t₂]),
      linkRun_step h₃ (by simp [t₃]) (by simp [t₃]), hrun, List.range_eq_range']
    rfl

/-- A pass of the task makes the calls and copies of `passActs`; it leaves the task at the gate,
unless there is no block for the fragments of a line. After a line is cut, the counters are at the
number of fragments and one more. -/
theorem linkIteration_spec {s : SppServer} (ans : LinkAns) (hm : 23 ≤ s.spp_mtu_size) {t : LinkTask}
    (ht : t.pc = .gate) :
    ∃ t', linkIteration s ans t = some (t', passActs s ans) ∧
      (t'.pc = if Kills s ans then .dead else .gate) ∧
      (s.Reads → s.spp_mtu_size - 3 < ans.line.bytes.length → ans.malloc ≠ none →
        t'.total_num = fragCount s.spp_mtu_size ans.line.bytes.length ∧
          t'.current_num = fragCount s.spp_mtu_size ans.line.bytes.length + 1) := by
  by_cases hgate : s.is_connected = true ∧ s.enable_data_ntf = true
  · -- The gate takes three of the statements that `linkFuel` allows, and the others are left.
    obtain ⟨t₁, k, hk, hopen, hsize⟩ := linkRun_open ans ht hgate.1 hgate.2 1029
    have hiter : linkIteration s ans t = linkRun s ans (1029 + k) t₁ := hopen
    have hn := ans.line.le
    cases hcb : s.my_read_cb with
    | false =>
      have hreads : ¬ s.Reads := by simp [SppServer.Reads, hcb]
      rw [hcb] at hsize
      obtain ⟨t', hrun, hpc⟩ := linkRun_nil (s := s) ans hsize (1028 + k)
      refine ⟨t', ?_, by simp [Kills, hreads, hpc], fun h => absurd h hreads⟩
      rw [hiter, show 1029 + k = 1028 + k + 1 by omega, hrun, passActs, if_pos hgate,
        if_pos (.inl hcb)]
    | true =>
      have hreads : s.Reads := ⟨hgate.1, hgate.2, hcb⟩
      rw [hcb, if_pos rfl] at hsize
      by_cases hnil : ans.line.bytes = []
      · rw [hnil] at hsize
        obtain ⟨t', hrun, hpc⟩ := linkRun_nil (s := s) ans hsize (1028 + k)
        refine ⟨t', ?_, by simp [Kills, hnil, hpc], fun _ h => by simp [hnil] at h⟩
        rw [hiter, show 1029 + k = 1028 + k + 1 by omega, hrun, passActs_nil hreads hnil]
      · by_cases hfit : ans.line.bytes.length ≤ s.spp_mtu_size - 3
        · obtain ⟨t', hrun, hpc⟩ := linkRun_whole ans hm hsize hnil hn hfit (1027 + k)
          refine ⟨t', ?_, ?_, fun _ h => absurd hfit (by omega)⟩
          · rw [hiter, show 1029 + k = 1027 + k + 2 by omega, hrun, passActs_whole hreads hnil hfit]
          · rw [hpc, if_neg fun h => absurd h.2.1 (by omega)]
        · have hcount := fragCount_le hm hn
          have hcut : s.spp_mtu_size - 3 < ans.line.bytes.length := by omega
          by_cases hmalloc : ans.malloc = none
          · have hkills : Kills s ans := ⟨hreads, hcut, hmalloc⟩
            obtain ⟨t', hrun, hpc⟩ := (linkRun_cut hm hsize hn hcut (1026 + k)).1 hmalloc
            refine ⟨t', ?_, ?_, fun _ _ h => absurd hmalloc h⟩
            · rw [hiter, show 1029 + k = 1026 + k + 3 by omega, hrun, passActs_kills hkills]
            · rw [hpc, if_pos hkills]
          · obtain ⟨t', hrun, hpc, htot, hcur⟩ := (linkRun_cut hm hsize hn hcut
              (1024 + k - 4 * fragCount s.spp_mtu_size ans.line.bytes.length)).2 hmalloc
            refine ⟨t', ?_, ?_, fun _ _ _ => ⟨htot, hcur⟩⟩
            · rw [hiter, show 1029 + k = 4 * fragCount s.spp_mtu_size ans.line.bytes.length +
                (1024 + k - 4 * fragCount s.spp_mtu_size ans.line.bytes.length + 2) + 3 by omega,
                hrun, passActs_cut hreads hcut hmalloc]
            · rw [hpc, if_neg fun h => hmalloc h.2.2]
  · obtain ⟨t', hrun, hpc⟩ := linkRun_closed ans ht hgate 1029
    have hreads : ¬ s.Reads := fun h => hgate ⟨h.1, h.2.1⟩
    refine ⟨t', ?_, by simp [Kills, hreads, hpc], fun h => absurd h hreads⟩
    rw [passActs, if_neg hgate]
    exact hrun

/-! ## The encoding -/

/-- The notifications of the fragment loop are the fragments. -/
theorem notifications_fragActs (s : SppServer) (line : List UInt8) (is : List ℕ) :
    notifications (is.flatMap (fragActs s line)) = is.map (fragment s.spp_mtu_size line) := by
  induction is with
  | nil => rfl
  | cons i is ih =>
    rw [List.flatMap_cons, notifications, List.filterMap_append, ← notifications, ← notifications,
      ih]
    rfl

/-- A pass that reads a line, and has a block for its fragments if it does not fit, sends the frames of
the line. -/
theorem notifications_passActs {s : SppServer} {ans : LinkAns} (hreads : s.Reads)
    (hpos : ans.line.bytes ≠ [])
    (hblock : s.spp_mtu_size - 3 < ans.line.bytes.length → ans.malloc ≠ none) :
    notifications (passActs s ans) = frames s.spp_mtu_size ans.line.bytes := by
  rw [frames]
  split_ifs with hfit
  · rw [passActs_whole hreads hpos hfit]
    rfl
  · have hcut : s.spp_mtu_size - 3 < ans.line.bytes.length := Nat.lt_of_not_le hfit
    rw [passActs_cut hreads hcut (hblock hcut)]
    exact notifications_fragActs s _ _

/-- What the calls and copies for a line in fragments are to satisfy, with `total` fragments. -/
structure Fragments (m : ℕ) (line : List UInt8) (total : ℕ) (acts : List LinkAct) : Prop where
  total_eq : total = (line.length + (m - 7) - 1) / (m - 7)
  two_le : 2 ≤ total
  no_wrap : total + 1 < 2 ^ 8
  length : (notifications acts).length = total
  fragment : ∀ k, 1 ≤ k → k ≤ total → ∃ payload,
    (notifications acts)[k - 1]? =
        some ([hash, hash, UInt8.ofNat total, UInt8.ofNat k] ++ payload) ∧
      payload ≠ [] ∧ 4 + payload.length ≤ m - 3
  payloads : (notifications acts).flatMap (List.drop 4) = line
  copies : ∀ dst src len : ℤ, .memcpy dst src len ∈ acts →
    0 ≤ len ∧ 0 ≤ src ∧ src + len ≤ line.length ∧ 0 ≤ dst ∧ dst + len ≤ m - 3
  passes : acts.count (.delay 20) = total

/-- The loop sends the fragments of a line that does not fit. -/
theorem fragments_fragActs {s : SppServer} (hm : 23 ≤ s.spp_mtu_size)
    (hn : line.length ≤ uplinkBufsize) (hcut : s.spp_mtu_size - 3 < line.length) :
    Fragments s.spp_mtu_size line (fragCount s.spp_mtu_size line.length)
      ((List.range (fragCount s.spp_mtu_size line.length)).flatMap (fragActs s line)) where
  total_eq := sliceCount_eq_ceil (by omega) _
  two_le := two_le_fragCount hm hcut
  no_wrap := by
    have := fragCount_le hm hn
    omega
  length := by rw [notifications_fragActs, List.length_map, List.length_range]
  fragment k h₁ hk := by
    have hi : k - 1 < fragCount s.spp_mtu_size line.length := by omega
    refine ⟨slice (s.spp_mtu_size - 7) line (k - 1), ?_, ?_, ?_⟩
    · rw [notifications_fragActs, List.getElem?_map, List.getElem?_range hi, Option.map_some,
        fragment, Nat.sub_add_cancel h₁]
    · exact List.ne_nil_of_length_pos (slice_length_pos hm hi)
    · have := length_fragment_le hm line (k - 1)
      rwa [PartLib.Ble.fragment, List.length_append] at this
  payloads := by rw [notifications_fragActs, flatMap_payload hm]
  copies dst src len hmem := by
    obtain ⟨i, hi, hmem⟩ := List.mem_flatMap.mp hmem
    rw [List.mem_range] at hi
    have hend := slice_end_le hm hi
    have hlen := length_slice (s.spp_mtu_size - 7) line i
    simp only [fragActs, SppServer.indicate, List.mem_cons, LinkAct.memcpy.injEq, reduceCtorEq,
      List.not_mem_nil, or_false] at hmem
    obtain ⟨rfl, rfl, rfl⟩ := hmem
    omega
  passes := by
    have hone : ∀ i, (fragActs s line i).count (.delay 20) = 1 := fun i => rfl
    rw [List.count_flatMap]
    simp [Function.comp_def, hone]

/-- What the calls and copies of a pass are to satisfy for a line, where `t'` is the task after it: the
line in one notification when it fits, and otherwise its fragments, after which the counter is at the
number of fragments and one more. -/
structure Encodes (s : SppServer) (line : List UInt8) (t' : LinkTask) (acts : List LinkAct) : Prop where
  whole : line.length ≤ s.spp_mtu_size - 3 → acts = [s.indicate line]
  cut : s.spp_mtu_size - 3 < line.length →
    Fragments s.spp_mtu_size line t'.total_num acts ∧ t'.current_num = t'.total_num + 1

/-- No fragments are sent in a pass that sends nothing. -/
theorem not_fragments_nil {m total : ℕ} : ¬ Fragments m line total [] := by
  intro h
  have hlen := h.length
  have htwo := h.two_le
  rw [show notifications [] = [] from rfl, List.length_nil] at hlen
  omega

/-- With an MTU between 23 and 517 and a line of 1 to 512 bytes, a pass of the task encodes the line if
and only if it fits in one notification or there is a block for its fragments: without one the `break`
does not skip the line, but ends the task. -/
theorem uplink_encodes_iff (s : SppServer) (line : Line) (malloc : Option (ℕ → UInt8)) (t : LinkTask)
    (hreads : s.Reads) (hm : 23 ≤ s.spp_mtu_size ∧ s.spp_mtu_size ≤ 517)
    (hpos : 1 ≤ line.bytes.length) (ht : t.pc = .gate) :
    (∃ t' acts, linkIteration s ⟨line, malloc⟩ t = some (t', acts) ∧
        Encodes s line.bytes t' acts) ↔
      line.bytes.length ≤ s.spp_mtu_size - 3 ∨ malloc ≠ none := by
  have hne : line.bytes ≠ [] := List.ne_nil_of_length_pos hpos
  obtain ⟨t₁, hiter, hpc, hcount⟩ := linkIteration_spec ⟨line, malloc⟩ hm.1 ht
  constructor
  · rintro ⟨t', acts, hiter', henc⟩
    by_contra hnot
    push Not at hnot
    obtain ⟨hcut, hnone⟩ := hnot
    have hkills : Kills s ⟨line, malloc⟩ := ⟨hreads, hcut, hnone⟩
    rw [hiter, passActs_kills hkills] at hiter'
    cases hiter'
    exact not_fragments_nil (henc.cut hcut).1
  · intro h
    refine ⟨t₁, _, hiter, fun hfit => passActs_whole hreads hne hfit, fun hcut => ?_⟩
    have hmalloc : malloc ≠ none := h.resolve_left (Nat.not_le_of_lt hcut)
    obtain ⟨htot, hcur⟩ := hcount hreads hcut hmalloc
    rw [passActs_cut hreads hcut hmalloc, htot, hcur]
    exact ⟨fragments_fragActs hm.1 line.le hcut, rfl⟩

/-- The server once a client is connected and listens. -/
def SppServer.listening : SppServer :=
  { SppServer.init with spp_conn_id := 0, is_connected := true, enable_data_ntf := true }

/-- A line of 21 bytes. -/
def lineOf21 : Line := ⟨List.replicate 21 65, by decide⟩

/-- With the default MTU and a block, it goes in two fragments. -/
theorem uplink_encodes_two_fragments :
    ∃ t' acts, linkIteration .listening ⟨lineOf21, some fun _ => 0⟩ .init = some (t', acts) ∧
      Encodes .listening lineOf21.bytes t' acts :=
  (uplink_encodes_iff .listening lineOf21 (some fun _ => 0) .init ⟨rfl, rfl, rfl⟩ (by decide)
    (by decide) rfl).mpr (.inr (Option.some_ne_none _))

/-- Without a block nothing is sent, and the task has ended. -/
theorem uplink_not_encoded :
    ∃ t', linkIteration .listening ⟨lineOf21, none⟩ .init = some (t', []) ∧ t'.pc = .dead ∧
      ¬ Encodes .listening lineOf21.bytes t' [] :=
  ⟨_, rfl, rfl, fun h => not_fragments_nil (h.cut (by decide)).1⟩

end PartLib.Ble
