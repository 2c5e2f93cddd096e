import PartLib.Ble.Uplink
import PartLib.Ble.Server

/-!
# Fragments while the MTU changes

`link_task` sends a long line in fragments, and waits 20 milliseconds after each. The number of the
fragments and the size of their buffer come from the MTU at the beginning, but every fragment is cut
with the MTU of its own time, which an event may have changed during a delay.

So the line arrives as it is, and every copy stays inside the line and the buffer, if and only if the
MTU is the same at every fragment (`fragments_iff_mtu`): with a larger MTU a fragment overflows the
buffer, and with a smaller one the slices do not fit together.
-/

namespace PartLib.Ble

/-- The MTU after the events of a delay. -/
def mtuAfter (m : ℕ) (events : List Mtu) : ℕ := events.foldl (fun _ e => e.val) m

/-- The MTU at each fragment, when it is `m` at the first, and `delays` has the events of the delay
after each. -/
def mtusAt : ℕ → List (List Mtu) → List ℕ
  | _, [] => []
  | m, events :: delays => m :: mtusAt (mtuAfter m events) delays

/-- One round of the fragment loop: the test, the copy and the send, then the delay with its events. -/
def fragmentInputs (ans : LinkAns) (events : List Mtu) : List ServerInput :=
  List.replicate 3 (.link ans) ++ events.map (fun e => .gatt (.mtu e)) ++ [.link ans]

/-- What the task does with a line that it has to cut, from the comparison of its size on: the number
of fragments, the allocation of the buffer, the loop, and the end of it. -/
def cutInputs (ans : LinkAns) (delays : List (List Mtu)) : List ServerInput :=
  List.replicate 3 (.link ans) ++ delays.flatMap (fragmentInputs ans) ++
    List.replicate 2 (.link ans)

/-- A pass of the task that reads a line and cuts it. -/
def passInputs (ans : LinkAns) (delays : List (List Mtu)) : List ServerInput :=
  List.replicate 3 (.link ans) ++ cutInputs ans delays

/-- The array `temp` with a line in it. -/
def tempOf (line : List UInt8) : List UInt8 := splice (List.replicate uplinkBufsize 0) 0 line

/-- The array has its size. -/
theorem length_tempOf {line : List UInt8} (h : line.length ≤ uplinkBufsize) :
    (tempOf line).length = uplinkBufsize := by
  rw [tempOf, length_splice (by simpa using h), List.length_replicate]

/-- The task with a line that it has read; the counters are those of an earlier line. -/
def LinkTask.holding (line : Line) (total_num current_num : ℕ) : LinkTask :=
  ⟨.size, tempOf line.bytes, line.bytes.length, total_num, current_num, none⟩

/-- Every copy has a length, and stays inside the line and the buffer that was allocated with the MTU
`m`; and the payloads that are sent make up the line. -/
structure Delivers (m : ℕ) (line : List UInt8) (o : List ServerOut) : Prop where
  copies : ∀ dst src len : ℤ, .inr (.memcpy dst src len) ∈ o →
    0 ≤ len ∧ 0 ≤ src ∧ src + len ≤ line.length ∧ 0 ≤ dst ∧ dst + len ≤ m - 3
  payloads : (sent o).flatMap (List.drop 4) = line

/-! ## One fragment -/

/-- What is seen of one fragment before its delay. -/
def fragmentOut (spp : SppServer) (temp : List UInt8) (n total i : ℕ) : List ServerOut :=
  [.inr (.memcpy 4 (i * ((spp.spp_mtu_size : ℤ) - 7)) (copyLen n total spp.spp_mtu_size i)),
    .inr (spp.indicate (fragmentValue temp n total spp.spp_mtu_size i))]

variable {spp : SppServer} (ans : LinkAns) {size n total i : ℕ} {temp : List UInt8} {t : LinkTask}

/-- A fragment up to its delay. It goes through if the copy fits. -/
theorem fragment_run (hm : 23 ≤ spp.spp_mtu_size) (hsize : 4 ≤ size) (hi : i < total)
    (ht : AtFragment .loop size temp n total i t) :
    (CopyFits size temp.length n total spp.spp_mtu_size i → ∃ t',
      sppServer.run ⟨spp, t⟩ (List.replicate 3 (.link ans)) =
        some (⟨spp, t'⟩, fragmentOut spp temp n total i) ∧
      AtFragment .delay size temp n total i t') ∧
    (¬ CopyFits size temp.length n total spp.spp_mtu_size i →
      sppServer.run ⟨spp, t⟩ (List.replicate 3 (.link ans)) = none) := by
  obtain ⟨t₁, hloop, hat₁⟩ := linkStep_loop spp ans hi ht
  obtain ⟨hsome, hnone⟩ := linkStep_fill ans hm hsize hat₁
  constructor
  · intro hfits
    obtain ⟨t₂, hfill, hat₂, hbuff⟩ := hsome hfits
    obtain ⟨t₃, hsend, hat₃⟩ := linkStep_sendFrag ans hat₂ hfits hbuff
    refine ⟨t₃, ?_, hat₃⟩
    simp [List.replicate, Machine.run_cons, sppServer, hloop, hfill, hsend, fragmentOut]
  · intro hnot
    simp [List.replicate, Machine.run_cons, sppServer, hloop, hnone hnot]

/-- The events of a delay change the MTU. -/
theorem events_run (spp : SppServer) (t : LinkTask) (events : List Mtu) :
    sppServer.run ⟨spp, t⟩ (events.map fun e => .gatt (.mtu e)) =
      some (⟨{ spp with spp_mtu_size := mtuAfter spp.spp_mtu_size events }, t⟩, []) := by
  induction events generalizing spp with
  | nil => rfl
  | cons e events ih =>
    have hstep : sppServer.step ⟨spp, t⟩ (.gatt (.mtu e)) =
        some (⟨{ spp with spp_mtu_size := e.val }, t⟩, []) := rfl
    rw [List.map_cons, Machine.run_cons, hstep, Option.bind_some, ih]
    rfl

/-- A round of the loop: the fragment, the events of its delay, and the delay. -/
theorem round_run (hm : 23 ≤ spp.spp_mtu_size) (hsize : 4 ≤ size) (hi : i < total)
    (htotal : total ≤ 32) (ht : AtFragment .loop size temp n total i t) (events : List Mtu) :
    (CopyFits size temp.length n total spp.spp_mtu_size i → ∃ t',
      sppServer.run ⟨spp, t⟩ (fragmentInputs ans events) =
        some (⟨{ spp with spp_mtu_size := mtuAfter spp.spp_mtu_size events }, t'⟩,
          fragmentOut spp temp n total i ++ [.inr (.delay 20)]) ∧
      AtFragment .loop size temp n total (i + 1) t') ∧
    (¬ CopyFits size temp.length n total spp.spp_mtu_size i →
      sppServer.run ⟨spp, t⟩ (fragmentInputs ans events) = none) := by
  obtain ⟨hsome, hnone⟩ := fragment_run ans hm hsize hi ht
  constructor
  · intro hfits
    obtain ⟨t₁, hrun, hat₁⟩ := hsome hfits
    -- The events have changed the MTU, but not the task.
    obtain ⟨t₂, hdelay, hat₂⟩ := linkStep_delay
      { spp with spp_mtu_size := mtuAfter spp.spp_mtu_size events } ans (by omega) hat₁
    have hrun₂ : sppServer.run
        ⟨{ spp with spp_mtu_size := mtuAfter spp.spp_mtu_size events }, t₁⟩ [.link ans] =
          some (⟨{ spp with spp_mtu_size := mtuAfter spp.spp_mtu_size events }, t₂⟩,
            [.inr (.delay 20)]) := by
      simp [Machine.run_cons, sppServer, hdelay]
    refine ⟨t₂, sppServer.run_append_eq_some.mpr ⟨_, _, _,
      sppServer.run_append_eq_some.mpr ⟨_, _, _, hrun, events_run _ _ _, rfl⟩, hrun₂, ?_⟩, hat₂⟩
    rw [List.append_nil]
  · intro hnot
    rw [fragmentInputs, Machine.run_append, Machine.run_append, hnone hnot]
    rfl

/-! ## The loop -/

/-- The copies of the fragments from `i` on, with the MTU at each, stay inside an array of `room`
bytes and the buffer. -/
def AllFit (size room n total : ℕ) : ℕ → List ℕ → Prop
  | _, [] => True
  | i, m :: ms => CopyFits size room n total m i ∧ AllFit size room n total (i + 1) ms

/-- What is seen of the fragments from `i` on. -/
def loopOut (spp : SppServer) (temp : List UInt8) (n total : ℕ) : ℕ → List ℕ → List ServerOut
  | _, [] => []
  | i, m :: ms =>
    fragmentOut { spp with spp_mtu_size := m } temp n total i ++ [.inr (.delay 20)] ++
      loopOut spp temp n total (i + 1) ms

/-- What is seen does not depend on the MTU before. -/
theorem loopOut_mtu (spp : SppServer) (m : ℕ) (temp : List UInt8) (n total i : ℕ) (ms : List ℕ) :
    loopOut { spp with spp_mtu_size := m } temp n total i ms = loopOut spp temp n total i ms := by
  induction ms generalizing i with
  | nil => rfl
  | cons m' ms ih => rw [loopOut, loopOut, ih]

/-- The MTU stays one that the stack may report. -/
theorem le_mtuAfter {m : ℕ} (hm : 23 ≤ m) (events : List Mtu) : 23 ≤ mtuAfter m events := by
  rw [mtuAfter]
  induction events generalizing m with
  | nil => exact hm
  | cons e events ih => exact ih e.ge

/-- The loop goes through all fragments if all copies fit. -/
theorem loop_run (hm : 23 ≤ spp.spp_mtu_size) (hsize : 4 ≤ size) (htotal : total ≤ 32)
    (ht : AtFragment .loop size temp n total i t) {delays : List (List Mtu)}
    (hdelays : i + delays.length = total) :
    (AllFit size temp.length n total i (mtusAt spp.spp_mtu_size delays) → ∃ spp' t',
      sppServer.run ⟨spp, t⟩ (delays.flatMap (fragmentInputs ans)) =
        some (⟨spp', t'⟩, loopOut spp temp n total i (mtusAt spp.spp_mtu_size delays)) ∧
      AtFragment .loop size temp n total total t') ∧
    (¬ AllFit size temp.length n total i (mtusAt spp.spp_mtu_size delays) →
      sppServer.run ⟨spp, t⟩ (delays.flatMap (fragmentInputs ans)) = none) := by
  induction delays generalizing spp t i with
  | nil =>
    rw [List.length_nil, Nat.add_zero] at hdelays
    exact ⟨fun _ => ⟨spp, t, rfl, hdelays ▸ ht⟩, fun h => absurd trivial h⟩
  | cons events delays ih =>
    rw [List.length_cons] at hdelays
    obtain ⟨hsome, hnone⟩ := round_run ans hm hsize (by omega) htotal ht events
    rw [mtusAt, AllFit, List.flatMap_cons, loopOut, Machine.run_append]
    by_cases hfits : CopyFits size temp.length n total spp.spp_mtu_size i
    · obtain ⟨t₁, hrun, hat⟩ := hsome hfits
      obtain ⟨hsome', hnone'⟩ := @ih { spp with
        spp_mtu_size := mtuAfter spp.spp_mtu_size events } _ _ (le_mtuAfter hm events) hat (by omega)
      rw [hrun, Option.bind_some, and_iff_right hfits]
      refine ⟨fun hall => ?_, fun hnot => by rw [hnone' hnot]; rfl⟩
      obtain ⟨spp', t', hrun', hat'⟩ := hsome' hall
      refine ⟨spp', t', ?_, hat'⟩
      rw [hrun', loopOut_mtu]
      rfl
    · rw [hnone hfits]
      exact ⟨fun h => absurd h.1 hfits, fun _ => rfl⟩

/-- A line that has to be cut is sent if all copies fit. -/
theorem cut_run {line : Line} (hm : 23 ≤ spp.spp_mtu_size)
    (hcut : spp.spp_mtu_size - 3 < line.bytes.length) (hmalloc : ans.malloc ≠ none)
    (total_num current_num : ℕ) {delays : List (List Mtu)}
    (hdelays : delays.length = fragCount spp.spp_mtu_size line.bytes.length) :
    (AllFit (spp.spp_mtu_size - 3) uplinkBufsize line.bytes.length delays.length 0
        (mtusAt spp.spp_mtu_size delays) → ∃ s',
      sppServer.run ⟨spp, .holding line total_num current_num⟩ (cutInputs ans delays) =
        some (s', loopOut spp (tempOf line.bytes) line.bytes.length delays.length 0
          (mtusAt spp.spp_mtu_size delays))) ∧
    (¬ AllFit (spp.spp_mtu_size - 3) uplinkBufsize line.bytes.length delays.length 0
        (mtusAt spp.spp_mtu_size delays) →
      sppServer.run ⟨spp, .holding line total_num current_num⟩ (cutInputs ans delays) = none) := by
  obtain ⟨contents, hcontents⟩ := Option.ne_none_iff_exists'.mp hmalloc
  have hn := line.le
  have hcount := fragCount_le hm hn
  let t₁ : LinkTask := ⟨.total, tempOf line.bytes, line.bytes.length, total_num, current_num, none⟩
  let t₂ : LinkTask := ⟨.malloc, tempOf line.bytes, line.bytes.length, delays.length, 1, none⟩
  let t₃ : LinkTask := ⟨.loop, tempOf line.bytes, line.bytes.length, delays.length, 1,
    some ((List.range (spp.spp_mtu_size - 3)).map contents)⟩
  have h₁ : linkStep spp ans (.holding line total_num current_num) = some (t₁, []) := by
    have hpos : 0 < (line.bytes.length : ℤ) := by omega
    have hle : (line.bytes.length : ℤ) ≤ uplinkBufsize := by omega
    have hlong : ¬ (line.bytes.length : ℤ) ≤ spp.spp_mtu_size - 3 := by omega
    simp only [linkStep, LinkTask.holding, hpos, hle, hlong, and_self, if_true, if_false]
    rfl
  have h₂ : linkStep spp ans t₁ = some (t₂, []) := by
    simp only [linkStep, t₁, t₂]
    rw [if_neg (by omega), total_eq hm hn, ← hdelays]
  have h₃ : linkStep spp ans t₂ = some (t₃, []) := by
    simp only [linkStep, t₂, t₃, hcontents]
  have hstart : sppServer.run ⟨spp, .holding line total_num current_num⟩
      (List.replicate 3 (.link ans)) = some (⟨spp, t₃⟩, []) := by
    simp [List.replicate, Machine.run_cons, sppServer, h₁, h₂, h₃]
  have hat : AtFragment .loop (spp.spp_mtu_size - 3) (tempOf line.bytes) line.bytes.length
      delays.length 0 t₃ :=
    ⟨rfl, rfl, rfl, rfl, rfl, _, rfl, by simp⟩
  obtain ⟨hsome, hnone⟩ := loop_run ans hm (by omega) (by omega) hat (Nat.zero_add _)
  rw [length_tempOf hn] at hsome hnone
  rw [cutInputs, Machine.run_append, Machine.run_append, hstart, Option.bind_some]
  constructor
  · intro hall
    obtain ⟨spp', t', hrun, hat'⟩ := hsome hall
    have hend : sppServer.run ⟨spp', t'⟩ (List.replicate 2 (.link ans)) =
        some (⟨spp', { t' with ntf_value_p := none, pc := .gate }⟩, []) := by
      simp [List.replicate, Machine.run_cons, sppServer, linkStep, hat'.pc, hat'.current_num,
        hat'.total_num]
    refine ⟨⟨spp', { t' with ntf_value_p := none, pc := .gate }⟩, ?_⟩
    rw [hrun, Option.map_some, Option.bind_some, hend, Option.map_some, List.append_nil]
    rfl
  · intro hnot
    rw [hnone hnot]
    rfl

/-! ## When the line arrives -/

/-- The copy for the fragment at `i` with the MTU `m` stays inside the line, and inside the buffer
that was allocated with the MTU `m₀`. -/
def CopyOk (m₀ n total m i : ℕ) : Prop :=
  0 ≤ copyLen n total m i ∧ i * ((m : ℤ) - 7) + copyLen n total m i ≤ n ∧
    4 + copyLen n total m i ≤ m₀ - 3

/-- The copies of the fragments from `i` on do. -/
def AllOk (m₀ n total : ℕ) : ℕ → List ℕ → Prop
  | _, [] => True
  | i, m :: ms => CopyOk m₀ n total m i ∧ AllOk m₀ n total (i + 1) ms

/-- The payloads of the fragments from `i` on, one after another. -/
def linePayloads (temp : List UInt8) (n total : ℕ) : ℕ → List ℕ → List UInt8
  | _, [] => []
  | i, m :: ms => payloadAt temp n total m i ++ linePayloads temp n total (i + 1) ms

/-- The payloads that are sent are those of the fragments. -/
theorem sent_loopOut (spp : SppServer) (temp : List UInt8) (n total i : ℕ) (ms : List ℕ) :
    (sent (loopOut spp temp n total i ms)).flatMap (List.drop 4) =
      linePayloads temp n total i ms := by
  induction ms generalizing i with
  | nil => rfl
  | cons m ms ih =>
    have hfrag : (sent (fragmentOut { spp with spp_mtu_size := m } temp n total i ++
        [.inr (.delay 20)])).flatMap (List.drop 4) = payloadAt temp n total m i :=
      List.append_nil _
    rw [loopOut, sent_append, List.flatMap_append, hfrag, ih]
    rfl

/-- The copies that are seen are those of the fragments. -/
theorem copies_loopOut (m₀ : ℕ) {ms : List ℕ} (hms : ∀ m ∈ ms, 23 ≤ m)
    (spp : SppServer) (temp : List UInt8) (n total i : ℕ) :
    (∀ dst src len : ℤ, .inr (.memcpy dst src len) ∈ loopOut spp temp n total i ms →
        0 ≤ len ∧ 0 ≤ src ∧ src + len ≤ n ∧ 0 ≤ dst ∧ dst + len ≤ m₀ - 3) ↔
      AllOk m₀ n total i ms := by
  induction ms generalizing i with
  | nil => simp [loopOut, AllOk]
  | cons m ms ih =>
    rw [List.forall_mem_cons] at hms
    have hoff := offset_eq hms.1 i
    rw [AllOk, ← ih hms.2]
    simp only [loopOut, fragmentOut, SppServer.indicate, List.mem_append, List.mem_cons,
      List.not_mem_nil, Sum.inr.injEq, LinkAct.memcpy.injEq, reduceCtorEq, or_false]
    constructor
    · intro h
      obtain ⟨h0, h1, h2, h3, h4⟩ := h 4 _ _ (.inl ⟨rfl, rfl, rfl⟩)
      exact ⟨⟨h0, h2, h4⟩, fun dst src len hmem => h dst src len (.inr hmem)⟩
    · rintro ⟨⟨h0, h2, h4⟩, hrest⟩ dst src len (⟨rfl, rfl, rfl⟩ | hmem)
      · exact ⟨h0, by omega, h2, by omega, h4⟩
      · exact hrest dst src len hmem

/-- Copies that stay inside the line and the buffer fit. -/
theorem AllOk.fits {m₀ n total : ℕ} (hm₀ : 23 ≤ m₀) (hn : n ≤ uplinkBufsize) {ms : List ℕ} :
    ∀ {i : ℕ}, AllOk m₀ n total i ms → AllFit (m₀ - 3) uplinkBufsize n total i ms := by
  induction ms with
  | nil => exact fun _ => trivial
  | cons m ms ih =>
    rintro i ⟨⟨h0, h1, h2⟩, hrest⟩
    exact ⟨⟨h0, by omega, by omega⟩, ih hrest⟩

/-- The MTU values are those that the stack may report. -/
theorem le_of_mem_mtusAt {m : ℕ} (hm : 23 ≤ m) {delays : List (List Mtu)} :
    ∀ m' ∈ mtusAt m delays, 23 ≤ m' := by
  induction delays generalizing m with
  | nil => simp [mtusAt]
  | cons events delays ih =>
    rw [mtusAt, List.forall_mem_cons]
    exact ⟨hm, ih (le_mtuAfter hm events)⟩

/-- There is a value for each fragment. -/
theorem length_mtusAt (m : ℕ) (delays : List (List Mtu)) :
    (mtusAt m delays).length = delays.length := by
  induction delays generalizing m with
  | nil => rfl
  | cons events delays ih => rw [mtusAt, List.length_cons, List.length_cons, ih]

/-- What the task does with a line delivers it if and only if the copies stay inside the line and the
buffer and the payloads make up the line. -/
theorem delivers_iff {line : Line} (hm : 23 ≤ spp.spp_mtu_size)
    (hcut : spp.spp_mtu_size - 3 < line.bytes.length) (hmalloc : ans.malloc ≠ none)
    (total_num current_num : ℕ) {delays : List (List Mtu)}
    (hdelays : delays.length = fragCount spp.spp_mtu_size line.bytes.length) :
    (∃ s' o, sppServer.run ⟨spp, .holding line total_num current_num⟩ (cutInputs ans delays) =
        some (s', o) ∧ Delivers spp.spp_mtu_size line.bytes o) ↔
      AllOk spp.spp_mtu_size line.bytes.length delays.length 0 (mtusAt spp.spp_mtu_size delays) ∧
        linePayloads (tempOf line.bytes) line.bytes.length delays.length 0
          (mtusAt spp.spp_mtu_size delays) = line.bytes := by
  obtain ⟨hsome, hnone⟩ := cut_run ans hm hcut hmalloc total_num current_num hdelays
  have hms := @le_of_mem_mtusAt _ hm delays
  have hcopies := copies_loopOut spp.spp_mtu_size hms spp (tempOf line.bytes)
    line.bytes.length delays.length 0
  have hsent := sent_loopOut spp (tempOf line.bytes) line.bytes.length delays.length 0
    (mtusAt spp.spp_mtu_size delays)
  constructor
  · rintro ⟨s', o, hrun, hdel⟩
    by_cases hfit : AllFit (spp.spp_mtu_size - 3) uplinkBufsize line.bytes.length delays.length 0
        (mtusAt spp.spp_mtu_size delays)
    · obtain ⟨s'', hrun'⟩ := hsome hfit
      cases hrun'.symm.trans hrun
      exact ⟨hcopies.mp hdel.copies, hsent.symm.trans hdel.payloads⟩
    · rw [hnone hfit] at hrun
      cases hrun
  · rintro ⟨hok, hpay⟩
    obtain ⟨s', hrun⟩ := hsome (hok.fits hm line.le)
    exact ⟨s', _, hrun, hcopies.mpr hok, hsent.trans hpay⟩

/-! ## The MTU at the fragments -/

/-- The array starts with the line. -/
theorem take_tempOf {line : List UInt8} (h : line.length ≤ uplinkBufsize) :
    (tempOf line).take line.length = line := by
  have htake := @take_splice _ (List.replicate uplinkBufsize 0) line 0 (by simpa using h)
  rwa [Nat.zero_add, List.take_zero, List.nil_append] at htake

/-- With the MTU of the allocation, a copy stays inside the line and the buffer. -/
theorem copyOk_self {m : ℕ} (hm : 23 ≤ m) (line : List UInt8) {i : ℕ}
    (hi : i < fragCount m line.length) :
    CopyOk m line.length (fragCount m line.length) m i := by
  obtain ⟨h0, hdst, hsrc⟩ := copyFits_line hm line hi
  exact ⟨h0, hsrc, by omega⟩

/-- With the MTU of the allocation at every fragment, all copies do, and the payloads are the
slices. -/
theorem allOk_self {m : ℕ} (hm : 23 ≤ m) {line : List UInt8} (hn : line.length ≤ uplinkBufsize)
    {ms : List ℕ} (hms : ∀ m' ∈ ms, m' = m) {i : ℕ}
    (hi : i + ms.length = fragCount m line.length) :
    AllOk m line.length (fragCount m line.length) i ms ∧
      linePayloads (tempOf line) line.length (fragCount m line.length) i ms =
        (List.range' i ms.length).flatMap (slice (m - 7) line) := by
  induction ms generalizing i with
  | nil => exact ⟨trivial, rfl⟩
  | cons m' ms ih =>
    rw [List.forall_mem_cons] at hms
    obtain ⟨rfl, hms⟩ := hms
    rw [List.length_cons] at hi ⊢
    obtain ⟨hok, hpay⟩ := ih hms (i := i + 1) (by omega)
    refine ⟨⟨copyOk_self hm line (by omega), hok⟩, ?_⟩
    rw [linePayloads, hpay, payloadAt_eq hm (take_tempOf hn) (by omega), List.range'_succ, List.flatMap_cons]

/-- A line of zeros, but for one byte. -/
def oneAt (n k : ℕ) : List UInt8 := (List.replicate n 0).set k 1

/-- After a slice that is cut with the MTU of the allocation, the rest of the line is left. -/
theorem payloads_tail {m : ℕ} (hm : 23 ≤ m) {line : List UInt8} (hn : line.length ≤ uplinkBufsize)
    {ms : List ℕ} {i : ℕ} (hi : i < fragCount m line.length)
    (h : linePayloads (tempOf line) line.length (fragCount m line.length) i (m :: ms) =
      line.drop (i * (m - 7))) :
    linePayloads (tempOf line) line.length (fragCount m line.length) (i + 1) ms =
      line.drop ((i + 1) * (m - 7)) := by
  have hsplit := List.take_append_drop (m - 7) (line.drop (i * (m - 7)))
  rw [linePayloads, payloadAt_eq hm (take_tempOf hn) hi, slice] at h
  rw [Nat.add_mul, Nat.one_mul, ← List.drop_drop]
  exact List.append_cancel_left (h.trans hsplit.symm)

/-- A full slice that is cut with a smaller MTU starts too early, and a line shows it. -/
theorem eq_of_payload {m m₀ n total i : ℕ} {ms : List ℕ} (hm : 23 ≤ m) (hle : m ≤ m₀)
    (hn : n ≤ uplinkBufsize) (hi : 1 ≤ i) (hlast : i + 1 < total) (hin : i * (m₀ - 7) < n)
    (hpay : ∀ line : List UInt8, line.length = n →
      linePayloads (tempOf line) n total i (m :: ms) = line.drop (i * (m₀ - 7))) :
    m = m₀ := by
  by_contra hne
  have hlt : i * (m - 7) < i * (m₀ - 7) := Nat.mul_lt_mul_of_pos_left (by omega) hi
  -- The byte at the start of the slice is the only one that is not zero.
  set line := oneAt n (i * (m₀ - 7)) with hline
  have hlen : line.length = n := by rw [hline, oneAt, List.length_set, List.length_replicate]
  have htake := take_tempOf (hlen.symm ▸ hn : line.length ≤ uplinkBufsize)
  have hcopy : copyLen n total m i = (m - 7 : ℕ) := by
    rw [copyLen, if_pos hlast]
    omega
  have hhead := congrArg (·[0]?) (hpay line hlen)
  have hpos : 0 < m - 7 := by omega
  have hleft : (linePayloads (tempOf line) n total i (m :: ms))[0]? = some 0 := by
    rw [linePayloads, payloadAt, hcopy, Int.toNat_natCast, List.getElem?_append_left]
    · rw [List.getElem?_take_of_lt hpos, List.getElem?_drop, Nat.add_zero,
        ← List.getElem?_take_of_lt (by omega : i * (m - 7) < line.length), htake, hline, oneAt,
        List.getElem?_set_ne (by omega), List.getElem?_replicate_of_lt (by omega)]
    · rw [List.length_take, List.length_drop, length_tempOf (by omega)]
      omega
  have hright : (line.drop (i * (m₀ - 7)))[0]? = some 1 := by
    rw [List.getElem?_drop, Nat.add_zero, hline, oneAt, List.getElem?_set_self (by simpa using hin)]
  rw [hleft, hright] at hhead
  cases hhead

/-- A last slice has what is left of the line only if it starts in the right place. -/
theorem eq_of_last {m m₀ n total i : ℕ} (hm : 23 ≤ m) (hm₀ : 23 ≤ m₀) (hn : n ≤ uplinkBufsize)
    (hi : 1 ≤ i) (hlast : ¬ i + 1 < total) (hle : i * (m - 7) ≤ n) (hin : i * (m₀ - 7) < n)
    (hpay : ∀ line : List UInt8, line.length = n →
      linePayloads (tempOf line) n total i [m] = line.drop (i * (m₀ - 7))) :
    m = m₀ := by
  have hzero := List.length_replicate (n := n) (a := (0 : UInt8))
  have hlen := congrArg List.length (hpay _ hzero)
  have hcopy : copyLen n total m i = (n - i * (m - 7) : ℕ) := by
    rw [copyLen, if_neg hlast, offset_eq hm, Nat.cast_sub hle]
  rw [linePayloads, linePayloads, List.append_nil, payloadAt, hcopy, Int.toNat_natCast,
    List.length_take, List.length_drop, List.length_drop, length_tempOf (by omega), hzero] at hlen
  have hoff : i * (m - 7) = i * (m₀ - 7) := by omega
  have := Nat.eq_of_mul_eq_mul_left (by omega) hoff
  omega

/-- If all copies stay inside, and the payloads make up every line of the length, then the MTU at
each fragment after the first is the one of the allocation. -/
theorem eq_of_allOk {m₀ n : ℕ} (hm₀ : 23 ≤ m₀) (hn : n ≤ uplinkBufsize) {ms : List ℕ}
    (hms : ∀ m ∈ ms, 23 ≤ m) {i : ℕ} (hi : 1 ≤ i) (htotal : i + ms.length = fragCount m₀ n)
    (hok : AllOk m₀ n (fragCount m₀ n) i ms)
    (hpay : ∀ line : List UInt8, line.length = n →
      linePayloads (tempOf line) n (fragCount m₀ n) i ms = line.drop (i * (m₀ - 7))) :
    ∀ m ∈ ms, m = m₀ := by
  induction ms generalizing i with
  | nil => simp
  | cons m ms ih =>
    rw [List.forall_mem_cons] at hms ⊢
    rw [List.length_cons] at htotal
    obtain ⟨⟨h0, h1, h2⟩, hrest⟩ := hok
    have hit : i < fragCount m₀ n := by omega
    have hin : i * (m₀ - 7) < n := mul_lt_of_lt_sliceCount (by omega) hit
    have heq : m = m₀ := by
      by_cases hlast : i + 1 < fragCount m₀ n
      · rw [copyLen, if_pos hlast] at h2
        exact eq_of_payload hms.1 (by omega) hn hi hlast hin hpay
      · obtain rfl : ms = [] := List.eq_nil_of_length_eq_zero (by omega)
        rw [copyLen, if_neg hlast, offset_eq hms.1] at h0
        exact eq_of_last hms.1 hm₀ hn hi hlast (by omega) hin hpay
    subst heq
    refine ⟨rfl, ih hms.2 (by omega) (by omega) hrest fun line hlen => ?_⟩
    subst hlen
    exact payloads_tail hm₀ hn hit (hpay line rfl)

/-- The same of all fragments: the first is cut with the MTU of the allocation. -/
theorem mtusAt_eq {m n : ℕ} (hm : 23 ≤ m) (hn : n ≤ uplinkBufsize) {delays : List (List Mtu)}
    (hdelays : delays.length = fragCount m n)
    (hok : AllOk m n (fragCount m n) 0 (mtusAt m delays))
    (hpay : ∀ line : List UInt8, line.length = n →
      linePayloads (tempOf line) n (fragCount m n) 0 (mtusAt m delays) = line) :
    ∀ m' ∈ mtusAt m delays, m' = m := by
  cases delays with
  | nil => simp [mtusAt]
  | cons events delays =>
    have hms := @le_of_mem_mtusAt _ (le_mtuAfter hm events) delays
    have hlen := length_mtusAt (mtuAfter m events) delays
    rw [List.length_cons] at hdelays
    rw [mtusAt] at hok hpay ⊢
    rw [List.forall_mem_cons]
    refine ⟨rfl, eq_of_allOk hm hn hms le_rfl (by omega) hok.2 fun line hline => ?_⟩
    subst hline
    exact payloads_tail hm hn (by omega) (by simpa using hpay line rfl)

/-- Past the gate, the task has the line of the read callback. -/
theorem read_run {s : SppServer} (hreads : s.Reads) (ans : LinkAns) {t : LinkTask}
    (ht : t.pc = .gate) :
    sppServer.run ⟨s, t⟩ (List.replicate 3 (.link ans)) =
      some (⟨s, .holding ans.line t.total_num t.current_num⟩, []) := by
  obtain ⟨hconn, hntf, hcb⟩ := hreads
  simp [List.replicate, Machine.run_cons, sppServer, linkStep, ht, hconn, hntf, hcb,
    LinkTask.holding, tempOf]

/-- A pass of the task delivers every line of a length if and only if the MTU at each fragment is the
one of the allocation. -/
theorem fragments_iff_mtu (s : SppServer) (contents : ℕ → UInt8) (t : LinkTask) (n : ℕ)
    (delays : List (List Mtu)) (hreads : s.Reads) (hm : 23 ≤ s.spp_mtu_size)
    (hn : n ≤ uplinkBufsize) (hcut : s.spp_mtu_size - 3 < n) (ht : t.pc = .gate)
    (hdelays : delays.length = fragCount s.spp_mtu_size n) :
    (∀ line : Line, line.bytes.length = n → ∃ s' o,
      sppServer.run ⟨s, t⟩ (passInputs ⟨line, some contents⟩ delays) = some (s', o) ∧
        Delivers s.spp_mtu_size line.bytes o) ↔
      ∀ m ∈ mtusAt s.spp_mtu_size delays, m = s.spp_mtu_size := by
  have hpass : ∀ line : Line, line.bytes.length = n → ((∃ s' o,
      sppServer.run ⟨s, t⟩ (passInputs ⟨line, some contents⟩ delays) = some (s', o) ∧
        Delivers s.spp_mtu_size line.bytes o) ↔
      AllOk s.spp_mtu_size n (fragCount s.spp_mtu_size n) 0 (mtusAt s.spp_mtu_size delays) ∧
        linePayloads (tempOf line.bytes) n (fragCount s.spp_mtu_size n) 0
          (mtusAt s.spp_mtu_size delays) = line.bytes) := by
    rintro line rfl
    have hrun := read_run hreads ⟨line, some contents⟩ ht
    have hiff := delivers_iff ⟨line, some contents⟩ hm hcut (Option.some_ne_none _)
      t.total_num t.current_num hdelays
    rw [hdelays] at hiff
    rw [← hiff, passInputs, Machine.run_append, hrun, Option.bind_some]
    simp
  have hms := @le_of_mem_mtusAt _ hm delays
  have hlen := length_mtusAt s.spp_mtu_size delays
  constructor
  · intro h
    have hok := ((hpass ⟨List.replicate n 0, by simpa using hn⟩ (by simp)).mp (h _ (by simp))).1
    have hpay : ∀ line : List UInt8, line.length = n → linePayloads (tempOf line) n
        (fragCount s.spp_mtu_size n) 0 (mtusAt s.spp_mtu_size delays) = line :=
      fun line hline => ((hpass ⟨line, hline.symm ▸ hn⟩ hline).mp (h _ hline)).2
    exact mtusAt_eq hm hn hdelays hok hpay
  · intro h line hline
    rw [hpass line hline]
    subst hline
    obtain ⟨hok, hpay⟩ := allOk_self hm hn h (i := 0) (by omega)
    refine ⟨hok, hpay.trans ?_⟩
    rw [← List.range_eq_range']
    exact flatMap_slice (by rw [hlen, hdelays]; exact le_sliceCount_mul (by omega) _)

/-- In the delay after the first of two fragments the MTU changes and comes back, and after the second
it changes again: a line of 21 bytes is delivered. -/
theorem fragments_iff_mtu_two :
    ∃ s' o, sppServer.run ⟨.listening, .init⟩
        (passInputs ⟨lineOf21, some fun _ => 0⟩
          [[⟨185, by decide, by decide⟩, ⟨23, by decide, by decide⟩], [⟨185, by decide, by decide⟩]]) =
            some (s', o) ∧
      Delivers 23 lineOf21.bytes o :=
  (fragments_iff_mtu .listening (fun _ => 0) .init 21
    [[⟨185, by decide, by decide⟩, ⟨23, by decide, by decide⟩], [⟨185, by decide, by decide⟩]]
    ⟨rfl, rfl, rfl⟩ (by decide) (by decide) (by decide) rfl (by decide)).mpr (by decide) lineOf21 rfl

/-- An MTU of 185 arrives in the delay after the first of the three fragments of a line of 40 bytes:
the copy for the second overflows the buffer, which has 20 bytes. -/
theorem fragment_overflows :
    ¬ ∃ s' o, sppServer.run ⟨.listening, .init⟩
        (passInputs ⟨⟨List.replicate 40 65, by decide⟩, some fun _ => 0⟩
          [[⟨185, by decide, by decide⟩], [], []]) = some (s', o) ∧
      Delivers 23 (List.replicate 40 65) o := by
  have hnone : (sppServer.run ⟨.listening, .init⟩
      (passInputs ⟨⟨List.replicate 40 65, by decide⟩, some fun _ => 0⟩
        [[⟨185, by decide, by decide⟩], [], []])).isSome = false := by
    decide +kernel
  rintro ⟨s', o, hrun, -⟩
  rw [hrun] at hnone
  cases hnone

end PartLib.Ble
