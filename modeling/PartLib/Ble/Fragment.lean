import PartLib.Ble.LinkTask
import Mathlib.Tactic.Ring

/-!
# One fragment of a line

`link_task` fills a fragment of a long line into its buffer and sends it. What it copies follows from
the MTU of the moment, and the number and the index of the fragment; the buffer has the size that it
was allocated with. The copy has a result if and only if it stays inside the line's array and the
buffer (`linkStep_fill`), and then the fragment is sent (`linkStep_sendFrag`).
-/

namespace PartLib.Ble

/-- A notification with the handles and the connection of the state. -/
def SppServer.indicate (s : SppServer) (value : List UInt8) : LinkAct :=
  .sendIndicate s.spp_gatts_if s.spp_conn_id (s.spp_handle_table .dataNtyVal) value

/-- The number of bytes that the task copies for the fragment at `i` of `total`, of a line of `n`
bytes, with the MTU `m`. -/
def copyLen (n total m i : ℕ) : ℤ := if i + 1 < total then m - 7 else n - i * (m - 7)

/-- The copy stays inside an array of `room` bytes and inside a buffer of `size` bytes. -/
def CopyFits (size room n total m i : ℕ) : Prop :=
  0 ≤ copyLen n total m i ∧ 4 + copyLen n total m i ≤ size ∧
    i * ((m : ℤ) - 7) + copyLen n total m i ≤ room

/-- The bytes that are copied. -/
def payloadAt (temp : List UInt8) (n total m i : ℕ) : List UInt8 :=
  (temp.drop (i * (m - 7))).take (copyLen n total m i).toNat

/-- The header of the fragment and the bytes that are copied. -/
def fragmentValue (temp : List UInt8) (n total m i : ℕ) : List UInt8 :=
  [hash, hash, UInt8.ofNat total, UInt8.ofNat (i + 1)] ++ payloadAt temp n total m i

/-- The task is at a statement of the loop, at the fragment `i` of `total` of a line of `n` bytes that
is in `temp`, with a buffer of `size` bytes. -/
structure AtFragment (pc : LinkPc) (size : ℕ) (temp : List UInt8) (n total i : ℕ) (t : LinkTask) :
    Prop where
  pc : t.pc = pc
  temp : t.temp = temp
  linesize : t.linesize = n
  total_num : t.total_num = total
  current_num : t.current_num = i + 1
  buff : ∃ buff, t.ntf_value_p = some buff ∧ buff.length = size

variable {s : SppServer} {size n total i : ℕ} {temp : List UInt8} {t : LinkTask}

/-- The length of the copy is the one that the task computes. -/
theorem AtFragment.fragLen_eq (s : SppServer) {pc : LinkPc}
    (ht : AtFragment pc size temp n total i t) : fragLen s t = copyLen n total s.spp_mtu_size i := by
  rw [fragLen, copyLen, ht.total_num, ht.current_num, ht.linesize]
  push_cast
  rw [add_sub_cancel_right]

/-- The offset of a copy. -/
theorem offset_eq {m : ℕ} (hm : 23 ≤ m) (i : ℕ) :
    (i : ℤ) * ((m : ℤ) - 7) = (i * (m - 7) : ℕ) := by
  rw [Nat.cast_mul, Nat.cast_sub (by omega)]
  rfl

/-- A fragment, filled in over the buffer: the header, then the payload. -/
theorem take_fill {buff header payload : List UInt8}
    (h : header.length + payload.length ≤ buff.length) :
    (splice (splice buff 0 header) header.length payload).take
      (header.length + payload.length) = header ++ payload := by
  have h₁ : (splice buff 0 header).length = buff.length := length_splice (by omega)
  rw [take_splice (by omega)]
  have h₂ := @take_splice _ buff header 0 (by omega)
  rw [Nat.zero_add, List.take_zero, List.nil_append] at h₂
  rw [h₂]

/-- A copy that fits has as many bytes as it says. -/
theorem CopyFits.length_payloadAt {m : ℕ} (hm : 23 ≤ m)
    (hfits : CopyFits size temp.length n total m i) :
    (payloadAt temp n total m i).length = (copyLen n total m i).toNat := by
  obtain ⟨h0, -, hsrc⟩ := hfits
  have hoff := offset_eq hm i
  rw [payloadAt, List.length_take, List.length_drop]
  omega

/-- The test of the loop, while there are fragments. -/
theorem linkStep_loop (s : SppServer) (ans : LinkAns) (hi : i < total)
    (ht : AtFragment .loop size temp n total i t) :
    ∃ t', linkStep s ans t = some (t', []) ∧ AtFragment .fill size temp n total i t' := by
  refine ⟨{ t with pc := .fill }, ?_,
    ⟨rfl, ht.temp, ht.linesize, ht.total_num, ht.current_num, ht.buff⟩⟩
  simp only [linkStep, ht.pc, ht.current_num, ht.total_num]
  rw [if_pos (by omega)]

/-- The copy of the payload, behind the header. It has a result if it fits. -/
theorem linkStep_fill (ans : LinkAns) (hm : 23 ≤ s.spp_mtu_size) (hsize : 4 ≤ size)
    (ht : AtFragment .fill size temp n total i t) :
    (CopyFits size temp.length n total s.spp_mtu_size i → ∃ t', linkStep s ans t = some (t',
        [.memcpy 4 (i * ((s.spp_mtu_size : ℤ) - 7)) (copyLen n total s.spp_mtu_size i)]) ∧
      AtFragment .sendFrag size temp n total i t' ∧ ∀ buff ∈ t'.ntf_value_p,
        buff.take (4 + (copyLen n total s.spp_mtu_size i).toNat) =
          fragmentValue temp n total s.spp_mtu_size i) ∧
    (¬ CopyFits size temp.length n total s.spp_mtu_size i → linkStep s ans t = none) := by
  obtain ⟨buff, hbuff, hblen⟩ := ht.buff
  set header := [hash, hash, UInt8.ofNat total, UInt8.ofNat (i + 1)] with hh
  set len := copyLen n total s.spp_mtu_size i with hlen
  have hheader : (splice buff 0 header).length = size := by
    rw [length_splice (by simp [hh]; omega), hblen]
  have hcopy : memcpy buff 0 header 0 4 = some (splice buff 0 header) := by
    rw [show (4 : ℤ) = (4 : ℕ) by rfl, show (0 : ℤ) = (0 : ℕ) by rfl,
      memcpy_natCast (by omega) (by simp [hh])]
    simp [hh]
  have hsrc : ((t.current_num : ℤ) - 1) * ((s.spp_mtu_size : ℤ) - 7) =
      i * ((s.spp_mtu_size : ℤ) - 7) := by
    rw [ht.current_num]
    push_cast
    ring
  -- What the second copy is, whether or not it has a result.
  have hstep : linkStep s ans t =
      (memcpy (splice buff 0 header) 4 temp (i * ((s.spp_mtu_size : ℤ) - 7)) len).map
        fun buff => ({ t with ntf_value_p := some buff, pc := .sendFrag },
          [.memcpy 4 (i * ((s.spp_mtu_size : ℤ) - 7)) len]) := by
    simp only [linkStep, ht.pc, hbuff, Option.bind_some, ht.total_num, ht.current_num, ← hh, hcopy,
      ht.temp]
    rw [← ht.current_num, hsrc, ht.fragLen_eq]
  have hoff := offset_eq hm i
  rw [hstep, memcpy, hheader]
  constructor
  · intro hfits
    have hplen := hfits.length_payloadAt hm
    obtain ⟨h0, hdst, hsrc'⟩ := hfits
    rw [if_pos ⟨by omega, by omega, h0, by omega, by omega⟩]
    have hpay : (temp.drop ((i : ℤ) * ((s.spp_mtu_size : ℤ) - 7)).toNat).take len.toNat =
        payloadAt temp n total s.spp_mtu_size i := by
      rw [hoff, Int.toNat_natCast, payloadAt]
    rw [hpay, Option.map_some]
    refine ⟨_, rfl, ⟨rfl, ht.temp, ht.linesize, ht.total_num, ht.current_num, _, rfl, ?_⟩, ?_⟩
    · rw [length_splice (by rw [hheader, hplen]; omega), hheader]
    · intro b hb
      obtain rfl := Option.some.inj hb
      have hfit : header.length + (payloadAt temp n total s.spp_mtu_size i).length ≤ buff.length := by
        rw [hplen, hblen, hh]
        simp only [List.length_cons, List.length_nil]
        omega
      rw [← hplen]
      exact take_fill hfit
  · intro hnot
    rw [if_neg fun h => hnot ⟨h.2.2.1, h.2.2.2.1, h.2.2.2.2⟩]
    rfl

/-- The send of a fragment that is filled in. -/
theorem linkStep_sendFrag (ans : LinkAns) (ht : AtFragment .sendFrag size temp n total i t)
    (hfits : CopyFits size temp.length n total s.spp_mtu_size i)
    (hbuff : ∀ buff ∈ t.ntf_value_p, buff.take (4 + (copyLen n total s.spp_mtu_size i).toNat) =
      fragmentValue temp n total s.spp_mtu_size i) :
    ∃ t', linkStep s ans t = some (t',
        [s.indicate (fragmentValue temp n total s.spp_mtu_size i)]) ∧
      AtFragment .delay size temp n total i t' := by
  obtain ⟨buff, hsome, hlen⟩ := ht.buff
  obtain ⟨h0, hdst, -⟩ := hfits
  have hval := hbuff buff hsome
  -- A full fragment has the size of the MTU, and the last one that of what it holds.
  have hsize : (if t.current_num < t.total_num then (s.spp_mtu_size : ℤ) - 3
      else fragLen s t + 4) = (4 + (copyLen n total s.spp_mtu_size i).toNat : ℕ) := by
    rw [ht.fragLen_eq s, ht.current_num, ht.total_num]
    rw [copyLen] at h0 ⊢
    split_ifs at h0 ⊢ <;> omega
  refine ⟨{ t with pc := .delay }, ?_,
    ⟨rfl, ht.temp, ht.linesize, ht.total_num, ht.current_num, ht.buff⟩⟩
  simp only [linkStep, ht.pc, hsome, Option.bind_some]
  rw [hsize, sendIndicate, if_pos (by omega), Int.toNat_natCast, hval]
  rfl

/-- The delay after a fragment. -/
theorem linkStep_delay (s : SppServer) (ans : LinkAns) (hwrap : i + 2 < 2 ^ 8)
    (ht : AtFragment .delay size temp n total i t) :
    ∃ t', linkStep s ans t = some (t', [.delay 20]) ∧
      AtFragment .loop size temp n total (i + 1) t' := by
  refine ⟨{ t with current_num := i + 2, pc := .loop }, ?_,
    ⟨rfl, ht.temp, ht.linesize, ht.total_num, rfl, ht.buff⟩⟩
  simp only [linkStep, ht.pc, ht.current_num]
  rw [Nat.mod_eq_of_lt hwrap]

end PartLib.Ble
