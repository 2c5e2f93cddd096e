import PartLib.Ble.Uplink
import PartLib.Ble.Server

/-!
# Notifications and the MTU of their connection

Every connection starts with an ATT MTU of 23, which the client may negotiate: `connMtu` is the MTU
of the current connection. `spp_mtu_size` is the value of the last MTU event, of whichever
connection, since neither a connect nor a disconnect resets it (`handler_spp_mtu_size`).

A notification is longer than its connection allows exactly when a connection whose MTU is below
`spp_mtu_size` is sent a line that it cannot take in one notification
(`notification_le_connMtu_iff`).
-/

namespace PartLib.Ble

/-! ## The MTU of the current connection -/

/-- The MTU after an input, when it was `m` before: a new connection starts with 23. -/
def ServerInput.connMtuAfter (m : ℕ) : ServerInput → ℕ
  | .gatt (.connect _ _) => 23
  | .gatt (.mtu new) => new.val
  | _ => m

/-- The MTU of the connection that a history leads to: the value of the last MTU event since the
last connect, or 23 if there was none. -/
def connMtu (h : List ServerInput) : ℕ := h.foldl ServerInput.connMtuAfter 23

/-- The MTU goes from input to input. -/
theorem connMtu_snoc (h : List ServerInput) (i : ServerInput) :
    connMtu (h ++ [i]) = i.connMtuAfter (connMtu h) := by
  rw [connMtu, List.foldl_append]
  rfl

/-- No connection has an MTU below 23. -/
theorem le_connMtu (h : List ServerInput) : 23 ≤ connMtu h := by
  induction h using List.reverseRecOn with
  | nil => exact le_rfl
  | append_singleton h i ih =>
    rw [connMtu_snoc]
    cases i with
    | link ans => exact ih
    | gatt e =>
      cases e with
      | mtu new => exact new.ge
      | connect gatts_if conn_id => exact le_rfl
      | _ => exact ih

/-! ## Passes of the task -/

/-- Before every input `spp_mtu_size` is at least 23, and the task is at the gate or has ended. -/
structure PassInv (s : Server) : Prop where
  mtu : 23 ≤ s.spp.spp_mtu_size
  pc : s.link.pc = .gate ∨ s.link.pc = .dead

/-- A task that has ended does nothing. -/
theorem linkIteration_dead {spp : SppServer} (ans : LinkAns) {t : LinkTask} (ht : t.pc = .dead) :
    linkIteration spp ans t = some (t, []) :=
  linkRun_last (by rw [linkStep, ht]) (.inr ht) _

/-- What a pass of the task does to the server. -/
theorem passInv_link {s : Server} (hs : PassInv s) (ans : LinkAns) :
    ∃ t, sppServerPasses.step s (.link ans) =
        some ({ s with link := t },
          if s.link.pc = .gate then (passActs s.spp ans).map .inr else []) ∧
      (t.pc = .gate ∨ t.pc = .dead) := by
  rcases hs.pc with hgate | hdead
  · obtain ⟨t, hiter, hpc, -⟩ := linkIteration_spec ans hs.mtu hgate
    refine ⟨t, ?_, ?_⟩
    · simp only [sppServerPasses, hiter, Option.map_some, hgate, if_true]
    · rw [hpc]
      split_ifs
      · exact .inr rfl
      · exact .inl rfl
  · refine ⟨s.link, ?_, .inr hdead⟩
    simp only [sppServerPasses, linkIteration_dead ans hdead, Option.map_some, hdead, reduceCtorEq,
      if_false, List.map_nil]

/-- Inputs keep the invariant. -/
theorem passInv_step {s s' : Server} {i : ServerInput} {o : List ServerOut} (hs : PassInv s)
    (hstep : sppServerPasses.step s i = some (s', o)) : PassInv s' := by
  cases i with
  | link ans =>
    obtain ⟨t, hlink, hpc⟩ := passInv_link hs ans
    rw [hlink] at hstep
    cases hstep
    exact ⟨hs.mtu, hpc⟩
  | gatt e =>
    obtain ⟨⟨spp, calls⟩, hev, he⟩ := Option.map_eq_some_iff.mp hstep
    simp only [Prod.mk.injEq] at he
    obtain ⟨rfl, rfl⟩ := he
    refine ⟨?_, hs.pc⟩
    rw [handler_spp_mtu_size hev]
    cases e with
    | mtu new => exact new.ge
    | _ => exact hs.mtu

/-! ## What a pass may send -/

/-- All frames of a line are at most `c - 3` bytes long if and only if the line itself is, or the
MTU by which it is cut is at most `c`. -/
theorem frames_le_iff {m c : ℕ} {line : List UInt8} (hm : 23 ≤ m) (hc : 23 ≤ c) :
    (∀ v ∈ frames m line, v.length ≤ c - 3) ↔ line.length ≤ c - 3 ∨ m ≤ c := by
  unfold frames
  split_ifs with hfit
  · simp only [List.mem_singleton, forall_eq]
    omega
  · constructor
    · intro hall
      -- The first fragment is full, so it is as long as the MTU allows.
      have htwo := two_le_fragCount hm (Nat.lt_of_not_le hfit)
      have hfirst := hall (fragment m line 0)
        (List.mem_map_of_mem (List.mem_range.mpr (by omega)))
      rw [fragment, List.length_append, length_slice] at hfirst
      simp only [List.length_cons, List.length_nil] at hfirst
      omega
    · intro hor v hv
      obtain ⟨i, -, rfl⟩ := List.mem_map.mp hv
      have := length_fragment_le hm line i
      omega

/-- A pass that starts in this state is safe for a connection with the MTU `c`: it reads no line, or
one that fits into a notification of the connection, or `spp_mtu_size` is at most `c`, or there is
no block for the fragments of the line. -/
def PassFits (c : ℕ) (s : Server) (ans : LinkAns) : Prop :=
  s.link.pc = .gate → s.spp.Reads → ans.line.bytes ≠ [] →
    ans.line.bytes.length ≤ c - 3 ∨ s.spp.spp_mtu_size ≤ c ∨ Kills s.spp ans

/-- A pass sends nothing too long for a connection exactly when it is safe for it. -/
theorem passActs_le_iff {s : Server} {ans : LinkAns} (hm : 23 ≤ s.spp.spp_mtu_size) {c : ℕ}
    (hc : 23 ≤ c) (hgate : s.link.pc = .gate) :
    (∀ v ∈ notifications (passActs s.spp ans), v.length ≤ c - 3) ↔ PassFits c s ans := by
  by_cases hreads : s.spp.Reads
  · by_cases hnil : ans.line.bytes = []
    · rw [passActs_nil hreads hnil]
      simp [PassFits, hnil, notifications]
    · by_cases hkills : Kills s.spp ans
      · rw [passActs_kills hkills]
        simp [PassFits, hkills, notifications]
      · -- What is sent is the frames of the line, cut by `spp_mtu_size`.
        have hframes : notifications (passActs s.spp ans) =
            frames s.spp.spp_mtu_size ans.line.bytes := by
          by_cases hmalloc : ans.malloc = none
          · have hfit : ans.line.bytes.length ≤ s.spp.spp_mtu_size - 3 :=
              Nat.le_of_not_lt fun hlt => hkills ⟨hreads, hlt, hmalloc⟩
            rw [passActs_whole hreads hnil hfit, frames, if_pos hfit]
            rfl
          · exact notifications_passActs hreads hnil fun _ => hmalloc
        rw [hframes, frames_le_iff hm hc]
        simp [PassFits, hgate, hreads, hnil, hkills]
  · simp [notifications_of_not_reads ans hreads, PassFits, hreads]

/-- Over every run, each notification is at most `m - 3` bytes long, where `m` is the MTU of the
connection that it is sent on, if and only if every pass that reads a line either reads one of at
most `m - 3` bytes, or starts with `spp_mtu_size` at most `m`, or has to cut the line and gets no
block for its fragments. -/
theorem notification_le_connMtu_iff (run : List ServerInput) :
    (sppServerPasses.AllSteps run fun h _ _ _ o => ∀ v ∈ sent o, v.length ≤ connMtu h - 3) ↔
      sppServerPasses.AllSteps run fun h s i _ _ => ∀ ans, i = .link ans →
        PassFits (connMtu h) s ans := by
  refine Machine.allSteps_congr (fun _ s => PassInv s) ⟨le_rfl, .inl rfl⟩
    (fun _ _ _ _ _ hs hstep => passInv_step hs hstep) fun h s i s' o hs hstep => ?_
  have hc := le_connMtu h
  cases i with
  | gatt e =>
    obtain ⟨⟨spp, calls⟩, -, he⟩ := Option.map_eq_some_iff.mp hstep
    simp only [Prod.mk.injEq] at he
    obtain ⟨-, rfl⟩ := he
    simp [sent_map_inl]
  | link ans =>
    obtain ⟨t, hlink, -⟩ := passInv_link hs ans
    rw [hlink] at hstep
    cases hstep
    simp only [ServerInput.link.injEq, forall_eq']
    split_ifs with hgate
    · rw [sent_map_inr, passActs_le_iff hs.mtu hc hgate]
    · simp [sent, notifications, PassFits, hgate]

/-- A client negotiates an MTU of 100 and disconnects. The next one keeps the default, turns the
notifications on, and is sent 21 bytes in one of them, which may have 20. -/
theorem notification_longer_than_connMtu :
    ∃ run, ¬ sppServerPasses.AllSteps run fun h _ _ _ o => ∀ v ∈ sent o, v.length ≤ connMtu h - 3 :=
  ⟨[.gatt (.creatAttrTab true sppIdxNb (HandleTable.consecutive 40).handles),
    .gatt (.connect 3 0), .gatt (.mtu ⟨100, by decide, by decide⟩), .gatt .disconnect,
    .gatt (.connect 3 0), .gatt (.write ⟨45, false, [1, 0]⟩ ⟨none, none, none⟩),
    .link ⟨⟨List.replicate 21 65, by decide⟩, none⟩], by decide +kernel⟩

end PartLib.Ble
