import PartLib.Ble.Server

/-!
# Sending on the connection of the line

`link_task` tests `is_connected` and `enable_data_ntf` once in a pass, before it reads a line, and
uses the connection id of the moment at each notification. An observer notes the connection id of
the moment at which the read callback returned the line: `SentOn` is that a notification goes out
with both flags set and with that id.

It holds of every notification in a run in which no line is read while a flag is down, and while
there is more of a line to send, every event keeps the link (`sentOn_of_linkKept`).
-/

namespace PartLib.Ble

/-- The observer's note: the connection id when the read callback last returned. -/
def lineConnAfter (conn : ℕ) (s : Server) : ServerInput → ℕ
  | .link _ => if s.link.pc = .read then s.spp.spp_conn_id else conn
  | .gatt _ => conn

/-- The server, with the connection id of the last read noted. -/
def observedServer : Machine (Server × ℕ) ServerInput ServerOut :=
  sppServer.observe SppServer.init.spp_conn_id lineConnAfter

/-- If the call is a notification, both flags are set, and it goes to the connection `conn`. -/
def SentOn (spp : SppServer) (conn : ℕ) : ServerOut → Prop
  | .inr (.sendIndicate _ conn_id _ _) =>
    spp.is_connected = true ∧ spp.enable_data_ntf = true ∧ conn_id = conn
  | _ => True

instance (spp : SppServer) (conn : ℕ) : DecidablePred (SentOn spp conn)
  | .inr (.sendIndicate _ _ _ _) => inferInstanceAs (Decidable (_ ∧ _ ∧ _))
  | .inr (.memcpy _ _ _) => .isTrue trivial
  | .inr (.delay _) => .isTrue trivial
  | .inl _ => .isTrue trivial

/-! ## Events that keep the link -/

/-- There is more of a line to send. -/
def Sending (t : LinkTask) : Prop :=
  match t.pc with
  | .size => 0 < t.linesize ∧ t.linesize ≤ uplinkBufsize
  | .sendWhole | .total | .malloc | .fill | .sendFrag => True
  | .loop => t.current_num ≤ t.total_num
  | .delay => (t.current_num + 1) % 2 ^ 8 ≤ t.total_num
  | _ => False

instance : DecidablePred Sending
  | ⟨.size, _, _, _, _, _⟩ => inferInstanceAs (Decidable (_ ∧ _))
  | ⟨.loop, _, _, total_num, current_num, _⟩ =>
    inferInstanceAs (Decidable (current_num ≤ total_num))
  | ⟨.delay, _, _, total_num, current_num, _⟩ =>
    inferInstanceAs (Decidable ((current_num + 1) % 2 ^ 8 ≤ total_num))
  | ⟨.sendWhole, _, _, _, _, _⟩ | ⟨.total, _, _, _, _, _⟩ | ⟨.malloc, _, _, _, _, _⟩
  | ⟨.fill, _, _, _, _, _⟩ | ⟨.sendFrag, _, _, _, _, _⟩ => .isTrue trivial
  | ⟨.gate, _, _, _, _, _⟩ | ⟨.gateNtf, _, _, _, _, _⟩ | ⟨.read, _, _, _, _, _⟩
  | ⟨.free, _, _, _, _, _⟩ | ⟨.idle, _, _, _, _, _⟩ | ⟨.dead, _, _, _, _, _⟩ => .isFalse id

/-- The event is no disconnect, no connect with another connection id, and no write that turns the
notifications off. -/
def KeepsLink (spp : SppServer) : GattsEvent → Prop
  | .connect _ conn_id => conn_id = spp.spp_conn_id
  | .disconnect => False
  | .write p _ => IsNotifyCfg spp p → p.value ≠ [0x00, 0x00]
  | _ => True

instance (spp : SppServer) (p : WriteParam) : Decidable (IsNotifyCfg spp p) :=
  inferInstanceAs (Decidable (_ ∧ _))

instance (spp : SppServer) : DecidablePred (KeepsLink spp)
  | .connect _ conn_id => inferInstanceAs (Decidable (conn_id = spp.spp_conn_id))
  | .disconnect => .isFalse id
  | .write p _ => inferInstanceAs (Decidable (IsNotifyCfg spp p → p.value ≠ [0x00, 0x00]))
  | .reg _ | .read _ | .execWrite _ | .mtu _ | .creatAttrTab _ _ _ | .other => .isTrue trivial

/-- An event that arrives while there is more of a line to send keeps the link, and the read
callback returns a line only with both flags set. -/
def LinkKept (s : Server) : ServerInput → Prop
  | .gatt e => Sending s.link → KeepsLink s.spp e
  | .link ans => s.link.pc = .read → ans.line.bytes ≠ [] →
      s.spp.is_connected = true ∧ s.spp.enable_data_ntf = true

instance (s : Server) : DecidablePred (LinkKept s)
  | .gatt _ => inferInstanceAs (Decidable (_ → _))
  | .link _ => inferInstanceAs (Decidable (_ → _ → _))

/-- After an event that keeps the link, the flags that were set are set, and the connection id is
the same. -/
theorem handler_keepsLink {s s' : SppServer} {e : GattsEvent} {calls : List SppCall}
    (h : gattsProfileEventHandler s e = some (s', calls)) (hk : KeepsLink s e) :
    (s.is_connected = true → s'.is_connected = true) ∧
      (s.enable_data_ntf = true → s'.enable_data_ntf = true) ∧ s'.spp_conn_id = s.spp_conn_id := by
  cases e with
  | write p offers =>
    rcases writeEvt_cases h with ⟨hcfg, rfl⟩ | ⟨-, _, _, _, rfl⟩
    · have hvalue := hk hcfg
      unfold notifyCfgWrite
      split_ifs <;> simp_all
    · exact ⟨id, id, rfl⟩
  | execWrite flag =>
    obtain ⟨_, rfl⟩ := execWriteEvt_cases h
    exact ⟨id, id, rfl⟩
  | creatAttrTab ok num handles =>
    simp only [gattsProfileEventHandler] at h
    split_ifs at h <;> cases h <;> exact ⟨id, id, rfl⟩
  | disconnect => exact hk.elim
  | connect gatts_if conn_id =>
    cases h
    exact ⟨fun _ => rfl, id, hk⟩
  | _ =>
    cases h
    exact ⟨id, id, rfl⟩

/-! ## The invariant -/

/-- While there is more of a line to send, both flags are set, and the connection is the one that
the line was read on. Before the test of the second flag no line is read yet. -/
structure LinkGateInv (s : Server × ℕ) : Prop where
  sending : Sending s.1.link → s.1.spp.is_connected = true ∧ s.1.spp.enable_data_ntf = true ∧
    s.1.spp.spp_conn_id = s.2
  linesize : s.1.link.pc = .gateNtf → s.1.link.linesize = 0

/-- What a statement does, as far as the link is concerned: it comes to a place where there is more
of a line to send only from such a place or by reading a line, and it sends only from such a place,
to the connection of the moment. -/
structure LinkMove (spp : SppServer) (ans : LinkAns) (t t' : LinkTask) (acts : List LinkAct) :
    Prop where
  sending : Sending t' → Sending t ∨ t.pc = .read ∧ ans.line.bytes ≠ []
  linesize : t'.pc = .gateNtf → t'.linesize = 0
  sends : ∀ gatts_if conn_id attr_handle value,
    .sendIndicate gatts_if conn_id attr_handle value ∈ acts →
      Sending t ∧ conn_id = spp.spp_conn_id

/-- `esp_ble_gatts_send_indicate` takes the connection id of the moment. -/
theorem sendIndicate_conn {spp : SppServer} {buff : List UInt8} {len : ℤ} {a : LinkAct}
    (h : sendIndicate spp buff len = some a) {gatts_if conn_id attr_handle : ℕ}
    {value : List UInt8} (ha : .sendIndicate gatts_if conn_id attr_handle value ∈ [a]) :
    conn_id = spp.spp_conn_id := by
  unfold sendIndicate at h
  split_ifs at h
  cases h
  simp only [List.mem_singleton, LinkAct.sendIndicate.injEq] at ha
  exact ha.2.1

/-- The statements of the task are such moves. -/
theorem linkStep_move {spp : SppServer} {ans : LinkAns} {t t' : LinkTask} {acts : List LinkAct}
    (hline : t.pc = .gateNtf → t.linesize = 0) (h : linkStep spp ans t = some (t', acts)) :
    LinkMove spp ans t t' acts := by
  obtain ⟨pc, temp, linesize, total_num, current_num, ntf_value_p⟩ := t
  cases pc with
  | gate =>
    cases h
    refine ⟨fun hs => ?_, fun _ => rfl, by simp⟩
    by_cases hconn : spp.is_connected = true <;> simp [Sending, hconn] at hs
  | gateNtf =>
    -- Without a read callback no line is read, and there is nothing to send.
    have hzero : linesize = 0 := hline rfl
    simp only [linkStep] at h
    split_ifs at h <;> cases h <;> exact ⟨by simp [Sending, hzero], by simp, by simp⟩
  | read =>
    cases h
    refine ⟨fun hs => .inr ⟨rfl, ?_⟩, by simp, by simp⟩
    rintro hnil
    simp [Sending, hnil] at hs
  | size =>
    simp only [linkStep] at h
    split_ifs at h with hsize hfit <;> cases h
    · exact ⟨fun _ => .inl hsize, by simp, by simp⟩
    · exact ⟨fun _ => .inl hsize, by simp, by simp⟩
    · exact ⟨by simp [Sending], by simp, by simp⟩
  | sendWhole =>
    obtain ⟨a, ha, he⟩ := Option.map_eq_some_iff.mp h
    cases he
    exact ⟨fun _ => .inl trivial, by simp,
      fun _ _ _ _ hmem => ⟨trivial, sendIndicate_conn ha hmem⟩⟩
  | total =>
    simp only [linkStep] at h
    split_ifs at h <;> cases h <;> exact ⟨fun _ => .inl trivial, by simp, by simp⟩
  | malloc =>
    simp only [linkStep] at h
    split at h <;> cases h <;> exact ⟨fun _ => .inl trivial, by simp, by simp⟩
  | loop =>
    cases h
    by_cases hmore : current_num ≤ total_num
    · exact ⟨fun _ => .inl hmore, by simp [hmore], by simp⟩
    · exact ⟨by simp [Sending, hmore], by simp [hmore], by simp⟩
  | fill =>
    obtain ⟨_, -, h⟩ := Option.bind_eq_some_iff.mp h
    obtain ⟨_, -, h⟩ := Option.bind_eq_some_iff.mp h
    obtain ⟨_, -, he⟩ := Option.map_eq_some_iff.mp h
    cases he
    exact ⟨fun _ => .inl trivial, by simp, by simp⟩
  | sendFrag =>
    obtain ⟨_, -, h⟩ := Option.bind_eq_some_iff.mp h
    obtain ⟨a, ha, he⟩ := Option.map_eq_some_iff.mp h
    cases he
    exact ⟨fun _ => .inl trivial, by simp,
      fun _ _ _ _ hmem => ⟨trivial, sendIndicate_conn ha hmem⟩⟩
  | delay =>
    cases h
    exact ⟨fun hs => .inl hs, by simp, by simp⟩
  | _ =>
    cases h
    exact ⟨by simp [Sending], by simp, by simp⟩

/-- While the link is kept, the server's steps keep the invariant, and what they send goes out on
the connection of the line. -/
theorem linkGateInv_step {s s' : Server × ℕ} {i : ServerInput} {o : List ServerOut}
    (hs : LinkGateInv s) (hk : LinkKept s.1 i) (hstep : observedServer.step s i = some (s', o)) :
    LinkGateInv s' ∧ ∀ x ∈ o, SentOn s.1.spp s.2 x := by
  obtain ⟨s, conn⟩ := s
  obtain ⟨⟨s₁, o₁⟩, hmove, he⟩ := Option.map_eq_some_iff.mp hstep
  simp only [Prod.mk.injEq] at he
  obtain ⟨rfl, rfl⟩ := he
  cases i with
  | gatt e =>
    obtain ⟨⟨spp, calls⟩, hev, he⟩ := Option.map_eq_some_iff.mp hmove
    simp only [Prod.mk.injEq] at he
    obtain ⟨rfl, rfl⟩ := he
    refine ⟨⟨fun hsend => ?_, hs.linesize⟩, ?_⟩
    · obtain ⟨hconn, hntf, hid⟩ := hs.sending hsend
      obtain ⟨hconn', hntf', hid'⟩ := handler_keepsLink hev (hk hsend)
      exact ⟨hconn' hconn, hntf' hntf, hid'.trans hid⟩
    · intro x hx
      obtain ⟨c, -, rfl⟩ := List.mem_map.mp hx
      trivial
  | link ans =>
    obtain ⟨⟨t, acts⟩, hlink, he⟩ := Option.map_eq_some_iff.mp hmove
    simp only [Prod.mk.injEq] at he
    obtain ⟨rfl, rfl⟩ := he
    have hmv := linkStep_move hs.linesize hlink
    refine ⟨⟨fun hsend => ?_, hmv.linesize⟩, ?_⟩
    · -- There is more to send because a line was just read, or because there was before.
      by_cases hread : s.link.pc = .read
      · have hne : ans.line.bytes ≠ [] := by
          rcases hmv.sending hsend with h | h
          · simp [Sending, hread] at h
          · exact h.2
        obtain ⟨hconn, hntf⟩ := hk hread hne
        exact ⟨hconn, hntf, by simp [lineConnAfter, hread]⟩
      · have hsend₀ : Sending s.link := (hmv.sending hsend).resolve_right fun h => hread h.1
        simpa [lineConnAfter, hread] using hs.sending hsend₀
    · intro x hx
      obtain ⟨a, ha, rfl⟩ := List.mem_map.mp hx
      cases a with
      | sendIndicate gatts_if conn_id attr_handle value =>
        obtain ⟨hsend, rfl⟩ := hmv.sends _ _ _ _ ha
        exact hs.sending hsend
      | _ => trivial

/-- In every run in which the read callback returns a line only with both flags set, and every
event that arrives while there is more of a line to send keeps the link, each notification goes out
with both flags set, to the connection that was current when its line was read. -/
theorem sentOn_of_linkKept (run : List ServerInput)
    (hkept : observedServer.AllSteps run fun _ s i _ _ => LinkKept s.1 i) :
    observedServer.AllSteps run fun _ s _ _ o => ∀ x ∈ o, SentOn s.1.spp s.2 x := by
  have h0 : LinkGateInv observedServer.init := ⟨fun h => h.elim, fun h => by cases h⟩
  exact Machine.AllSteps.mono_inv hkept h0
    (fun _ _ _ _ _ hs hk hstep => (linkGateInv_step hs hk hstep).1)
    fun _ _ _ _ _ hs hk hstep => (linkGateInv_step hs hk hstep).2

/-- The events with which a client connects and turns the notifications on, when the handles start
at 40. -/
def listenEvents : List ServerInput :=
  [.gatt (.creatAttrTab true sppIdxNb (HandleTable.consecutive 40).handles), .gatt (.connect 3 0),
    .gatt (.write ⟨45, false, [1, 0]⟩ ⟨none, none, none⟩)]

/-- The read callback returns two characters and a newline. -/
def shortLine : ServerInput := .link ⟨⟨[104, 105, 10], by decide⟩, none⟩

/-- A line is read and sent while the client stays connected. -/
theorem sentOn_listening :
    observedServer.AllSteps (listenEvents ++ List.replicate 5 shortLine) fun _ s _ _ o =>
      ∀ x ∈ o, SentOn s.1.spp s.2 x :=
  sentOn_of_linkKept _ (by decide +kernel)

/-- The client disconnects while the task waits for a line: the line is sent all the same. -/
theorem sent_after_disconnect :
    ∃ run, ¬ observedServer.AllSteps run fun _ s _ _ o => ∀ x ∈ o, SentOn s.1.spp s.2 x :=
  ⟨listenEvents ++ List.replicate 2 shortLine ++ .gatt .disconnect :: List.replicate 3 shortLine,
    by decide +kernel⟩

end PartLib.Ble
