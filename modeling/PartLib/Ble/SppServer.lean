import PartLib.Ble.WriteBuffer
import PartLib.Lib.Machine

/-!
# The GATT server's statics and its event handler

`SppServer` holds the statics of `ble_spp_server.c`, and `gattsProfileEventHandler` is
`gatts_profile_event_handler`: one event of the Bluetooth stack to the statics after it and the
calls it makes, with `SUPPORT_HEARTBEAT` and `SPP_DEBUG_MODE` not defined, as in the header. An
event has no result when handling it reads or writes outside a live block.

The server starts as `console_ll_init` and `setup_ble_spp` leave it: both callbacks registered, the
command queue created, and the attribute handles not known yet.
-/

namespace PartLib.Ble

/-- The attributes of the service, in the order of the handle table. -/
inductive SppIdx
  | svc
  | dataRecvChar
  | dataRecvVal
  | dataNotifyChar
  | dataNtyVal
  | dataNtfCfg
  | commandChar
  | commandVal
  | statusChar
  | statusVal
  | statusCfg
  deriving DecidableEq, Repr

/-- The attributes from `SPP_IDX_SVC` to the one before `SPP_IDX_NB`. -/
def SppIdx.all : List SppIdx :=
  [.svc, .dataRecvChar, .dataRecvVal, .dataNotifyChar, .dataNtyVal, .dataNtfCfg, .commandChar,
    .commandVal, .statusChar, .statusVal, .statusCfg]

/-- `SPP_IDX_NB`. -/
def sppIdxNb : ℕ := SppIdx.all.length

/-- The length of the queue of commands. -/
def cmdQueueLength : ℕ := 10

/-- An ATT MTU as the stack reports it: at least the default of 23, in 16 bits. -/
structure Mtu where
  val : ℕ
  ge : 23 ≤ val
  lt : val < 2 ^ 16

/-- The statics of `ble_spp_server.c`. The callbacks are present or null; a block of `cmd_buffs` is
a command between its allocation and its release. -/
structure SppServer where
  spp_mtu_size : ℕ
  spp_conn_id : ℕ
  spp_gatts_if : ℕ
  enable_data_ntf : Bool
  is_connected : Bool
  spp_handle_table : SppIdx → ℕ
  my_read_cb : Bool
  my_write_cb : Bool
  writes : WriteBuffer
  cmd_buffs : Heap (List UInt8)
  cmd_cmd_queue : List ℕ

/-- The statics once the server is set up. -/
def SppServer.init : SppServer where
  spp_mtu_size := 23
  spp_conn_id := 0xffff
  spp_gatts_if := 0xff
  enable_data_ntf := false
  is_connected := false
  spp_handle_table _ := 0
  my_read_cb := true
  my_write_cb := true
  writes := .init
  cmd_buffs := ∅
  cmd_cmd_queue := []

/-- The parameter of `ESP_GATTS_WRITE_EVT`. -/
structure WriteParam where
  handle : ℕ
  is_prep : Bool
  value : List UInt8

/-- What the allocator offers while a write is handled: for a node of the list of prepared writes,
for its buffer, and for a command. -/
structure Offers where
  node : Option ℕ
  buff : Option ℕ
  cmd : Option ℕ

/-- The events of the stack that the handler tells apart, with the parameters that it reads. -/
inductive GattsEvent
  | reg (gatts_if : ℕ)
  | read (handle : ℕ)
  | write (p : WriteParam) (offers : Offers)
  | execWrite (exec_write_flag : Bool)
  | mtu (mtu : Mtu)
  | connect (gatts_if conn_id : ℕ)
  | disconnect
  | creatAttrTab (ok : Bool) (num_handle : ℕ) (handles : SppIdx → ℕ)
  | other

/-- The calls that the handler makes. -/
inductive SppCall
  | setDeviceName
  | configAdvDataRaw
  | createAttrTab (gatts_if num : ℕ)
  | startService (handle : ℕ)
  | startAdvertising
  | writeCb (src : List UInt8)
  deriving DecidableEq, Repr

/-- The bytes that a list of calls hands to the write callback. -/
def writtenBytes (calls : List SppCall) : List UInt8 :=
  calls.flatMap fun c =>
    match c with
    | .writeCb src => src
    | _ => []

/-- `find_char_and_desr_index`: the first attribute with a handle; `none` is the error `0xff`. -/
def findCharAndDesrIndex (table : SppIdx → ℕ) (handle : ℕ) : Option SppIdx :=
  SppIdx.all.find? fun i => handle == table i

/-- A write to the command characteristic: the value goes into a block of `spp_mtu_size - 3` bytes,
zero behind it, whose address is queued. A full queue refuses it, and the block stays allocated. -/
def commandWrite (s : SppServer) (value : List UInt8) (offer : Option ℕ) : Option SppServer :=
  match malloc s.cmd_buffs offer with
  | none => some s
  | some b =>
    -- `memset` to zero, and `memcpy` of the value, which has to fit.
    (memcpy (List.replicate (s.spp_mtu_size - 3) 0) 0 value 0 value.length).map fun buff =>
      { s with
        cmd_buffs := s.cmd_buffs.insert b buff
        cmd_cmd_queue :=
          if s.cmd_cmd_queue.length < cmdQueueLength then s.cmd_cmd_queue ++ [b]
          else s.cmd_cmd_queue }

/-- A write to the configuration descriptor of the notify characteristic. -/
def notifyCfgWrite (s : SppServer) (value : List UInt8) : SppServer :=
  if value = [0x01, 0x00] then { s with enable_data_ntf := true }
  else if value = [0x00, 0x00] then { s with enable_data_ntf := false }
  else s

/-- `ESP_GATTS_WRITE_EVT`. -/
def writeEvt (s : SppServer) (p : WriteParam) (offers : Offers) :
    Option (SppServer × List SppCall) :=
  let res := findCharAndDesrIndex s.spp_handle_table p.handle
  if p.is_prep = false then
    if res = some .commandVal then
      (commandWrite s p.value offers.cmd).map fun s' => (s', [])
    else if res = some .dataNtfCfg then
      some (notifyCfgWrite s p.value, [])
    else if res = some .dataRecvVal then
      some (s, if s.my_write_cb then [.writeCb p.value] else [])
    else
      some (s, [])
  else if res = some .dataRecvVal then
    (storeWrBuffer s.writes p.value offers.node offers.buff).map fun r =>
      ({ s with writes := r.2 }, [])
  else
    some (s, [])

/-- `ESP_GATTS_EXEC_WRITE_EVT`. -/
def execWriteEvt (s : SppServer) (exec_write_flag : Bool) : Option (SppServer × List SppCall) :=
  if exec_write_flag then
    (printWriteBuffer s.writes s.my_write_cb).bind fun r =>
      (freeWriteBuffer r.2).map fun w => ({ s with writes := w }, r.1.map .writeCb)
  else
    -- A cancelled write leaves the list as it is.
    some (s, [])

/-- `gatts_profile_event_handler`. -/
def gattsProfileEventHandler (s : SppServer) : GattsEvent → Option (SppServer × List SppCall)
  | .reg gatts_if => some (s, [.setDeviceName, .configAdvDataRaw, .createAttrTab gatts_if sppIdxNb])
  | .read _ => some (s, [])
  | .write p offers => writeEvt s p offers
  | .execWrite exec_write_flag => execWriteEvt s exec_write_flag
  | .mtu mtu => some ({ s with spp_mtu_size := mtu.val }, [])
  -- Neither a connect nor a disconnect changes `spp_mtu_size` or the list of prepared writes.
  | .connect gatts_if conn_id =>
    some ({ s with spp_conn_id := conn_id, spp_gatts_if := gatts_if, is_connected := true }, [])
  | .disconnect =>
    some ({ s with is_connected := false, enable_data_ntf := false }, [.startAdvertising])
  | .creatAttrTab ok num_handle handles =>
    if ok = false then some (s, [])
    else if num_handle ≠ sppIdxNb then some (s, [])
    else some ({ s with spp_handle_table := handles }, [.startService (handles .svc)])
  | .other => some (s, [])

/-- A table that the stack has filled: the attributes have different handles. -/
structure HandleTable where
  handles : SppIdx → ℕ
  injective : Function.Injective handles

/-- In a filled table, every handle leads to its attribute. -/
theorem findCharAndDesrIndex_handles (t : HandleTable) (i : SppIdx) :
    findCharAndDesrIndex t.handles (t.handles i) = some i := by
  have hp : (fun j => t.handles i == t.handles j) = fun j => decide (i = j) := by
    funext j
    rw [Bool.eq_iff_iff, beq_iff_eq, decide_eq_true_eq]
    exact t.injective.eq_iff
  rw [findCharAndDesrIndex, hp]
  cases i <;> rfl

/-- A table as the stack fills it, with the handles one after another. -/
def HandleTable.consecutive (start : ℕ) : HandleTable where
  handles i := start + SppIdx.all.idxOf i
  injective i j h := by
    have hi : i ∈ SppIdx.all := by cases i <;> decide
    exact (List.idxOf_inj hi).mp (Nat.add_left_cancel h)

/-! ## What the handler leaves alone -/

/-- A write to the configuration descriptor of the notify characteristic, not prepared. -/
def IsNotifyCfg (s : SppServer) (p : WriteParam) : Prop :=
  p.is_prep = false ∧ findCharAndDesrIndex s.spp_handle_table p.handle = some .dataNtfCfg

/-- A write either sets the notify flag, or changes no static but the list of prepared writes and
the commands. -/
theorem writeEvt_cases {s s' : SppServer} {p : WriteParam} {offers : Offers}
    {calls : List SppCall} (h : writeEvt s p offers = some (s', calls)) :
    (IsNotifyCfg s p ∧ s' = notifyCfgWrite s p.value) ∨
      (¬ IsNotifyCfg s p ∧ ∃ writes cmd_buffs cmd_cmd_queue,
        s' = { s with
          writes := writes, cmd_buffs := cmd_buffs, cmd_cmd_queue := cmd_cmd_queue }) := by
  -- The cases are the attributes of a write that is not prepared, and then of one that is.
  unfold writeEvt at h
  simp only at h
  split_ifs at h with hprep hcmd hntf hrecv hcb hrecv
  · refine .inr ⟨fun hn => by simp [IsNotifyCfg, hcmd] at hn, ?_⟩
    obtain ⟨t, ht, he⟩ := Option.map_eq_some_iff.mp h
    simp only [Prod.mk.injEq] at he
    obtain ⟨rfl, -⟩ := he
    unfold commandWrite at ht
    split at ht
    · cases ht
      exact ⟨_, _, _, rfl⟩
    · obtain ⟨buff, -, rfl⟩ := Option.map_eq_some_iff.mp ht
      exact ⟨s.writes, _, _, rfl⟩
  · simp only [Option.some.injEq, Prod.mk.injEq] at h
    exact .inl ⟨⟨hprep, hntf⟩, h.1.symm⟩
  · simp only [Option.some.injEq, Prod.mk.injEq] at h
    exact .inr ⟨fun hn => hntf hn.2, s.writes, s.cmd_buffs, s.cmd_cmd_queue, h.1.symm⟩
  · simp only [Option.some.injEq, Prod.mk.injEq] at h
    exact .inr ⟨fun hn => hntf hn.2, s.writes, s.cmd_buffs, s.cmd_cmd_queue, h.1.symm⟩
  · simp only [Option.some.injEq, Prod.mk.injEq] at h
    exact .inr ⟨fun hn => hntf hn.2, s.writes, s.cmd_buffs, s.cmd_cmd_queue, h.1.symm⟩
  · obtain ⟨r, -, he⟩ := Option.map_eq_some_iff.mp h
    simp only [Prod.mk.injEq] at he
    exact .inr ⟨fun hn => hprep hn.1, r.2, s.cmd_buffs, s.cmd_cmd_queue, he.1.symm⟩
  · simp only [Option.some.injEq, Prod.mk.injEq] at h
    exact .inr ⟨fun hn => hprep hn.1, s.writes, s.cmd_buffs, s.cmd_cmd_queue, h.1.symm⟩

/-- Executing or cancelling a long write changes only the list of prepared writes. -/
theorem execWriteEvt_cases {s s' : SppServer} {flag : Bool} {calls : List SppCall}
    (h : execWriteEvt s flag = some (s', calls)) : ∃ writes, s' = { s with writes := writes } := by
  unfold execWriteEvt at h
  split_ifs at h
  · obtain ⟨r, -, h⟩ := Option.bind_eq_some_iff.mp h
    obtain ⟨w, -, he⟩ := Option.map_eq_some_iff.mp h
    simp only [Prod.mk.injEq] at he
    exact ⟨w, he.1.symm⟩
  · simp only [Option.some.injEq, Prod.mk.injEq] at h
    exact ⟨s.writes, h.1.symm⟩

/-- A write to the notify descriptor changes only the notify flag. -/
theorem notifyCfgWrite_cases (s : SppServer) (value : List UInt8) :
    ∃ ntf, notifyCfgWrite s value = { s with enable_data_ntf := ntf } := by
  unfold notifyCfgWrite
  split_ifs
  · exact ⟨true, rfl⟩
  · exact ⟨false, rfl⟩
  · exact ⟨s.enable_data_ntf, rfl⟩

/-- The MTU after an event, when it was `m` before: the value of an MTU event. -/
def GattsEvent.mtuAfter (m : ℕ) : GattsEvent → ℕ
  | .mtu new => new.val
  | _ => m

/-- Only an MTU event changes `spp_mtu_size`. -/
theorem handler_spp_mtu_size {s s' : SppServer} {e : GattsEvent} {calls : List SppCall}
    (h : gattsProfileEventHandler s e = some (s', calls)) :
    s'.spp_mtu_size = e.mtuAfter s.spp_mtu_size := by
  cases e with
  | write p offers =>
    rcases writeEvt_cases h with ⟨-, rfl⟩ | ⟨-, _, _, _, rfl⟩
    · obtain ⟨ntf, he⟩ := notifyCfgWrite_cases s p.value
      rw [he]
      rfl
    · rfl
  | execWrite flag =>
    obtain ⟨_, rfl⟩ := execWriteEvt_cases h
    rfl
  | creatAttrTab ok num handles =>
    simp only [gattsProfileEventHandler] at h
    split_ifs at h <;> cases h <;> rfl
  | _ =>
    simp only [gattsProfileEventHandler, Option.some.injEq, Prod.mk.injEq] at h
    obtain ⟨rfl, -⟩ := h
    rfl

end PartLib.Ble
