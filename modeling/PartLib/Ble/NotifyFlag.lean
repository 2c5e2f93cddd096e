import PartLib.Ble.SppServer

/-!
# The flag of the notifications

`ble_server_connected` tells whether a client is connected and has enabled the notifications. What a
client enables is bit 0 of the value that it writes to the configuration descriptor of the notify
characteristic. The handler sets its flag at the value `01 00`, and clears it at `00 00`; at any
other value it leaves the flag as it is.

So the flag is bit 0 of the last value if and only if every other value that is written has the same
bit 0 as the one before (`bleServerConnected_iff`).
-/

namespace PartLib.Ble

/-- `ble_server_connected`. -/
def bleServerConnected (s : SppServer) : Bool := s.is_connected && s.enable_data_ntf

/-- The event handler, once the attribute table is filled. -/
def gattServer (t : HandleTable) : Machine SppServer GattsEvent SppCall where
  init := { SppServer.init with spp_handle_table := t.handles }
  step := gattsProfileEventHandler

/-- What a client has done: whether it is connected, and the last value of two bytes that it has
written to the descriptor since it connected. -/
structure Client where
  up : Bool
  value : Option (UInt8 × UInt8)
  deriving DecidableEq

/-- The value of two bytes that an event writes to the descriptor. -/
def GattsEvent.cfgValue (t : HandleTable) : GattsEvent → Option (UInt8 × UInt8)
  | .write p _ =>
    if p.is_prep = false ∧ p.handle = t.handles .dataNtfCfg then
      match p.value with
      | [a, b] => some (a, b)
      | _ => none
    else none
  | _ => none

/-- The bookkeeping of one event. -/
def Client.after (t : HandleTable) (c : Client) : GattsEvent → Client
  | .connect _ _ => ⟨true, none⟩
  | .disconnect => ⟨false, none⟩
  | e => { c with value := e.cfgValue t <|> c.value }

/-- The bookkeeping of a history. -/
def client (t : HandleTable) (h : List GattsEvent) : Client := h.foldl (Client.after t) ⟨false, none⟩

/-- Bit 0 of a value. -/
def notifyBit (value : UInt8 × UInt8) : Bool := value.1 &&& 1 == 1

/-- The client has enabled the notifications. -/
def Client.notifies (c : Client) : Bool := c.up && (c.value.map notifyBit).getD false

/-- There is one connection at a time, writes arrive during a connection, and the table stays. -/
def OneConnection (t : HandleTable) (h : List GattsEvent) : GattsEvent → Prop
  | .connect _ _ => (client t h).up = false
  | .disconnect => (client t h).up = true
  | .write _ _ => (client t h).up = true
  | .creatAttrTab ok num_handle handles =>
    ok = false ∨ num_handle ≠ sppIdxNb ∨ handles = t.handles
  | _ => True

instance (t : HandleTable) (h : List GattsEvent) : (e : GattsEvent) → Decidable (OneConnection t h e)
  | .connect _ _ => inferInstanceAs (Decidable (_ = false))
  | .disconnect => inferInstanceAs (Decidable (_ = true))
  | .write _ _ => inferInstanceAs (Decidable (_ = true))
  | .creatAttrTab ok num_handle handles =>
    have : Decidable (handles = t.handles) :=
      decidable_of_iff (∀ i ∈ SppIdx.all, handles i = t.handles i)
        ⟨fun h => funext fun i => h i (by cases i <;> decide), fun h i _ => congrFun h i⟩
    inferInstanceAs (Decidable (ok = false ∨ num_handle ≠ sppIdxNb ∨ handles = t.handles))
  | .reg _ | .read _ | .execWrite _ | .mtu _ | .other => .isTrue trivial

/-- A value that is written to the descriptor is one of the two that the handler knows, or does not
change bit 0. -/
def KeepsFlag (t : HandleTable) (h : List GattsEvent) (e : GattsEvent) : Prop :=
  ∀ value ∈ e.cfgValue t, value = (0x01, 0x00) ∨ value = (0x00, 0x00) ∨
    notifyBit value = (client t h).notifies

instance (t : HandleTable) (h : List GattsEvent) (e : GattsEvent) : Decidable (KeepsFlag t h e) :=
  inferInstanceAs (Decidable (∀ value ∈ _, _))

/-- What the statics have to do with the history. -/
structure FlagInv (t : HandleTable) (h : List GattsEvent) (s : SppServer) : Prop where
  handles : s.spp_handle_table = t.handles
  up : s.is_connected = (client t h).up
  flag : s.enable_data_ntf = (client t h).notifies

/-- One more event. -/
theorem client_snoc (t : HandleTable) (h : List GattsEvent) (e : GattsEvent) :
    client t (h ++ [e]) = (client t h).after t e := by
  rw [client, List.foldl_append]
  rfl

/-- In a filled table, only the handle of an attribute leads to it. -/
theorem findCharAndDesrIndex_eq_some {t : HandleTable} {handle : ℕ} {i : SppIdx} :
    findCharAndDesrIndex t.handles handle = some i ↔ handle = t.handles i := by
  constructor
  · intro h
    simpa using List.find?_some h
  · rintro rfl
    exact findCharAndDesrIndex_handles t i

/-- A write of a value of two bytes to the descriptor. -/
theorem cfgValue_write {t : HandleTable} {s : SppServer} (hs : s.spp_handle_table = t.handles)
    (p : WriteParam) (offers : Offers) (a b : UInt8) :
    (GattsEvent.write p offers).cfgValue t = some (a, b) ↔
      IsNotifyCfg s p ∧ p.value = [a, b] := by
  rw [IsNotifyCfg, hs, findCharAndDesrIndex_eq_some, GattsEvent.cfgValue]
  split_ifs with h
  · rw [and_iff_right h]
    split
    case h_1 c d hvalue => simp [hvalue]
    case h_2 hvalue =>
      constructor
      · intro h
        cases h
      · intro h
        exact absurd h (hvalue a b)
  · simp [h]

variable {t : HandleTable} {h : List GattsEvent} {s s' : SppServer} {e : GattsEvent}
  {o : List SppCall}

/-- What one event has to do with the flag: when it keeps the flag, the invariant holds after it; and
it keeps the flag if and only if `ble_server_connected` is right after it. -/
structure FlagStep (t : HandleTable) (h : List GattsEvent) (e : GattsEvent) (s' : SppServer) :
    Prop where
  inv : KeepsFlag t h e → FlagInv t (h ++ [e]) s'
  iff : bleServerConnected s' = (client t (h ++ [e])).notifies ↔ KeepsFlag t h e

/-- Where the invariant holds, `ble_server_connected` is right. -/
theorem FlagInv.connected (hs : FlagInv t h s) : bleServerConnected s = (client t h).notifies := by
  rw [bleServerConnected, hs.up, hs.flag, Client.notifies, ← Bool.and_assoc, Bool.and_self]

/-- An event that keeps the flag. -/
theorem FlagStep.of_inv (hkeeps : KeepsFlag t h e) (hs : FlagInv t (h ++ [e]) s') :
    FlagStep t h e s' := ⟨fun _ => hs, iff_of_true hs.connected hkeeps⟩

/-- An event that writes no value to the descriptor keeps the flag. -/
theorem keepsFlag_of_none (he : e.cfgValue t = none) : KeepsFlag t h e := by
  intro value hvalue
  rw [he] at hvalue
  cases hvalue

/-- An event that neither writes a value to the descriptor nor opens or closes a connection, and
leaves the table and the flags. -/
theorem FlagStep.quiet (hs : FlagInv t h s) (he : e.cfgValue t = none)
    (hafter : ∀ c : Client, c.after t e = { c with value := e.cfgValue t <|> c.value })
    (hhandles : s'.spp_handle_table = t.handles) (hup : s'.is_connected = s.is_connected)
    (hflag : s'.enable_data_ntf = s.enable_data_ntf) : FlagStep t h e s' := by
  have hsame : client t (h ++ [e]) = client t h := by
    rw [client_snoc, hafter, he]
    rfl
  exact .of_inv (keepsFlag_of_none he)
    ⟨hhandles, by rw [hsame, hup, hs.up], by rw [hsame, hflag, hs.flag]⟩

/-- A value of two bytes that is written to the descriptor. -/
theorem FlagStep.write (hs : FlagInv t h s) {p : WriteParam} {offers : Offers} {a b : UInt8}
    (hup : (client t h).up = true) (hvalue : p.value = [a, b])
    (hcfg : (GattsEvent.write p offers).cfgValue t = some (a, b)) :
    FlagStep t h (.write p offers) (notifyCfgWrite s p.value) := by
  have hclient : client t (h ++ [.write p offers]) = ⟨true, some (a, b)⟩ := by
    have hafter : (client t h).after t (.write p offers) =
        ⟨(client t h).up, (GattsEvent.write p offers).cfgValue t <|> (client t h).value⟩ := rfl
    rw [client_snoc, hafter, hcfg, hup]
    rfl
  have hkeeps : KeepsFlag t h (.write p offers) ↔ (a, b) = (0x01, 0x00) ∨ (a, b) = (0x00, 0x00) ∨
      notifyBit (a, b) = (client t h).notifies := by
    rw [KeepsFlag, hcfg]
    simp
  obtain ⟨ntf, hntf⟩ := notifyCfgWrite_cases s p.value
  rw [hntf]
  have hflag : ntf = notifyBit (a, b) ↔ KeepsFlag t h (.write p offers) := by
    have hval := congrArg SppServer.enable_data_ntf hntf
    rw [hkeeps]
    by_cases hon : (a, b) = (0x01, 0x00)
    · obtain ⟨rfl, rfl⟩ := Prod.mk.inj hon
      exact iff_of_true (by simpa [notifyCfgWrite, hvalue, notifyBit] using hval.symm) (.inl rfl)
    by_cases hoff : (a, b) = (0x00, 0x00)
    · obtain ⟨rfl, rfl⟩ := Prod.mk.inj hoff
      exact iff_of_true (by simpa [notifyCfgWrite, hvalue, notifyBit] using hval.symm) (.inr (.inl rfl))
    -- The handler does not know the value.
    have hon' : ¬ (a = 0x01 ∧ b = 0x00) := fun h => hon (by rw [h.1, h.2])
    have hoff' : ¬ (a = 0x00 ∧ b = 0x00) := fun h => hoff (by rw [h.1, h.2])
    simp only [notifyCfgWrite, hvalue, List.cons.injEq, and_true, hon', hoff', if_false] at hval
    rw [← hval, hs.flag, or_iff_right hon, or_iff_right hoff, eq_comm]
  refine ⟨fun hk => ⟨hs.handles, ?_, ?_⟩, ?_⟩
  · rw [hclient, hs.up, hup]
  · rw [hclient]
    exact hflag.mpr hk
  · rw [hclient, ← hflag, bleServerConnected, hs.up, hup]
    rfl

/-- A write to the descriptor that is not of two bytes, or to another attribute, leaves the flag. -/
theorem notifyCfgWrite_of_length_ne {value : List UInt8} (h : ∀ a b, value ≠ [a, b]) :
    notifyCfgWrite s value = s := by
  rw [notifyCfgWrite, if_neg (h _ _), if_neg (h _ _)]

/-- Every event of a run with one connection at a time. -/
theorem flagStep (hs : FlagInv t h s) (hone : OneConnection t h e)
    (hstep : gattsProfileEventHandler s e = some (s', o)) : FlagStep t h e s' := by
  cases e with
  | write p offers =>
    have hafter : ∀ c : Client, c.after t (.write p offers) = { c with
        value := (GattsEvent.write p offers).cfgValue t <|> c.value } := fun _ => rfl
    have hcfg := cfgValue_write hs.handles p offers
    rcases writeEvt_cases hstep with ⟨hntf, rfl⟩ | ⟨hntf, _, _, _, rfl⟩
    · by_cases hvalue : ∃ a b, p.value = [a, b]
      · obtain ⟨a, b, hvalue⟩ := hvalue
        exact .write hs hone hvalue ((hcfg a b).mpr ⟨hntf, hvalue⟩)
      · simp only [not_exists] at hvalue
        rw [notifyCfgWrite_of_length_ne hvalue]
        have hnone : (GattsEvent.write p offers).cfgValue t = none :=
          Option.eq_none_iff_forall_ne_some.mpr fun v h => hvalue v.1 v.2 ((hcfg v.1 v.2).mp h).2
        exact .quiet hs hnone hafter hs.handles rfl rfl
    · have hnone : (GattsEvent.write p offers).cfgValue t = none :=
        Option.eq_none_iff_forall_ne_some.mpr fun v h => hntf ((hcfg v.1 v.2).mp h).1
      exact .quiet hs hnone hafter hs.handles rfl rfl
  | execWrite flag =>
    obtain ⟨_, rfl⟩ := execWriteEvt_cases hstep
    exact .quiet hs rfl (fun _ => rfl) hs.handles rfl rfl
  | connect gatts_if conn_id =>
    cases hstep
    have hflag : s.enable_data_ntf = false := by
      rw [hs.flag, Client.notifies, hone]
      rfl
    refine .of_inv (keepsFlag_of_none rfl) ⟨hs.handles, ?_, ?_⟩ <;> rw [client_snoc]
    · rfl
    · exact hflag
  | disconnect =>
    cases hstep
    refine .of_inv (keepsFlag_of_none rfl) ⟨hs.handles, ?_, ?_⟩ <;> rw [client_snoc] <;> rfl
  | creatAttrTab ok num_handle handles =>
    simp only [gattsProfileEventHandler] at hstep
    split_ifs at hstep with hok hnum <;> cases hstep
    · exact .quiet hs rfl (fun _ => rfl) hs.handles rfl rfl
    · exact .quiet hs rfl (fun _ => rfl) hs.handles rfl rfl
    · have hsame : handles = t.handles := (hone.resolve_left hok).resolve_left hnum
      exact .quiet hs rfl (fun _ => rfl) hsame rfl rfl
  | _ =>
    cases hstep
    exact .quiet hs rfl (fun _ => rfl) hs.handles rfl rfl

/-- In every run with one connection at a time, `ble_server_connected` tells after every event whether
a client is connected and bit 0 of the last value that it has written is set, if and only if every
value that is written is one that the handler knows, or has the same bit 0 as the one before. -/
theorem bleServerConnected_iff (t : HandleTable) (run : List GattsEvent)
    (hone : (gattServer t).AllSteps run fun h _ e _ _ => OneConnection t h e) :
    ((gattServer t).AllSteps run fun h _ e s' _ =>
        bleServerConnected s' = (client t (h ++ [e])).notifies) ↔
      (gattServer t).AllSteps run fun h _ e _ _ => KeepsFlag t h e :=
  hone.congr_of (FlagInv t) ⟨rfl, rfl, rfl⟩
    (fun _ _ _ _ _ hs hone hkeeps hstep => (flagStep hs hone hstep).inv hkeeps)
    fun _ _ _ _ _ hs hone hstep => (flagStep hs hone hstep).iff

/-- A client with the handle 45 of the descriptor connects and writes `value` to it. -/
def writesCfg (value : List UInt8) : List GattsEvent :=
  [.connect 3 0, .write ⟨45, false, value⟩ ⟨none, none, none⟩]

/-- A client that enables the notifications. -/
theorem bleServerConnected_iff_enabled :
    ((gattServer (.consecutive 40)).AllSteps (writesCfg [1, 0]) fun h _ e s' _ =>
        bleServerConnected s' = (client (.consecutive 40) (h ++ [e])).notifies) ↔
      (gattServer (.consecutive 40)).AllSteps (writesCfg [1, 0]) fun h _ e _ _ =>
        KeepsFlag (.consecutive 40) h e :=
  bleServerConnected_iff (.consecutive 40) (writesCfg [1, 0]) (by decide +kernel)

/-- A client that enables notifications and indications with one value. -/
theorem not_bleServerConnected_both_bits :
    (gattServer (.consecutive 40)).AllSteps (writesCfg [3, 0])
        (fun h _ e _ _ => OneConnection (.consecutive 40) h e) ∧
      ¬ (gattServer (.consecutive 40)).AllSteps (writesCfg [3, 0]) fun h _ e s' _ =>
        bleServerConnected s' = (client (.consecutive 40) (h ++ [e])).notifies := by
  decide +kernel

end PartLib.Ble
