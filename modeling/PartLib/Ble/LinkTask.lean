import PartLib.Ble.SppServer

/-!
# The task that sends the uplink

`linkStep` is `link_task`, one statement at a time: the statement that `pc` stands at runs in a
state of the server's statics, which another task may change between two statements. The counters
`total_num` and `current_num` are 8 bits wide, and offsets and lengths are computed in `int`. A step
has no result when it divides by zero, copies outside an array, or sends more bytes than the buffer
has.

`linkIteration` is one pass of the task's endless loop with the statics unchanged, from the test of
the gate until the task is back at it.
-/

namespace PartLib.Ble

/-- `UPLINK_BUFSIZE`. -/
def uplinkBufsize : ℕ := 512

/-- What the read callback stores in `temp`: at most the `UPLINK_BUFSIZE` bytes that it is asked
for. -/
structure Line where
  bytes : List UInt8
  le : bytes.length ≤ uplinkBufsize

/-- What a pass of the loop gets from outside: the line of the read callback, and the contents of
the block that `malloc` returns, if it returns one. -/
structure LinkAns where
  line : Line
  malloc : Option (ℕ → UInt8)

/-- The statements of the loop. -/
inductive LinkPc
  | gate
  | gateNtf
  | read
  | size
  | sendWhole
  | total
  | malloc
  | loop
  | fill
  | sendFrag
  | delay
  | free
  | idle
  | dead
  deriving DecidableEq, Repr

/-- The task: where it stands, and its local variables. -/
structure LinkTask where
  pc : LinkPc
  temp : List UInt8
  linesize : ℤ
  total_num : ℕ
  current_num : ℕ
  ntf_value_p : Option (List UInt8)
  deriving DecidableEq, Repr

/-- The task as it is created. -/
def LinkTask.init : LinkTask := ⟨.gate, List.replicate uplinkBufsize 0, 0, 0, 0, none⟩

/-- The calls and copies of the task; a delay is in milliseconds. -/
inductive LinkAct
  | sendIndicate (gatts_if conn_id attr_handle : ℕ) (value : List UInt8)
  | memcpy (dst src len : ℤ)
  | delay (ms : ℕ)
  deriving DecidableEq, Repr

/-- The values that a list of calls sends. -/
def notifications (acts : List LinkAct) : List (List UInt8) :=
  acts.filterMap fun a =>
    match a with
    | .sendIndicate _ _ _ value => some value
    | _ => none

/-- The character that marks a fragment, twice. -/
def hash : UInt8 := 0x23

/-- `esp_ble_gatts_send_indicate` on the notify characteristic with the first `len` bytes of a
buffer. -/
def sendIndicate (s : SppServer) (buff : List UInt8) (len : ℤ) : Option LinkAct :=
  if 0 ≤ len ∧ len ≤ buff.length then
    some (.sendIndicate s.spp_gatts_if s.spp_conn_id (s.spp_handle_table .dataNtyVal)
      (buff.take len.toNat))
  else
    none

/-- The bytes of the current fragment's payload: a full one, or what is left for the last. -/
def fragLen (s : SppServer) (t : LinkTask) : ℤ :=
  if t.current_num < t.total_num then s.spp_mtu_size - 7
  else t.linesize - (t.current_num - 1) * (s.spp_mtu_size - 7)

/-- One statement of `link_task`. -/
def linkStep (s : SppServer) (ans : LinkAns) (t : LinkTask) : Option (LinkTask × List LinkAct) :=
  match t.pc with
  -- `if (is_connected && enable_data_ntf)`, which reads the second flag after the first.
  | .gate =>
    some ({ t with linesize := 0, pc := if s.is_connected then .gateNtf else .idle }, [])
  | .gateNtf =>
    if s.enable_data_ntf then
      some ({ t with
        temp := List.replicate uplinkBufsize 0
        ntf_value_p := none
        pc := if s.my_read_cb then .read else .size }, [])
    else
      some ({ t with pc := .idle }, [])
  -- The read callback may block for a long time; the step is its return.
  | .read =>
    some ({ t with
      temp := splice t.temp 0 ans.line.bytes, linesize := ans.line.bytes.length, pc := .size }, [])
  | .size =>
    if 0 < t.linesize ∧ t.linesize ≤ uplinkBufsize then
      if t.linesize ≤ s.spp_mtu_size - 3 then some ({ t with pc := .sendWhole }, [])
      else some ({ t with pc := .total }, [])
    else
      some ({ t with pc := .gate }, [])
  | .sendWhole =>
    (sendIndicate s t.temp t.linesize).map fun a => ({ t with pc := .gate }, [a])
  -- C's division rounds to zero, and `total_num` keeps the low 8 bits of its result.
  | .total =>
    let payload : ℤ := s.spp_mtu_size - 7
    if payload = 0 then none
    else
      let total := if t.linesize.tmod payload = 0 then t.linesize.tdiv payload
        else t.linesize.tdiv payload + 1
      some ({ t with total_num := (total % 2 ^ 8).toNat, current_num := 1, pc := .malloc }, [])
  | .malloc =>
    match ans.malloc with
    -- The `break` leaves the endless loop, and the task deletes itself.
    | none => some ({ t with ntf_value_p := none, pc := .dead }, [])
    | some contents =>
      some ({ t with
        ntf_value_p := some ((List.range (s.spp_mtu_size - 3)).map contents), pc := .loop }, [])
  | .loop =>
    some ({ t with pc := if t.current_num ≤ t.total_num then .fill else .free }, [])
  -- The four bytes of the header, and then `memcpy` of the payload.
  | .fill =>
    let src : ℤ := (t.current_num - 1) * (s.spp_mtu_size - 7)
    t.ntf_value_p.bind fun buff =>
      let header := [hash, hash, UInt8.ofNat t.total_num, UInt8.ofNat t.current_num]
      (memcpy buff 0 header 0 4).bind fun buff =>
        (memcpy buff 4 t.temp src (fragLen s t)).map fun buff =>
          ({ t with ntf_value_p := some buff, pc := .sendFrag }, [.memcpy 4 src (fragLen s t)])
  | .sendFrag =>
    t.ntf_value_p.bind fun buff =>
      (sendIndicate s buff
        (if t.current_num < t.total_num then s.spp_mtu_size - 3 else fragLen s t + 4)).map
          fun a => ({ t with pc := .delay }, [a])
  | .delay =>
    some ({ t with current_num := (t.current_num + 1) % 2 ^ 8, pc := .loop }, [.delay 20])
  | .free => some ({ t with ntf_value_p := none, pc := .gate }, [])
  | .idle => some ({ t with pc := .gate }, [.delay 50])
  | .dead => some (t, [])

/-- The statements from where the task stands until it is at the gate again or has ended, with the
statics unchanged. -/
def linkRun (s : SppServer) (ans : LinkAns) : ℕ → LinkTask → Option (LinkTask × List LinkAct)
  | 0, _ => none
  | fuel + 1, t =>
    (linkStep s ans t).bind fun r =>
      if r.1.pc = .gate ∨ r.1.pc = .dead then some r
      else (linkRun s ans fuel r.1).map fun q => (q.1, r.2 ++ q.2)

/-- The statements of a pass are at most four for each value of the 8-bit counter, and a few before
and after. -/
def linkFuel : ℕ := 4 * 2 ^ 8 + 8

/-- One pass of the task's loop with the statics unchanged. -/
def linkIteration (s : SppServer) (ans : LinkAns) (t : LinkTask) :
    Option (LinkTask × List LinkAct) :=
  linkRun s ans linkFuel t

end PartLib.Ble
