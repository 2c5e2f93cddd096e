import PartLib.EspErr
import PartLib.Lib.Machine
import PartLib.Lib.Memory

/-!
# The handler of a firmware upload

`update_post_handler` receives the body of a request in pieces, writes each piece to the next update
partition, and then ends the update, switches the boot partition, and restarts. `updatePostHandler`
is the handler, one call after another. An input of the machine is what the next call returns, and
an output is the call with its arguments and what it returned, so the outputs of a run are the trace
of the handler's calls.

`update_post_handler_trace` is the law of every trace: the boot partition is switched only when the
bytes written are the body of the request and the update has ended without an error, and the handler
returns an error, with the boot partition as it was, wherever it does not restart.
-/

namespace PartLib.Ota

/-- `HTTPD_SOCK_ERR_TIMEOUT`. -/
def httpdSockErrTimeout : ℤ := -3

/-- `INT_MAX`. -/
def intMax : ℕ := 2 ^ 31 - 1

/-- The conversion of a `size_t` to an `int`. -/
def intOfSize (n : ℕ) : ℤ := Int.bmod n (2 ^ 32)

/-- The conversion of an `int` to a `size_t`. -/
def sizeOfInt (z : ℤ) : ℕ := (z % 2 ^ 32).toNat

/-- Up to `INT_MAX`, a size is itself as an `int`. -/
theorem intOfSize_of_le {n : ℕ} (h : n ≤ intMax) : intOfSize n = n := by
  have hmax : intMax = 2147483647 := rfl
  exact Int.bmod_eq_of_le (by omega) (by omega)

/-- An `int` that is not negative is itself as a size. -/
theorem sizeOfInt_natCast {n : ℕ} (h : n ≤ intMax) : sizeOfInt n = n := by
  unfold intMax at h
  rw [sizeOfInt]
  omega

/-! ## The buffer -/

/-- `sizeof(buf)`. -/
def sizeofBuf : ℕ := 1000

/-- `char buf[1000]`. -/
structure RecvBuf where
  bytes : List UInt8
  length_bytes : bytes.length = sizeofBuf
  deriving DecidableEq

/-- The buffer after a receive has put bytes at its start. -/
def RecvBuf.recv (b : RecvBuf) (received : List UInt8) (h : received.length ≤ sizeofBuf) :
    RecvBuf where
  bytes := splice b.bytes 0 received
  length_bytes := by
    rw [length_splice (by rw [b.length_bytes]; omega), b.length_bytes]

/-- The start of the buffer is what was received last. -/
theorem RecvBuf.take_recv (b : RecvBuf) {received : List UInt8} (h : received.length ≤ sizeofBuf) :
    (b.recv received h).bytes.take received.length = received := by
  have htake : (splice b.bytes 0 received).take (0 + received.length) =
      b.bytes.take 0 ++ received := take_splice (by rw [b.length_bytes]; omega)
  rw [zero_add, List.take_zero, List.nil_append] at htake
  exact htake

/-! ## The handler -/

/-- Where the handler is: the call that comes next, or how it ended. -/
inductive UpdatePc
  | begin
  | recv
  | write (recv_len : ℤ)
  | otaEnd
  | setBoot
  | sendErr (msg : String)
  | sendStr (msg : String)
  | delay
  | restart
  | returned (err : EspErr)
  | restarted
  | aborted
  deriving DecidableEq

/-- The state of the handler, with the bytes of the body that the server has not handed out. -/
structure UpdatePost where
  pc : UpdatePc
  remaining : ℤ
  buf : RecvBuf
  unread : List UInt8
  deriving DecidableEq

/-- What a call returns: an error code, the length of a receive, or nothing of interest. -/
inductive UpdateAnswer
  | err (e : EspErr)
  | len (recv_len : ℤ)
  | done
  deriving DecidableEq

/-- The calls, with what they returned. -/
inductive UpdateCall
  | otaBegin (e : EspErr)
  | recv (size : ℕ) (recv_len : ℤ)
  | otaWrite (data : List UInt8) (e : EspErr)
  | otaEnd (e : EspErr)
  | setBoot (e : EspErr)
  | sendErr (msg : String)
  | sendStr (msg : String)
  | delay
  | restart
  deriving DecidableEq

/-- `while (remaining > 0)`: a receive, or the end of the loop. -/
def loopHead (remaining : ℤ) : UpdatePc :=
  if 0 < remaining then .recv else .otaEnd

/-- `MIN(remaining, sizeof(buf))`, which compares the two as sizes. -/
def recvSize (remaining : ℤ) : ℕ :=
  if sizeOfInt remaining < sizeofBuf then sizeOfInt remaining else sizeofBuf

/-- No receive asks for more than the buffer holds. -/
theorem recvSize_le (remaining : ℤ) : recvSize remaining ≤ sizeofBuf := by
  unfold recvSize
  split_ifs <;> omega

/-- When the body has `n` bytes left, a receive asks for them, or for what the buffer holds. -/
theorem recvSize_natCast {n : ℕ} (h : n ≤ intMax) : recvSize n = min n sizeofBuf := by
  rw [recvSize, sizeOfInt_natCast h]
  split_ifs <;> omega

/-- What a receive of a given length takes from the body. -/
def UpdatePost.received (s : UpdatePost) (recv_len : ℤ) : List UInt8 :=
  s.unread.take recv_len.toNat

/-- What a receive hands out fits in the buffer. -/
theorem UpdatePost.length_received_le (s : UpdatePost) {recv_len : ℤ}
    (h : recv_len ≤ recvSize s.remaining) : (s.received recv_len).length ≤ sizeofBuf := by
  have hsize := recvSize_le s.remaining
  rw [UpdatePost.received, List.length_take]
  omega

/-- One call of the handler, and what the handler does with the answer. A receive returns no more
than it was asked for. -/
def updateStep (s : UpdatePost) : UpdatePc → UpdateAnswer → Option (UpdatePost × UpdateCall)
  | .begin, .err e =>
    some ({ s with pc := if e = espOk then loopHead s.remaining else .aborted }, .otaBegin e)
  -- The buffer is written only when bytes arrive; a timeout tries again from the loop's head.
  | .recv, .len recv_len =>
    if h : recv_len ≤ recvSize s.remaining then
      some
        (if recv_len = httpdSockErrTimeout then { s with pc := loopHead s.remaining }
        else if recv_len ≤ 0 then { s with pc := .sendErr "Protocol Error" }
        else
          { s with
            pc := .write recv_len
            buf := s.buf.recv (s.received recv_len) (s.length_received_le h)
            unread := s.unread.drop recv_len.toNat },
        .recv (recvSize s.remaining) recv_len)
    else
      none
  | .write recv_len, .err e =>
    some
      (if e = espOk then
        { s with remaining := s.remaining - recv_len, pc := loopHead (s.remaining - recv_len) }
      else
        { s with pc := .sendErr "Flash Error" },
      .otaWrite (s.buf.bytes.take (sizeOfInt recv_len)) e)
  -- `esp_ota_end (..) != ESP_OK || esp_ota_set_boot_partition (..) != ESP_OK`.
  | .otaEnd, .err e =>
    some ({ s with pc := if e = espOk then .setBoot else .sendErr "Validation / Activation Error" },
      .otaEnd e)
  | .setBoot, .err e =>
    some
      ({ s with
        pc := if e = espOk then .sendStr "Firmware update complete, rebooting now!"
          else .sendErr "Validation / Activation Error" },
      .setBoot e)
  | .sendErr msg, .done => some ({ s with pc := .returned espFail }, .sendErr msg)
  | .sendStr msg, .done => some ({ s with pc := .delay }, .sendStr msg)
  | .delay, .done => some ({ s with pc := .restart }, .delay)
  -- `esp_restart` does not return, so the handler never comes to its `return ESP_OK`.
  | .restart, .done => some ({ s with pc := .restarted }, .restart)
  | _, _ => none

/-- `update_post_handler` on a request with a given body, whose length is the content length. What
the buffer holds at first is not defined. -/
def updatePostHandler (body : List UInt8) (buf : RecvBuf) :
    Machine UpdatePost UpdateAnswer UpdateCall where
  init := ⟨.begin, intOfSize body.length, buf, body⟩
  step s a := (updateStep s s.pc a).map fun r => (r.1, [r.2])

/-! ## What the calls write -/

/-- The concatenation of the buffers that were passed to `esp_ota_write`. -/
def written : List UpdateCall → List UInt8
  | [] => []
  | .otaWrite data _ :: calls => data ++ written calls
  | _ :: calls => written calls

/-- What a call writes comes after what the calls before it wrote. -/
theorem written_append (calls₁ calls₂ : List UpdateCall) :
    written (calls₁ ++ calls₂) = written calls₁ ++ written calls₂ := by
  induction calls₁ with
  | nil => rfl
  | cons c calls ih =>
    cases c <;> simp [written, ih]

/-- What must have happened before a call: the body is written and the update has ended before the
boot partition is switched, which comes before a restart. -/
def Allowed (body : List UInt8) (past : List UpdateCall) : UpdateCall → Prop
  | .setBoot _ => written past = body ∧ .otaEnd espOk ∈ past
  | .restart => .otaEnd espOk ∈ past ∧ .setBoot espOk ∈ past
  | _ => True

/-- Every call of a trace comes after what must have happened before it. -/
def Ordered (body : List UInt8) (calls : List UpdateCall) : Prop :=
  ∀ past c, past ++ [c] <+: calls → Allowed body past c

/-- A trace is ordered call by call. -/
theorem ordered_concat {body : List UInt8} {calls : List UpdateCall} {c : UpdateCall} :
    Ordered body (calls ++ [c]) ↔ Ordered body calls ∧ Allowed body calls c := by
  constructor
  · intro h
    exact ⟨fun past c' hp => h past c' (hp.trans (List.prefix_append calls [c])),
      h calls c (List.prefix_refl _)⟩
  · rintro ⟨hcalls, hc⟩ past c' hp
    rcases List.prefix_concat_iff.mp hp with heq | hp
    · obtain ⟨rfl, rfl⟩ := List.append_singleton_inj.mp heq
      exact hc
    · exact hcalls past c' hp

/-! ## The law of a trace -/

/-- What the trace tells at each place of the handler. Before the end of the loop, what was
written, what waits in the buffer, and what is unread make up the body. -/
def AtPc (body : List UInt8) (calls : List UpdateCall) (s : UpdatePost) : UpdatePc → Prop
  | .begin => calls = [] ∧ s.unread = body ∧ s.remaining = s.unread.length
  | .recv =>
    written calls ++ s.unread = body ∧ s.remaining = s.unread.length ∧ .setBoot espOk ∉ calls
  | .write recv_len =>
    written calls ++ s.buf.bytes.take (sizeOfInt recv_len) ++ s.unread = body ∧ 0 < recv_len ∧
      s.remaining = s.unread.length + recv_len ∧ .setBoot espOk ∉ calls
  | .otaEnd => written calls = body ∧ .setBoot espOk ∉ calls
  | .setBoot => written calls = body ∧ .otaEnd espOk ∈ calls ∧ .setBoot espOk ∉ calls
  | .sendErr _ => .setBoot espOk ∉ calls
  | .sendStr _ | .delay | .restart => .otaEnd espOk ∈ calls ∧ .setBoot espOk ∈ calls
  | .returned err => err = espFail ∧ .setBoot espOk ∉ calls
  | .restarted => .restart ∈ calls
  | .aborted => .otaBegin espOk ∉ calls

/-- The invariant of the trace and the state. -/
structure UpdateInv (body : List UInt8) (calls : List UpdateCall) (s : UpdatePost) : Prop where
  ordered : Ordered body calls
  atPc : AtPc body calls s s.pc

/-- Where the loop has its head, everything received is written. -/
theorem atPc_loopHead {body : List UInt8} {calls : List UpdateCall} {s : UpdatePost}
    (hbody : written calls ++ s.unread = body) (hrem : s.remaining = s.unread.length)
    (hboot : .setBoot espOk ∉ calls) : AtPc body calls s (loopHead s.remaining) := by
  unfold loopHead
  split_ifs with hpos
  · exact ⟨hbody, hrem, hboot⟩
  · -- The loop ends when nothing is unread.
    have hnil : s.unread = [] := List.length_eq_zero_iff.mp (by omega)
    rw [hnil, List.append_nil] at hbody
    exact ⟨hbody, hboot⟩

/-- A receive hands out no more than is unread, and no more than the buffer holds. -/
theorem atPc_recv_le {body : List UInt8} {calls : List UpdateCall} {s : UpdatePost} {recv_len : ℤ}
    (hlen : body.length ≤ intMax) (hs : AtPc body calls s .recv)
    (hle : recv_len ≤ recvSize s.remaining) : recv_len ≤ min s.unread.length sizeofBuf := by
  obtain ⟨hbody, hrem, -⟩ := hs
  have hunread : s.unread.length ≤ intMax := by
    rw [← hbody, List.length_append] at hlen
    omega
  rw [hrem, recvSize_natCast hunread] at hle
  exact_mod_cast hle

/-- A receive, or its failure, keeps what the trace tells. -/
theorem atPc_recv {body : List UInt8} {calls : List UpdateCall} {s s' : UpdatePost}
    {a : UpdateAnswer} {c : UpdateCall} (hlen : body.length ≤ intMax)
    (hs : AtPc body calls s .recv) (hstep : updateStep s .recv a = some (s', c)) :
    AtPc body (calls ++ [c]) s' s'.pc ∧ Allowed body calls c := by
  obtain ⟨hbody, hrem, hboot⟩ := hs
  cases a with
  | len recv_len =>
    simp only [updateStep] at hstep
    split_ifs at hstep with hle htimeout hfail <;> cases hstep
    · -- A timeout: the handler is where it was.
      exact ⟨atPc_loopHead (by simpa [written_append, written] using hbody) hrem
        (by simpa using hboot), trivial⟩
    · exact ⟨by simpa [AtPc] using hboot, trivial⟩
    · -- Bytes arrived: they go from the unread ones to the start of the buffer.
      have hmin := atPc_recv_le hlen ⟨hbody, hrem, hboot⟩ hle
      have hn : (s.received recv_len).length = recv_len.toNat := by
        rw [UpdatePost.received, List.length_take]
        omega
      have hsize : sizeOfInt recv_len = (s.received recv_len).length := by
        have : (recv_len.toNat : ℤ) = recv_len := Int.toNat_of_nonneg (by omega)
        rw [hn, ← this, sizeOfInt_natCast (by unfold sizeofBuf at hmin; unfold intMax; omega), this]
      refine ⟨⟨?_, by omega, ?_, by simpa using hboot⟩, trivial⟩
      · rw [hsize, RecvBuf.take_recv, written_append]
        simpa [written, UpdatePost.received] using hbody
      · simp only [List.length_drop, hrem]
        omega
  | err e => simp [updateStep] at hstep
  | done => simp [updateStep] at hstep

/-- A write, or its failure, keeps what the trace tells. -/
theorem atPc_write {body : List UInt8} {calls : List UpdateCall} {s s' : UpdatePost}
    {a : UpdateAnswer} {c : UpdateCall} {recv_len : ℤ} (hs : AtPc body calls s (.write recv_len))
    (hstep : updateStep s (.write recv_len) a = some (s', c)) :
    AtPc body (calls ++ [c]) s' s'.pc ∧ Allowed body calls c := by
  obtain ⟨hbody, hpos, hrem, hboot⟩ := hs
  cases a with
  | err e =>
    simp only [updateStep] at hstep
    split_ifs at hstep <;> cases hstep
    · exact ⟨atPc_loopHead (by simpa [written_append, written] using hbody) (by simp [hrem])
        (by simpa using hboot), trivial⟩
    · exact ⟨by simpa [AtPc] using hboot, trivial⟩
  | len recv_len => simp [updateStep] at hstep
  | done => simp [updateStep] at hstep

/-- A call after the loop, or its failure, keeps what the trace tells. -/
theorem atPc_finish {body : List UInt8} {calls : List UpdateCall} {s s' : UpdatePost}
    {a : UpdateAnswer} {c : UpdateCall} (hs : AtPc body calls s s.pc)
    (hpc : s.pc = .otaEnd ∨ s.pc = .setBoot)
    (hstep : updateStep s s.pc a = some (s', c)) :
    AtPc body (calls ++ [c]) s' s'.pc ∧ Allowed body calls c := by
  rcases hpc with hpc | hpc <;> rw [hpc] at hs hstep <;> cases a <;>
    simp only [updateStep, Option.some.injEq, Prod.mk.injEq, reduceCtorEq] at hstep
  · obtain ⟨rfl, rfl⟩ := hstep
    obtain ⟨hbody, hboot⟩ := hs
    split_ifs with hok
    · subst hok
      exact ⟨by simpa [AtPc, written_append, written] using ⟨hbody, hboot⟩, trivial⟩
    · exact ⟨by simpa [AtPc] using hboot, trivial⟩
  · obtain ⟨rfl, rfl⟩ := hstep
    obtain ⟨hbody, hended, hboot⟩ := hs
    split_ifs with hok
    · subst hok
      exact ⟨by simpa [AtPc] using hended, hbody, hended⟩
    · -- The switch failed, so it is not a switch.
      refine ⟨?_, hbody, hended⟩
      simpa [AtPc, eq_comm] using ⟨hboot, hok⟩

/-- Every call keeps the invariant. -/
theorem updateInv_step {body : List UInt8} {calls : List UpdateCall} {s s' : UpdatePost}
    {a : UpdateAnswer} {c : UpdateCall} (hlen : body.length ≤ intMax)
    (hs : UpdateInv body calls s) (hstep : updateStep s s.pc a = some (s', c)) :
    UpdateInv body (calls ++ [c]) s' := by
  suffices h : AtPc body (calls ++ [c]) s' s'.pc ∧ Allowed body calls c from
    ⟨ordered_concat.mpr ⟨hs.ordered, h.2⟩, h.1⟩
  have hat := hs.atPc
  cases hpc : s.pc with
  | recv =>
    rw [hpc] at hat hstep
    exact atPc_recv hlen hat hstep
  | write recv_len =>
    rw [hpc] at hat hstep
    exact atPc_write hat hstep
  | otaEnd => exact atPc_finish hat (.inl hpc) hstep
  | setBoot => exact atPc_finish hat (.inr hpc) hstep
  | begin =>
    rw [hpc] at hat hstep
    obtain ⟨rfl, hbody, hrem⟩ := hat
    cases a <;> simp only [updateStep, Option.some.injEq, Prod.mk.injEq, reduceCtorEq] at hstep
    obtain ⟨rfl, rfl⟩ := hstep
    split_ifs with hok
    · exact ⟨atPc_loopHead (by simpa [written] using hbody) hrem (by simp), trivial⟩
    · exact ⟨by simpa [AtPc, eq_comm] using hok, trivial⟩
  | sendErr | sendStr | delay | restart =>
    rw [hpc] at hat hstep
    cases a <;> simp only [updateStep, Option.some.injEq, Prod.mk.injEq, reduceCtorEq] at hstep
    obtain ⟨rfl, rfl⟩ := hstep
    simpa [AtPc, Allowed] using hat
  | returned | restarted | aborted =>
    rw [hpc] at hstep
    cases a <;> simp [updateStep] at hstep

/-- The invariant holds at the start. -/
theorem updateInv_init {body : List UInt8} (buf : RecvBuf) (hlen : body.length ≤ intMax) :
    UpdateInv body [] (updatePostHandler body buf).init where
  ordered past c hp := by simp at hp
  atPc := by
    simp only [updatePostHandler, AtPc, true_and]
    exact intOfSize_of_le hlen

/-- The invariant holds after every run. -/
theorem updateInv_run {body : List UInt8} {buf : RecvBuf} {answers : List UpdateAnswer}
    {s : UpdatePost} {calls : List UpdateCall} (hlen : body.length ≤ intMax)
    (hrun : (updatePostHandler body buf).run (updatePostHandler body buf).init answers =
      some (s, calls)) : UpdateInv body calls s := by
  refine Machine.run_inv (UpdateInv body) (updateInv_init buf hlen)
    (fun past s a s' o hs hstep => ?_) hrun
  obtain ⟨⟨s₁, c⟩, hcall, he⟩ := Option.map_eq_some_iff.mp hstep
  cases he
  exact updateInv_step hlen hs hcall

/-! ## How a run ends -/

/-- The handler has ended. -/
def UpdatePc.Ended : UpdatePc → Prop
  | .returned _ | .restarted | .aborted => True
  | _ => False

/-- As long as the handler has not ended, the next call takes some answer. -/
theorem ended_of_no_step {body : List UInt8} {buf : RecvBuf} {s : UpdatePost}
    (hstuck : ∀ a, (updatePostHandler body buf).step s a = none) : s.pc.Ended := by
  simp only [updatePostHandler, Option.map_eq_none_iff] at hstuck
  cases hpc : s.pc with
  | begin | write | otaEnd | setBoot => simpa [hpc, updateStep] using hstuck (.err espOk)
  | recv => simpa [hpc, updateStep] using hstuck (.len 0)
  | sendErr | sendStr | delay | restart => simpa [hpc, updateStep] using hstuck .done
  | returned | restarted | aborted => trivial

/-- In every run, the boot partition is switched only after the buffers written make up the body of
the request and the update has ended without an error, and the restart comes only after both. A run
that ends after a successful `esp_ota_begin`, and does not restart, ends in `ESP_FAIL` with the boot
partition not switched. -/
theorem update_post_handler_trace {body : List UInt8} {buf : RecvBuf}
    {answers : List UpdateAnswer} {s : UpdatePost} {calls : List UpdateCall}
    (hlen : body.length ≤ intMax)
    (hrun : (updatePostHandler body buf).run (updatePostHandler body buf).init answers =
      some (s, calls)) :
    Ordered body calls ∧
      (.otaBegin espOk ∈ calls → (∀ a, (updatePostHandler body buf).step s a = none) →
        .restart ∉ calls → s.pc = .returned espFail ∧ .setBoot espOk ∉ calls) := by
  obtain ⟨hordered, hat⟩ := updateInv_run hlen hrun
  refine ⟨hordered, fun hbegin hstuck hrestart => ?_⟩
  have hended := ended_of_no_step hstuck
  cases hpc : s.pc with
  | returned err =>
    rw [hpc] at hat
    exact ⟨by rw [hat.1], hat.2⟩
  | restarted =>
    rw [hpc] at hat
    exact absurd hat hrestart
  | aborted =>
    rw [hpc] at hat
    exact absurd hbegin hat
  | begin | recv | write | otaEnd | setBoot | sendErr | sendStr | delay | restart =>
    rw [hpc] at hended
    exact hended.elim

/-- Three bytes arrive in two pieces, with a timeout before each, and the handler restarts. -/
theorem update_post_handler_trace_two_pieces :
    ∃ s calls, (updatePostHandler [7, 8, 9] ⟨List.replicate 1000 0, by decide +kernel⟩).run
        (updatePostHandler [7, 8, 9] ⟨List.replicate 1000 0, by decide +kernel⟩).init
        [.err 0, .len (-3), .len 2, .err 0, .len (-3), .len 1, .err 0, .err 0, .err 0, .done, .done,
          .done] = some (s, calls) ∧
      calls.contains .restart ∧ Ordered [7, 8, 9] calls := by
  have hcalls : ((updatePostHandler [7, 8, 9] ⟨List.replicate 1000 0, by decide +kernel⟩).run
      (updatePostHandler [7, 8, 9] ⟨List.replicate 1000 0, by decide +kernel⟩).init
      [.err 0, .len (-3), .len 2, .err 0, .len (-3), .len 1, .err 0, .err 0, .err 0, .done, .done,
        .done]).map (fun r => r.2.contains .restart) = some true := by
    decide +kernel
  obtain ⟨⟨s, calls⟩, hrun, hrestart⟩ := Option.map_eq_some_iff.mp hcalls
  exact ⟨s, calls, hrun, hrestart, (update_post_handler_trace (by decide) hrun).1⟩

/-! ## Every run is short, timeouts aside -/

/-- What a call counts for: nothing when it is a receive that timed out. -/
def UpdateCall.count : UpdateCall → ℕ
  | .recv _ recv_len => if recv_len = httpdSockErrTimeout then 0 else 1
  | _ => 1

/-- The number of calls that the handler can still make at a place, with `n` bytes unread. -/
def UpdatePc.callsLeft (n : ℕ) : UpdatePc → ℕ
  | .begin | .write _ => 2 * n + 7
  | .recv => 2 * n + 6
  | .otaEnd => 5
  | .setBoot => 4
  | .sendStr _ => 3
  | .delay => 2
  | .restart | .sendErr _ => 1
  | .returned _ | .restarted | .aborted => 0

/-- The loop has less to do at its head than before a write. -/
theorem callsLeft_loopHead_le (n : ℕ) (remaining : ℤ) :
    (loopHead remaining).callsLeft n ≤ 2 * n + 6 := by
  unfold loopHead
  split_ifs <;> simp only [UpdatePc.callsLeft] <;> omega

/-- A call that counts leaves less to do. -/
theorem callsLeft_step {body : List UInt8} {calls : List UpdateCall} {s s' : UpdatePost}
    {a : UpdateAnswer} {c : UpdateCall} (hlen : body.length ≤ intMax)
    (hs : UpdateInv body calls s) (hstep : updateStep s s.pc a = some (s', c)) :
    s'.pc.callsLeft s'.unread.length + c.count ≤ s.pc.callsLeft s.unread.length := by
  have hat := hs.atPc
  cases hpc : s.pc with
  | recv =>
    rw [hpc] at hat hstep
    cases a <;> simp only [updateStep, reduceCtorEq] at hstep
    split_ifs at hstep with hle htimeout hfail <;> cases hstep
    · have hhead := callsLeft_loopHead_le s.unread.length s.remaining
      rwa [UpdateCall.count, if_pos htimeout]
    · simp only [UpdatePc.callsLeft, UpdateCall.count, htimeout, if_false]
      omega
    · -- What is received is not empty, so less is unread.
      have hmin := atPc_recv_le hlen hat hle
      simp only [UpdatePc.callsLeft, UpdateCall.count, htimeout, if_false, List.length_drop]
      omega
  | write recv_len =>
    rw [hpc] at hstep
    cases a <;> simp only [updateStep, Option.some.injEq, Prod.mk.injEq, reduceCtorEq] at hstep
    obtain ⟨rfl, rfl⟩ := hstep
    have hhead := callsLeft_loopHead_le s.unread.length (s.remaining - recv_len)
    split_ifs
    · exact Nat.add_le_add_right hhead 1
    · simp [UpdatePc.callsLeft, UpdateCall.count]
  | begin =>
    rw [hpc] at hstep
    cases a <;> simp only [updateStep, Option.some.injEq, Prod.mk.injEq, reduceCtorEq] at hstep
    obtain ⟨rfl, rfl⟩ := hstep
    have hhead := callsLeft_loopHead_le s.unread.length s.remaining
    split_ifs
    · exact Nat.add_le_add_right hhead 1
    · simp [UpdatePc.callsLeft, UpdateCall.count]
  | otaEnd | setBoot =>
    rw [hpc] at hstep
    cases a <;> simp only [updateStep, Option.some.injEq, Prod.mk.injEq, reduceCtorEq] at hstep
    obtain ⟨rfl, rfl⟩ := hstep
    split_ifs <;> simp [UpdatePc.callsLeft, UpdateCall.count]
  | sendErr | sendStr | delay | restart =>
    rw [hpc] at hstep
    cases a <;> simp only [updateStep, Option.some.injEq, Prod.mk.injEq, reduceCtorEq] at hstep
    obtain ⟨rfl, rfl⟩ := hstep
    simp [UpdatePc.callsLeft, UpdateCall.count]
  | returned | restarted | aborted =>
    rw [hpc] at hstep
    cases a <;> simp [updateStep] at hstep

/-- The handler makes a bounded number of calls, not counting the receives that time out. With
`ended_of_no_step`, it ends unless the receives time out forever. -/
theorem count_calls_le {body : List UInt8} {buf : RecvBuf} {answers : List UpdateAnswer}
    {s : UpdatePost} {calls : List UpdateCall} (hlen : body.length ≤ intMax)
    (hrun : (updatePostHandler body buf).run (updatePostHandler body buf).init answers =
      some (s, calls)) : (calls.map UpdateCall.count).sum ≤ 2 * body.length + 7 := by
  obtain ⟨-, hcount⟩ := Machine.run_inv
    (fun calls s => UpdateInv body calls s ∧
      (calls.map UpdateCall.count).sum + s.pc.callsLeft s.unread.length ≤ 2 * body.length + 7)
    ⟨updateInv_init buf hlen, by simp [updatePostHandler, UpdatePc.callsLeft]⟩
    (fun past s a s' o ⟨hs, hcount⟩ hstep => by
      obtain ⟨⟨s₁, c⟩, hcall, he⟩ := Option.map_eq_some_iff.mp hstep
      cases he
      have hless := callsLeft_step hlen hs hcall
      refine ⟨updateInv_step hlen hs hcall, ?_⟩
      rw [List.map_append, List.sum_append, List.map_singleton, List.sum_singleton]
      simp only at hless ⊢
      omega) hrun
  omega

end PartLib.Ota
