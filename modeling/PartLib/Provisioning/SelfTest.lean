import PartLib.Lib.Machine

/-!
# The self test of the provisioning

`setup_provisioning` registers its event handler, waits for a connection, takes the semaphore
`wifi_sem` once, unregisters the handler for provisioning events only, and returns or restarts. The
handler gives the semaphore at every `IP_EVENT_STA_GOT_IP`, and checks that the give succeeded.

`selfTest` is the two of them, a statement at a time, from the registration of the handler on. The
semaphore is a local variable of `setup_provisioning`, so a give after the return has no defined
result.
-/

namespace PartLib.Provisioning

/-- The statements of `setup_provisioning` that the self test consists of. Before the wait the
function sets up the provisioning manager or the station; events may arrive meanwhile. -/
inductive SetupPc
  | wait
  | take
  | delay
  | unregister
  | finish
  | returned
  | restarted
  deriving DecidableEq, Repr

/-- The events that the handler tells apart. -/
inductive ProvEvent
  | prov
  | provEnd
  | staStart
  | staGotIp
  | staDisconnected
  deriving DecidableEq, Repr

/-- The statements of `event_handler`. -/
inductive HandlerStmt
  | connect
  | deinit
  | give
  | setBits
  deriving DecidableEq, Repr

/-- `event_handler`. -/
def eventHandler : ProvEvent → List HandlerStmt
  | .prov => []
  | .provEnd => [.deinit]
  | .staStart => [.connect]
  | .staGotIp => [.give, .setBits]
  | .staDisconnected => [.connect]

/-- The event is one for which the handler is unregistered after the self test. -/
def ProvEvent.isProv : ProvEvent → Bool
  | .prov | .provEnd => true
  | _ => false

/-- The state: where `setup_provisioning` is, the binary semaphore, the bit of the event group,
whether the semaphore was taken, whether the handler is registered for provisioning events, what the
handler has still to do, and whether a check has failed. -/
structure SelfTest where
  pc : SetupPc
  wifi_sem : Bool
  connected_bit : Bool
  provisioning_valid : Bool
  prov_registered : Bool
  handler : List HandlerStmt
  aborted : Bool
  deriving DecidableEq

/-- The moves: the next statement of `setup_provisioning`, whose wait may time out; an event; the
next statement of the handler. -/
inductive SelfTestInput
  | setup (timeout : Bool)
  | event (e : ProvEvent)
  | handler
  deriving DecidableEq

/-- The calls. The result of a give is `none` when the semaphore no longer exists. -/
inductive SelfTestCall
  | wifiConnect
  | mgrDeinit
  | give (ok : Option Bool)
  | take (ok : Bool)
  | eraseFlash
  | unregister
  | restart
  deriving DecidableEq

/-- A statement of `setup_provisioning`. -/
def setupStep (s : SelfTest) (timeout : Bool) : Option (SelfTest × List SelfTestCall) :=
  match s.pc with
  | .wait => if s.connected_bit ∨ timeout then some ({ s with pc := .take }, []) else none
  -- `xSemaphoreTake (wifi_sem, 0)` does not wait.
  | .take =>
    if s.wifi_sem then
      some ({ s with wifi_sem := false, provisioning_valid := true, pc := .delay }, [.take true])
    else
      some ({ s with pc := .delay }, [.take false, .eraseFlash])
  | .delay => some ({ s with pc := .unregister }, [])
  | .unregister => some ({ s with prov_registered := false, pc := .finish }, [.unregister])
  | .finish =>
    if s.provisioning_valid then some ({ s with pc := .returned }, [])
    else some ({ s with pc := .restarted }, [.restart])
  | .returned => none
  | .restarted => none

/-- A statement of the handler, which has `rest` to do after it. A check that fails, or whose value
is not defined, ends the program. -/
def handlerStep (s : SelfTest) (rest : List HandlerStmt) :
    HandlerStmt → SelfTest × List SelfTestCall
  | .connect => ({ s with handler := rest }, [.wifiConnect])
  | .deinit => ({ s with handler := rest }, [.mgrDeinit])
  | .give =>
    -- After the return the storage of the semaphore is gone; a full semaphore refuses the give.
    if s.pc = .returned then ({ s with aborted := true }, [.give none])
    else if s.wifi_sem then ({ s with aborted := true }, [.give (some false)])
    else ({ s with wifi_sem := true, handler := rest }, [.give (some true)])
  | .setBits => ({ s with connected_bit := true, handler := rest }, [])

/-- `setup_provisioning` and its handler, from the registration of the handler on. -/
def selfTest : Machine SelfTest SelfTestInput SelfTestCall where
  init := ⟨.wait, false, false, false, true, [], false⟩
  step s i :=
    if s.aborted ∨ s.pc = .restarted then none
    else
      match i with
      | .setup timeout => setupStep s timeout
      | .event e =>
        if s.handler = [] ∧ (e.isProv → s.prov_registered) then
          some ({ s with handler := eventHandler e }, [])
        else
          none
      | .handler =>
        match s.handler with
        | [] => none
        | x :: rest => some (handlerStep s rest x)

/-! ## When the gives succeed -/

/-- `setup_provisioning` has taken the semaphore, or tried to. -/
def SetupPc.Taken : SetupPc → Prop
  | .wait | .take => False
  | _ => True

instance : DecidablePred SetupPc.Taken
  | .wait | .take => .isFalse id
  | .delay | .unregister | .finish | .returned | .restarted => .isTrue trivial

/-- An observer's count of the connections that the handler has signalled with a give, before the
semaphore is taken and since. -/
structure GotIps where
  before : ℕ
  since : ℕ
  deriving DecidableEq

/-- The count goes up at each give. -/
def GotIps.note (g : GotIps) (s : SelfTest) : SelfTestInput → GotIps
  | .handler =>
    if s.handler.head? = some .give then
      if s.pc.Taken then { g with since := g.since + 1 } else { g with before := g.before + 1 }
    else
      g
  | _ => g

/-- The self test beside the observer. -/
def observedSelfTest : Machine (SelfTest × GotIps) SelfTestInput SelfTestCall :=
  selfTest.observe ⟨0, 0⟩ GotIps.note

/-- The call is not a give that fails, or has no defined result. -/
def CallOk : SelfTestCall → Prop
  | .give ok => ok = some true
  | _ => True

instance : DecidablePred CallOk
  | .give ok => inferInstanceAs (Decidable (ok = some true))
  | .wifiConnect | .mgrDeinit | .take _ | .eraseFlash | .unregister | .restart => .isTrue trivial

/-- The next connection is the first before the semaphore is taken, or the first between that and
the return of `setup_provisioning`. -/
def FirstGotIp (s : SelfTest) (g : GotIps) : Prop :=
  if s.pc.Taken then g.since = 0 ∧ s.pc ≠ .returned else g.before = 0

/-- As long as no check has failed, the semaphore is full when a connection was signalled since it
was last empty. -/
structure SelfTestInv (s : SelfTest × GotIps) : Prop where
  before : s.1.aborted = false → ¬ s.1.pc.Taken →
    s.1.wifi_sem = decide (0 < s.2.before) ∧ s.2.since = 0
  since : s.1.aborted = false → s.1.pc.Taken → s.1.wifi_sem = decide (0 < s.2.since)

/-- A statement of `setup_provisioning` keeps the invariant, and gives nothing. -/
theorem selfTestInv_setup {s s' : SelfTest} {g : GotIps} {timeout : Bool}
    {calls : List SelfTestCall} (hs : SelfTestInv (s, g)) (hab : s.aborted = false)
    (hstep : setupStep s timeout = some (s', calls)) :
    SelfTestInv (s', g) ∧ ∀ c ∈ calls, CallOk c := by
  have hbefore := hs.before hab
  have hsince := hs.since hab
  unfold setupStep at hstep
  cases hpc : s.pc with
  | wait =>
    simp only [hpc, SetupPc.Taken] at hbefore hstep
    split_ifs at hstep
    cases hstep
    exact ⟨⟨fun _ _ => hbefore id, fun _ h => h.elim⟩, by simp⟩
  | take =>
    -- Whether or not it was full, the semaphore is empty now, and no give came since.
    simp only [hpc, SetupPc.Taken] at hbefore hstep
    obtain ⟨hsem, hzero⟩ := hbefore id
    split_ifs at hstep with hfull <;> cases hstep
    · exact ⟨⟨fun _ h => (h trivial).elim, fun _ _ => by simp [hzero]⟩, by simp [CallOk]⟩
    · exact ⟨⟨fun _ h => (h trivial).elim, fun _ _ => by simpa [hzero] using hfull⟩,
        by simp [CallOk]⟩
  | delay =>
    simp only [hpc, SetupPc.Taken] at hsince hstep
    cases hstep
    exact ⟨⟨fun _ h => (h trivial).elim, fun _ _ => hsince trivial⟩, by simp⟩
  | unregister =>
    simp only [hpc, SetupPc.Taken] at hsince hstep
    cases hstep
    exact ⟨⟨fun _ h => (h trivial).elim, fun _ _ => hsince trivial⟩, by simp [CallOk]⟩
  | finish =>
    simp only [hpc, SetupPc.Taken] at hsince hstep
    split_ifs at hstep <;> cases hstep <;>
      exact ⟨⟨fun _ h => (h trivial).elim, fun _ _ => hsince trivial⟩, by simp [CallOk]⟩
  | returned => simp [hpc] at hstep
  | restarted => simp [hpc] at hstep

/-- A give keeps the invariant, and succeeds if and only if it is for a first connection. -/
theorem selfTestInv_give {s : SelfTest} {g : GotIps} {rest : List HandlerStmt}
    (hs : SelfTestInv (s, g)) (hab : s.aborted = false) (hhead : s.handler = .give :: rest) :
    SelfTestInv ((handlerStep s rest .give).1, g.note s .handler) ∧
      ((∀ c ∈ (handlerStep s rest .give).2, CallOk c) ↔ FirstGotIp s g) := by
  have hbefore := hs.before hab
  have hsince := hs.since hab
  simp only [GotIps.note, hhead, List.head?_cons, if_true, handlerStep, FirstGotIp]
  by_cases hret : s.pc = .returned
  · have htaken : s.pc.Taken := by rw [hret]; trivial
    rw [if_pos hret, if_pos htaken, if_pos htaken]
    exact ⟨⟨by simp, by simp⟩, by simp [CallOk, hret]⟩
  · rw [if_neg hret]
    by_cases htaken : s.pc.Taken
    · have hsem := hsince htaken
      rw [if_pos htaken, if_pos htaken]
      by_cases hfull : s.wifi_sem = true
      · rw [if_pos hfull]
        have hpos : 0 < g.since := by simpa [hfull] using hsem.symm
        exact ⟨⟨by simp, by simp⟩, by simp [CallOk, hpos.ne']⟩
      · rw [if_neg hfull]
        have : g.since = 0 := by simpa [hfull] using hsem.symm
        exact ⟨⟨fun _ h => (h htaken).elim, by simp⟩, by simp [CallOk, this, hret]⟩
    · obtain ⟨hsem, hzero⟩ := hbefore htaken
      rw [if_neg htaken, if_neg htaken]
      by_cases hfull : s.wifi_sem = true
      · rw [if_pos hfull]
        have hpos : 0 < g.before := by simpa [hfull] using hsem.symm
        exact ⟨⟨by simp, by simp⟩, by simp [CallOk, hpos.ne']⟩
      · rw [if_neg hfull]
        have : g.before = 0 := by simpa [hfull] using hsem.symm
        exact ⟨⟨fun _ _ => ⟨by simp, hzero⟩, fun _ h => (htaken h).elim⟩, by simp [CallOk, this]⟩

/-- A move keeps the invariant. Its gives succeed if and only if a give that is next is for a first
connection. -/
theorem selfTestInv_step {s s' : SelfTest × GotIps} {i : SelfTestInput} {calls : List SelfTestCall}
    (hs : SelfTestInv s) (hstep : observedSelfTest.step s i = some (s', calls)) :
    SelfTestInv s' ∧ ((∀ c ∈ calls, CallOk c) ↔
      (i = .handler → s.1.handler.head? = some .give → FirstGotIp s.1 s.2)) := by
  obtain ⟨s, g⟩ := s
  obtain ⟨⟨s₁, calls₁⟩, hmove, he⟩ := Option.map_eq_some_iff.mp hstep
  cases he
  simp only [selfTest] at hmove
  split_ifs at hmove with hdead
  rw [not_or, Bool.not_eq_true] at hdead
  cases i with
  | setup timeout =>
    obtain ⟨hs', hok⟩ := selfTestInv_setup hs hdead.1 hmove
    exact ⟨hs', by simpa using hok⟩
  | event e =>
    simp only at hmove
    split_ifs at hmove
    cases hmove
    exact ⟨⟨hs.before, hs.since⟩, by simp⟩
  | handler =>
    simp only at hmove
    split at hmove
    · cases hmove
    · rename_i x rest hhandler
      cases x with
      | give =>
        obtain ⟨hs', hok⟩ := selfTestInv_give hs hdead.1 hhandler
        rw [Option.some.inj hmove] at hs' hok
        exact ⟨hs', by simpa [hhandler] using hok⟩
      | _ =>
        cases hmove
        refine ⟨⟨?_, ?_⟩, by simp [hhandler, CallOk]⟩
        · simpa [handlerStep, GotIps.note, hhandler] using hs.before
        · simpa [handlerStep, GotIps.note, hhandler] using hs.since

/-- In every run, every give of the handler succeeds if and only if each connection that it signals
is the first before the semaphore is taken, or the first between that and the return of
`setup_provisioning`. -/
theorem gives_succeed_iff (run : List SelfTestInput) :
    (selfTest.AllSteps run fun _ _ _ _ calls => ∀ c ∈ calls, CallOk c) ↔
      observedSelfTest.AllSteps run fun _ s i _ _ =>
        i = .handler → s.1.handler.head? = some .give → FirstGotIp s.1 s.2 := by
  rw [← Machine.allSteps_observe]
  exact Machine.allSteps_congr (fun _ => SelfTestInv)
    ⟨fun _ _ => ⟨rfl, rfl⟩, fun _ h => h.elim⟩
    (fun _ _ _ _ _ hs hstep => (selfTestInv_step hs hstep).1)
    fun _ _ _ _ _ hs hstep => (selfTestInv_step hs hstep).2

/-- The station connects, loses the connection, and connects again before the semaphore is taken:
the second give fails. -/
theorem give_fails_on_reconnect :
    ∃ run, ¬ selfTest.AllSteps run fun _ _ _ _ calls => ∀ c ∈ calls, CallOk c :=
  ⟨[.event .staGotIp, .handler, .handler, .event .staDisconnected, .handler, .event .staGotIp,
    .handler], by decide⟩

end PartLib.Provisioning
