import PartLib.TcpConsole.Driver

/-!
# What `socket_init` leaves behind

The maintainer tells from `CONSOLE.socket_fd` whether there is a connection. `socket_init` stores the
descriptor of the socket there before the three calls that may still fail, and returns `-1` from each
of them with the descriptor stored and open; then no connection is accepted, and the maintainer reports
one as active for ever. Only a failure of `socket` itself leaves everything as it was
(`socket_init_cleans_iff`).

`Handover` follows the descriptors from the calls to the loop beside a run of `driver`.
-/

namespace PartLib.TcpConsole

/-! ## One call -/

/-- What the calls in `socket_init` return. -/
structure SocketCalls where
  socket : Except ℕ ℕ
  bind : Except ℕ ℕ
  listen : Except ℕ ℕ
  accept : Except ℕ ℕ

/-- The next statement of the maintainer, unless `socket_init` has returned. -/
def Driver.inSocketInit (s : Driver) (ret : Except ℕ ℕ) : Option Driver :=
  match s.maintainer with
  | .send _ => some s
  | _ => (s.maintain ret).map Prod.fst

/-- `socket_init`, while no other task moves. -/
def Driver.socketInit (s : Driver) (c : SocketCalls) : Option Driver :=
  [.ok 0, c.socket, c.bind, c.listen, c.accept].foldlM Driver.inSocketInit s

/-- When `socket_init` has returned `-1`, `CONSOLE.socket_fd` is `-1`, and no descriptor is open that
was not open before. -/
def CleansUp (s s' : Driver) : Prop :=
  s'.maintainer = .send (-1) → s'.socket_fd = -1 ∧ s'.fds ⊆ s.fds

/-- `socket` fails, or none of the calls does. -/
def SocketCalls.FailsEarly (c : SocketCalls) : Prop :=
  c.socket.isOk → c.bind.isOk ∧ c.listen.isOk ∧ c.accept.isOk

section

variable {s s' : Driver} {ret : Except ℕ ℕ} {c : SocketCalls}

/-- When `socket_init` has returned, nothing more is done. -/
theorem inSocketInit_send {new_conn : ℤ} (hs : s.maintainer = .send new_conn) :
    s.inSocketInit ret = some s := by
  simp [Driver.inSocketInit, hs]

/-- `bind` goes on to `listen`, or makes `socket_init` return `-1` with the socket as it is. -/
theorem inSocketInit_bind (hs : s.maintainer = .bind) :
    s.inSocketInit ret =
      some { s with maintainer := if ret.isOk then .listen else .send (-1) } := by
  cases ret <;> simp [Driver.inSocketInit, hs, Driver.maintain, Driver.fail, Except.isOk, Except.toBool]

/-- `listen` goes on to `accept`, or makes `socket_init` return `-1` with the socket as it is. -/
theorem inSocketInit_listen (hs : s.maintainer = .listen) :
    s.inSocketInit ret =
      some { s with maintainer := if ret.isOk then .accept else .send (-1) } := by
  cases ret <;> simp [Driver.inSocketInit, hs, Driver.maintain, Driver.fail, Except.isOk, Except.toBool]

/-- `accept` makes `socket_init` return: a new descriptor, or `-1` with the socket as it is. -/
theorem inSocketInit_accept (hs : s.maintainer = .accept) (h : s.inSocketInit ret = some s') :
    s'.socket_fd = s.socket_fd ∧ (s'.maintainer = .send (-1) ↔ ret.isOk = false) := by
  cases ret with
  | ok fd =>
    by_cases hfd : (fd : ℤ) ∈ s.fds
    · simp [Driver.inSocketInit, hs, Driver.maintain, hfd] at h
    · simp only [Driver.inSocketInit, hs, Driver.maintain, if_neg hfd, Option.map_some,
        Option.some.injEq] at h
      subst h
      simp [Except.isOk, Except.toBool]
  | error errno =>
    simp only [Driver.inSocketInit, hs, Driver.maintain, Option.map_some, Option.some.injEq] at h
    subst h
    simp [Driver.fail, Except.isOk, Except.toBool]

/-- Once `socket` has succeeded, `socket_init` returns with its descriptor in `CONSOLE.socket_fd`, and
returns `-1` when one of the other calls fails. -/
theorem socketInit_of_socket {fd : ℕ} (hs : s.maintainer = .reset) (hc : c.socket = .ok fd)
    (h : s.socketInit c = some s') :
    s'.socket_fd = fd ∧
      (s'.maintainer ≠ .send (-1) ↔ c.bind.isOk ∧ c.listen.isOk ∧ c.accept.isOk) := by
  have hfresh : (fd : ℤ) ∉ s.fds := by
    intro hmem
    simp [Driver.socketInit, Driver.inSocketInit, hs, Driver.maintain, hc, hmem] at h
  obtain ⟨t, ht, htfd, h⟩ : ∃ t : Driver, t.maintainer = .bind ∧ t.socket_fd = fd ∧
      [c.bind, c.listen, c.accept].foldlM Driver.inSocketInit t = some s' := by
    refine ⟨{ s with socket_fd := fd, fds := fd :: s.fds, maintainer := .bind }, rfl, rfl, ?_⟩
    simpa [Driver.socketInit, Driver.inSocketInit, hs, Driver.maintain, hc, hfresh] using h
  rw [List.foldlM_cons, inSocketInit_bind ht] at h
  by_cases hbind : c.bind.isOk
  · simp only [hbind, if_true, Option.bind_eq_bind, Option.bind_some] at h
    rw [List.foldlM_cons, inSocketInit_listen rfl] at h
    by_cases hlisten : c.listen.isOk
    · simp only [hlisten, if_true, Option.bind_eq_bind, Option.bind_some] at h
      rw [List.foldlM_cons] at h
      obtain ⟨u, hu, h⟩ := Option.bind_eq_some_iff.mp h
      cases h
      obtain ⟨hufd, huret⟩ := inSocketInit_accept rfl hu
      simp [hufd, htfd, huret, hbind, hlisten]
    · -- `listen` has failed, and there is no `accept`.
      simp [hlisten, inSocketInit_send] at h
      subst h
      simp [htfd, hlisten]
  · simp [hbind, inSocketInit_send] at h
    subst h
    simp [htfd, hbind]

end

/-- A call of `socket_init` cleans up exactly when none of the calls after `socket` fails. -/
theorem socketInit_cleansUp_iff {s s' : Driver} {c : SocketCalls} (hs : s.maintainer = .reset)
    (h : s.socketInit c = some s') : CleansUp s s' ↔ c.FailsEarly := by
  obtain ⟨socket, bind, listen, accept⟩ := c
  cases socket with
  | error errno =>
    simp [Driver.socketInit, Driver.inSocketInit, hs, Driver.maintain, Driver.fail] at h
    subst h
    simp [CleansUp, SocketCalls.FailsEarly, Except.isOk, Except.toBool]
  | ok fd =>
    obtain ⟨hfd, hret⟩ := socketInit_of_socket hs rfl h
    have hne : s'.socket_fd ≠ -1 := by omega
    rw [CleansUp, SocketCalls.FailsEarly, ← hret]
    simp [hne, Except.isOk, Except.toBool]

/-! ## Every run -/

/-- The descriptors that the current or last call of `socket_init` has opened, and the one among them
that `accept` has returned; what the maintainer has sent to the loop last; and what a loop has received
last. -/
structure Handover where
  opened : List ℤ := []
  accepted : Option ℕ := none
  sent : Option ℤ := none
  received : Option ℤ := none
  deriving DecidableEq

/-- What is noted of a step. -/
def Handover.note (n : Handover) (s : Driver) : DriverInput → Handover
  | .maintain ret =>
    match s.maintainer, ret with
    | .reset, _ => { n with opened := [], accepted := none }
    | .socket, .ok fd => { n with opened := fd :: n.opened }
    | .accept, .ok fd => { n with opened := fd :: n.opened, accepted := some fd }
    | .send new_conn, _ => { n with sent := some new_conn }
    | _, _ => n
  | .loop handle _ =>
    if s.pcOf handle = some .receive then { n with received := s.new_client_queue } else n

/-- The tasks of the console, beside the notes. -/
def handoverDriver : Machine (Driver × Handover) DriverInput DriverOut :=
  driver.observe {} Handover.note

/-- A connection that was accepted last has been sent to the loop, and is in the queue or has been
received. -/
def HandedOver (s : Driver) (n : Handover) : Prop :=
  ∃ fd : ℕ, n.accepted = some fd ∧ n.sent = some (fd : ℤ) ∧
    (s.new_client_queue = some (fd : ℤ) ∨ n.received = some (fd : ℤ))

/-- When `socket_init` returns `-1`, `CONSOLE.socket_fd` is `-1` and what it has opened is closed; and
when the connection is reported as active, it has been handed over. -/
structure SocketLaw (s s' : Driver × Handover) (o : List DriverOut) : Prop where
  cleansUp : s'.1.maintainer = .send (-1) →
    s'.1.socket_fd = -1 ∧ ∀ fd ∈ s'.2.opened, fd ∉ s'.1.fds
  active : .log .info "Console socket connection active" ∈ o → HandedOver s.1 s.2

/-- The call of `bind`, `listen`, or `accept` that the maintainer is at succeeds. -/
def MaintainerPc.CallSucceeds (ret : Except ℕ ℕ) : MaintainerPc → Prop
  | .bind | .listen | .accept => ret.isOk
  | _ => True

/-- The call of `bind`, `listen`, or `accept` succeeds. -/
def CallSucceeds (s : Driver) : DriverInput → Prop
  | .maintain ret => s.maintainer.CallSucceeds ret
  | .loop _ _ => True

instance (ret : Except ℕ ℕ) : DecidablePred (MaintainerPc.CallSucceeds ret)
  | .bind | .listen | .accept => inferInstanceAs (Decidable (ret.isOk = true))
  | .check | .create | .adding _ | .handle | .take | .reset | .socket | .send _ | .delay =>
    inferInstanceAs (Decidable True)

instance (s : Driver) : DecidablePred (CallSucceeds s)
  | .maintain ret => inferInstanceAs (Decidable (s.maintainer.CallSucceeds ret))
  | .loop _ _ => inferInstanceAs (Decidable True)

/-- What holds at a place of the maintainer when no call after `socket` fails. -/
def MaintainerPc.Tidy (s : Driver) (n : Handover) : MaintainerPc → Prop
  | .socket => n.opened = []
  | .bind | .listen | .accept => True
  | .send new_conn =>
    if new_conn = -1 then s.socket_fd = -1 ∧ n.opened = []
    else ∃ fd : ℕ, new_conn = fd ∧ n.accepted = some fd
  | _ => s.socket_fd ≠ -1 → ∃ fd : ℕ, n.accepted = some fd ∧ n.sent = some (fd : ℤ)

/-- What was sent last is in the queue or has been received last. -/
structure SocketInv (s : Driver × Handover) : Prop where
  tidy : s.1.maintainer.Tidy s.1 s.2
  queue : ∀ fd, s.1.new_client_queue = some fd → s.2.sent = some fd
  sent : ∀ fd, s.2.sent = some fd →
    s.1.new_client_queue = some fd ∨ s.2.received = some fd

section

variable {s s' : Driver} {n : Handover} {ret : Except ℕ ℕ} {o : List DriverOut}

/-- What the statements of a loop leave of the maintainer's: it may reset the descriptor, close
descriptors, and receive what was sent. -/
theorem Driver.loop_frame {handle : ℕ} {line : Option Command}
    (h : s.loop handle line = some (s', o)) :
    s'.maintainer = s.maintainer ∧ (s'.socket_fd = s.socket_fd ∨ s'.socket_fd = -1) ∧
      s'.fds ⊆ s.fds ∧ (∀ msg, .log .info msg ∉ o) ∧
      ((∃ fd, s.pcOf handle = some .receive ∧ s.new_client_queue = some fd ∧
          s'.new_client_queue = none) ∨
        s.pcOf handle ≠ some .receive ∧ s'.new_client_queue = s.new_client_queue) := by
  obtain ⟨pc, hpc, h⟩ := Option.bind_eq_some_iff.mp h
  cases pc with
  | receive =>
    obtain ⟨fd, hfd, heq⟩ := Option.map_eq_some_iff.mp h
    cases heq
    simp [Driver.goto, hpc, hfd]
  | give =>
    dsimp only at h
    split_ifs at h <;> cases h <;> simp [Driver.goto, hpc]
  | killing i =>
    dsimp only at h
    split_ifs at h <;> cases h <;> simp [Driver.goto, hpc]
  | line =>
    dsimp only at h
    split at h <;> cases h <;> simp [Driver.goto, hpc]
  | close | closeConnection =>
    cases h
    simpa [Driver.goto, hpc] using List.erase_subset
  | test | clearSocket | shutdown | clearConnection | delete | deleting =>
    cases h
    simp [Driver.goto, Driver.taskDelete, hpc]

/-- A statement of a loop keeps what holds at the place of the maintainer. -/
theorem MaintainerPc.Tidy.of_loop {pc : MaintainerPc} {received : Option ℤ} (hs : pc.Tidy s n)
    (hfd : s'.socket_fd = s.socket_fd ∨ s'.socket_fd = -1) :
    pc.Tidy s' { n with received := received } := by
  have hne : s'.socket_fd ≠ -1 → s.socket_fd ≠ -1 := by
    intro hne'
    rcases hfd with hfd | hfd
    · rwa [← hfd]
    · exact absurd hfd hne'
  cases pc with
  | socket | bind | listen | accept => exact hs
  | send new_conn =>
    simp only [Tidy] at hs ⊢
    split_ifs at hs ⊢ with hconn
    · refine ⟨?_, hs.2⟩
      rcases hfd with hfd | hfd
      · rw [hfd, hs.1]
      · exact hfd
    · exact hs
  | check | create | adding | handle | take | reset | delay => exact fun hne' => hs (hne hne')

/-- A statement that neither sends nor receives keeps the invariant, when it leads to where it should. -/
theorem SocketInv.of_tidy {n' : Handover} (hs : SocketInv (s, n))
    (hqueue : s'.new_client_queue = s.new_client_queue) (hsent : n'.sent = n.sent)
    (hreceived : n'.received = n.received) (htidy : s'.maintainer.Tidy s' n') :
    SocketInv (s', n') where
  tidy := htidy
  queue := by
    dsimp only
    rw [hqueue, hsent]
    exact hs.queue
  sent := by
    dsimp only
    rw [hqueue, hsent, hreceived]
    exact hs.sent

/-- A statement of a loop keeps the invariant. -/
theorem SocketInv.loop {handle : ℕ} {line : Option Command} (hs : SocketInv (s, n))
    (h : s.loop handle line = some (s', o)) :
    SocketInv (s', n.note s (.loop handle line)) := by
  obtain ⟨hm, hfd, -, -, hqueue⟩ := Driver.loop_frame h
  rcases hqueue with ⟨fd, hpc, hfull, hempty⟩ | ⟨hpc, hqueue⟩
  · -- The loop receives what was sent last.
    simp only [Handover.note, hpc, if_true]
    refine ⟨?_, by simp [hempty], fun fd' hsent => .inr ?_⟩
    · rw [hm]
      exact hs.tidy.of_loop hfd
    · rw [hfull, ← hs.queue fd hfull]
      exact hsent
  · simp only [Handover.note, hpc, if_false]
    refine hs.of_tidy hqueue rfl rfl ?_
    rw [hm]
    exact hs.tidy.of_loop hfd

/-- The next statement of the maintainer keeps the invariant, when the call succeeds. -/
theorem SocketInv.maintain (hs : SocketInv (s, n)) (hc : CallSucceeds s (.maintain ret))
    (h : s.maintain ret = some (s', o)) : SocketInv (s', n.note s (.maintain ret)) := by
  have htidy := hs.tidy
  cases hpc : s.maintainer <;> simp only [hpc, MaintainerPc.Tidy] at htidy <;>
    simp only [Driver.maintain, hpc] at h <;> simp only [CallSucceeds, hpc, MaintainerPc.CallSucceeds] at hc <;>
    simp only [Handover.note, hpc]
  case check | handle | take =>
    split_ifs at h <;> cases h <;>
      exact hs.of_tidy rfl rfl rfl (by simpa [MaintainerPc.Tidy, hpc] using htidy)
  case create =>
    split at h <;> cases h <;>
      exact hs.of_tidy rfl rfl rfl (by simpa [MaintainerPc.Tidy] using htidy)
  case adding | delay =>
    cases h
    exact hs.of_tidy rfl rfl rfl htidy
  case reset =>
    cases h
    exact hs.of_tidy rfl rfl rfl rfl
  case socket =>
    cases ret with
    | ok fd =>
      dsimp only at h
      split_ifs at h
      cases h
      exact hs.of_tidy rfl rfl rfl trivial
    | error errno =>
      -- Nothing has been opened, and the failure is what is stored.
      cases h
      exact hs.of_tidy rfl rfl rfl ⟨rfl, htidy⟩
  case bind | listen =>
    cases ret with
    | ok _ =>
      cases h
      exact hs.of_tidy rfl rfl rfl trivial
    | error errno => simp [Except.isOk, Except.toBool] at hc
  case accept =>
    cases ret with
    | ok fd =>
      dsimp only at h
      split_ifs at h
      cases h
      refine hs.of_tidy rfl rfl rfl ?_
      have hne : (fd : ℤ) ≠ -1 := by omega
      simp [MaintainerPc.Tidy, hne]
    | error errno => simp [Except.isOk, Except.toBool] at hc
  case send new_conn =>
    split_ifs at h
    cases h
    refine ⟨fun hfd => ?_, by simp, by simp⟩
    -- A descriptor other than `-1` is stored only when `accept` has returned one.
    split_ifs at htidy with hconn
    · exact absurd htidy.1 hfd
    · obtain ⟨fd, rfl, haccepted⟩ := htidy
      exact ⟨fd, haccepted, rfl⟩

/-- Only the test of the descriptor reports a connection as active, when it is not `-1`. -/
theorem Driver.check_of_active (h : s.maintain ret = some (s', o))
    (hlog : .log .info "Console socket connection active" ∈ o) :
    s.maintainer = .check ∧ s.socket_fd ≠ -1 := by
  have hbound : s!"Socket bound, port {consolePort}" ≠ "Console socket connection active" := by
    decide
  have haccepted : s!"Socket connection accepted, port {consolePort}" ≠
      "Console socket connection active" := by
    decide
  cases hpc : s.maintainer <;> simp only [Driver.maintain, hpc] at h
  all_goals grind [Driver.fail]

/-- What the invariant says of a step that it has led to. -/
theorem SocketInv.law {t t' : Driver × Handover} {i : DriverInput} (hs : SocketInv t)
    (hs' : SocketInv t') (h : driver.step t.1 i = some (t'.1, o)) : SocketLaw t t' o := by
  constructor
  · intro hfail
    have htidy := hs'.tidy
    rw [hfail] at htidy
    simp only [MaintainerPc.Tidy, if_true] at htidy
    simp [htidy.1, htidy.2]
  · intro hlog
    simp only [driver] at h
    split_ifs at h
    cases i with
    | maintain ret =>
      obtain ⟨hpc, hfd⟩ := Driver.check_of_active h hlog
      have htidy := hs.tidy
      rw [hpc] at htidy
      obtain ⟨fd, haccepted, hsent⟩ := htidy hfd
      exact ⟨fd, haccepted, hsent, hs.sent _ hsent⟩
    | loop handle line => exact absurd hlog ((Driver.loop_frame h).2.2.2.1 _)

end

/-- A call of `socket_init` that no other task interrupts cleans up exactly when `socket` fails or none
of the calls does. And in every run of the tasks in which `bind`, `listen` and `accept` do not fail,
`socket_init` returns `-1` only with the descriptor reset and nothing left open, and a connection is
reported as active only when one has been accepted and handed to the loop. -/
theorem socket_init_cleans_up (inputs : List DriverInput) :
    (∀ (s s' : Driver) (c : SocketCalls), s.maintainer = .reset → s.socketInit c = some s' →
      (CleansUp s s' ↔ c.FailsEarly)) ∧
    ((handoverDriver.AllSteps inputs fun _ s i _ _ => CallSucceeds s.1 i) →
      handoverDriver.AllSteps inputs fun _ s _ s' o => SocketLaw s s' o) := by
  refine ⟨fun s s' c hs h => socketInit_cleansUp_iff hs h, fun hC => ?_⟩
  have hstep : ∀ {t i t' o}, SocketInv t → CallSucceeds t.1 i →
      handoverDriver.step t i = some (t', o) → SocketInv t' ∧ driver.step t.1 i = some (t'.1, o) := by
    intro t i t' o hs hc h
    obtain ⟨r, hr, heq⟩ := Option.map_eq_some_iff.mp h
    cases heq
    refine ⟨?_, hr⟩
    simp only [driver] at hr
    split_ifs at hr
    cases i with
    | maintain ret => exact hs.maintain hc hr
    | loop handle line => exact hs.loop hr
  have hinit : SocketInv handoverDriver.init := by
    refine ⟨fun h => absurd rfl h, ?_, ?_⟩ <;> simp [handoverDriver, Machine.observe, driver]
  refine hC.mono_inv (I := fun _ s => SocketInv s) hinit
    (fun _ _ _ _ _ hs hc h => (hstep hs hc h).1) fun _ _ _ _ _ hs hc h => ?_
  obtain ⟨hs', hdriver⟩ := hstep hs hc h
  exact hs.law hs' hdriver

/-- The maintainer creates the loop with the given handle, which gives the semaphore, and comes to the
calls in `socket_init`. -/
def toSocketInit (handle : ℕ) : List DriverInput :=
  List.replicate 4 (.maintain (.ok 0)) ++ [.loop handle none, .maintain (.ok 0), .maintain (.ok 0)]

/-- `socket` fails, and then all calls succeed, and the connection is reported as active. -/
def socketFailsOnce : List DriverInput :=
  toSocketInit 0 ++ [.maintain (.error 23), .maintain (.ok 0), .loop 0 none, .loop 0 none] ++
    toSocketInit 1 ++
    [.maintain (.ok 54), .maintain (.ok 0), .maintain (.ok 0), .maintain (.ok 55)] ++
    List.replicate 2 (.maintain (.ok 0))

theorem socket_init_cleans_up_once :
    ((handoverDriver.run handoverDriver.init socketFailsOnce).map fun r =>
        r.2.contains (.log .info "Console socket connection active")) = some true ∧
      handoverDriver.AllSteps socketFailsOnce fun _ s _ s' o => SocketLaw s s' o :=
  ⟨by decide +kernel, (socket_init_cleans_up socketFailsOnce).2 (by decide +kernel)⟩

/-- `bind` fails: the port is in use. -/
def bindFails : List DriverInput :=
  toSocketInit 0 ++ [.maintain (.ok 54), .maintain (.error 112), .maintain (.ok 0), .maintain (.ok 0)]

/-- `socket_init` has returned `-1` with the descriptor 54 stored and open, and the connection is
reported as active. -/
theorem bind_failure_left_open :
    ¬ handoverDriver.AllSteps bindFails fun _ s _ s' o => SocketLaw s s' o := by
  intro h
  have hactive : handoverDriver.AllSteps bindFails fun _ s _ s' o =>
      s'.1.maintainer = .send (-1) → s'.1.socket_fd = -1 :=
    fun _ _ _ _ _ ho hfail => ((h _ _ _ _ _ ho).cleansUp hfail).1
  revert hactive
  decide +kernel

end PartLib.TcpConsole
