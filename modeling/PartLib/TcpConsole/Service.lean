import PartLib.TcpConsole.Ownership
import PartLib.Lib.Reaches
import Mathlib.Data.Fintype.EquivFin

/-!
# Whether the console can serve again

A session ends with `tcp_console_socket_deinit`, and the maintainer opens the next one. A call that
fails on the way does not lead back: after `bind`, `listen` or `accept` the socket stays stored, so the
maintainer reports it as active and opens no other, while the loop waits for a descriptor that is never
sent; and after `xTaskCreate` the maintainer waits for a loop that is not there, because the handle of
the last one is still stored. So in a run that is otherwise undisturbed the console can serve another
client if and only if none of the four has failed (`can_serve_iff`).

The descriptors do not add up over the sessions: no more than two are open at a time, and none while
there is no loop (`descriptors_closed`).
-/

namespace PartLib.TcpConsole

/-! ## The phases -/

/-- The maintainer is at its test, or at the delay. -/
def MaintainerPc.Idle (m : MaintainerPc) : Prop := m.resting ∧ m ≠ .create

/-- The phases of the sessions in which no call has failed, each with the descriptors that are open:
there is no loop; one is being created; it has to give the semaphore, and has given it; the maintainer
opens the socket, uses it, and has accepted a connection, which it sends; the loop serves it; and it
closes the socket and the connection, and deletes itself. -/
inductive Working (s : Driver) : Prop
  | vacant (hm : s.maintainer.resting) (hl : s.loops = [])
      (hquiet : Quiet s.new_tcp s.new_client_queue) (hfd : s.socket_fd = -1) (hfds : s.fds = [])
  | adding {t : ℕ} (hm : s.maintainer = .adding t) (hl : s.loops = [])
      (ht : s.console_task = some t) (hquiet : Quiet s.new_tcp s.new_client_queue) (hfds : s.fds = [])
  | starting {t : ℕ} (hm : s.maintainer = .handle ∨ s.maintainer = .take)
      (hl : Solo s.loops s.console_task t .give) (hquiet : Quiet s.new_tcp s.new_client_queue)
      (hfds : s.fds = [])
  | ready {t : ℕ} (hm : s.maintainer = .handle ∨ s.maintainer = .take)
      (hl : Solo s.loops s.console_task t .receive) (htcp : s.new_tcp = true)
      (hq : s.new_client_queue = none) (hfds : s.fds = [])
  | opening {t : ℕ} (hm : s.maintainer = .reset ∨ s.maintainer = .socket)
      (hl : Solo s.loops s.console_task t .receive) (hquiet : Quiet s.new_tcp s.new_client_queue)
      (hfds : s.fds = [])
  | bound {t : ℕ} (hm : s.maintainer = .bind ∨ s.maintainer = .listen ∨ s.maintainer = .accept)
      (hl : Solo s.loops s.console_task t .receive) (hquiet : Quiet s.new_tcp s.new_client_queue)
      (hfd : s.socket_fd ≠ -1) (hfds : s.fds = [s.socket_fd])
  | accepted {t : ℕ} {fd : ℤ} (hm : s.maintainer = .send fd) (hne : fd ≠ -1)
      (hl : Solo s.loops s.console_task t .receive) (hquiet : Quiet s.new_tcp s.new_client_queue)
      (hfd : s.socket_fd ≠ -1) (hfds : s.fds = [fd, s.socket_fd])
  | sent {t : ℕ} {fd : ℤ} (hm : s.maintainer.Idle)
      (hl : Solo s.loops s.console_task t .receive) (htcp : s.new_tcp = false)
      (hq : s.new_client_queue = some fd) (hne : fd ≠ -1) (hfd : s.socket_fd ≠ -1)
      (hfds : s.fds = [fd, s.socket_fd])
  | serving {t : ℕ} {pc : LoopPc} (hm : s.maintainer.Idle)
      (hl : Solo s.loops s.console_task t pc)
      (hpc : pc = .test ∨ pc = .line ∨ pc = .close ∨ ∃ i, pc = .killing i)
      (hquiet : Quiet s.new_tcp s.new_client_queue) (hne : s.connection_fd ≠ -1)
      (hfd : s.socket_fd ≠ -1) (hfds : s.fds = [s.connection_fd, s.socket_fd])
  | closed {t : ℕ} (hm : s.maintainer.Idle)
      (hl : Solo s.loops s.console_task t .clearSocket) (hquiet : Quiet s.new_tcp s.new_client_queue)
      (hfd : s.socket_fd ≠ -1) (hfds : s.fds = [s.connection_fd])
  | closing {t : ℕ} {pc : LoopPc} (hm : s.maintainer.resting) (hl : Solo s.loops s.console_task t pc)
      (hpc : pc = .shutdown ∨ pc = .closeConnection) (hquiet : Quiet s.new_tcp s.new_client_queue)
      (hfd : s.socket_fd = -1) (hfds : s.fds = [s.connection_fd])
  | cleared {t : ℕ} {pc : LoopPc} (hm : s.maintainer.resting) (hl : Solo s.loops s.console_task t pc)
      (hpc : pc = .clearConnection ∨ pc = .delete ∨ pc = .deleting (some t))
      (hquiet : Quiet s.new_tcp s.new_client_queue) (hfd : s.socket_fd = -1) (hfds : s.fds = [])

/-- What is left after a call that has failed: the maintainer waits for a loop that is not there; or it
sends `-1`, with the socket stored; or it has sent that, and the loop has no connection. -/
inductive Dead (s : Driver) : Prop
  | waiting (hm : s.maintainer = .handle ∨ s.maintainer = .take) (hl : s.loops = [])
      (hquiet : Quiet s.new_tcp s.new_client_queue) (hfds : s.fds = [])
  | failed {t : ℕ} (hm : s.maintainer = .send (-1)) (hl : Solo s.loops s.console_task t .receive)
      (hquiet : Quiet s.new_tcp s.new_client_queue) (hfd : s.socket_fd ≠ -1)
      (hfds : s.fds = [s.socket_fd])
  | deaf {t : ℕ} {pc : LoopPc} (hm : s.maintainer.Idle)
      (hl : Solo s.loops s.console_task t pc) (htcp : s.new_tcp = false)
      (hq : pc = .receive ∧ (s.new_client_queue = none ∨ s.new_client_queue = some (-1)) ∨
        pc = .test ∧ s.new_client_queue = none ∧ s.connection_fd = -1)
      (hfd : s.socket_fd ≠ -1) (hfds : s.fds = [s.socket_fd])

/-- `xTaskCreate`, `bind`, `listen` or `accept` fails. -/
def Fails (s : Driver) : DriverInput → Prop
  | .maintain ret =>
    (s.maintainer = .create ∨ s.maintainer = .bind ∨ s.maintainer = .listen ∨
      s.maintainer = .accept) ∧ ret.isOk = false
  | .loop _ _ => False

instance (s : Driver) : DecidablePred (Fails s)
  | .maintain ret => inferInstanceAs (Decidable
      ((s.maintainer = .create ∨ s.maintainer = .bind ∨ s.maintainer = .listen ∨
        s.maintainer = .accept) ∧ ret.isOk = false))
  | .loop _ _ => .isFalse id

/-! ## One step -/

section

variable {s s' : Driver} {o : List DriverOut} {ret : Except ℕ ℕ} {handle : ℕ} {line : Option Command}

/-- With a socket, an idle maintainer stays idle. -/
theorem Driver.maintain_idle (hm : s.maintainer.Idle) (hfd : s.socket_fd ≠ -1)
    (h : s.maintain ret = some (s', o)) : ∃ m : MaintainerPc, m.Idle ∧ s' = { s with maintainer := m } := by
  obtain ⟨m, hm', hcreate, rfl⟩ | ⟨hcreate, -⟩ := Driver.maintain_resting hm.1 h
  · exact ⟨m, ⟨hm', fun he => hfd (hcreate he)⟩, rfl⟩
  · exact absurd hcreate hm.2

/-- An idle maintainer makes no call that can fail. -/
theorem MaintainerPc.Idle.not_fails (hm : s.maintainer.Idle) : ¬ Fails s (.maintain ret) := by
  obtain ⟨hrest, hne⟩ := hm
  cases hpc : s.maintainer <;> simp [Fails, hpc, resting] at hrest hne ⊢

/-- While the loop closes, an undisturbed maintainer is at rest. -/
theorem Driver.maintain_closing {t : ℕ} {pc : LoopPc} (hm : s.maintainer.resting)
    (hl : Solo s.loops s.console_task t pc) (hpc : pc.closing) (hc : Undisturbed s (.maintain ret))
    (h : s.maintain ret = some (s', o)) :
    ∃ m : MaintainerPc, m.resting ∧ s' = { s with maintainer := m } ∧ ¬ Fails s (.maintain ret) := by
  have hcreate : s.maintainer ≠ .create := by
    intro hcreate
    simp [Undisturbed, hcreate, hl.loops, hpc] at hc
  obtain ⟨m, hm', -, rfl⟩ | ⟨he, -⟩ := Driver.maintain_resting hm h
  · exact ⟨m, hm', rfl, MaintainerPc.Idle.not_fails ⟨hm, hcreate⟩⟩
  · exact absurd he hcreate

/-- The next statement of the maintainer leads to the next phase, unless its call fails. -/
theorem Working.maintain (hs : Working s) (hc : Undisturbed s (.maintain ret))
    (h : s.maintain ret = some (s', o)) :
    (Fails s (.maintain ret) → Dead s') ∧ (¬ Fails s (.maintain ret) → Working s') := by
  cases hs with
  | vacant hm hl hquiet hfd hfds =>
    cases hpc : s.maintainer with
    | check =>
      simp only [Driver.maintain, hpc, if_pos hfd] at h
      cases h
      exact ⟨by simp [Fails, hpc], fun _ => .vacant rfl hl hquiet hfd hfds⟩
    | create =>
      simp only [Driver.maintain, hpc] at h
      cases ret with
      | ok n =>
        cases h
        exact ⟨by simp [Fails, hpc, Except.isOk, Except.toBool], fun _ => .adding rfl hl rfl hquiet hfds⟩
      | error errno =>
        cases h
        exact ⟨fun _ => .waiting (.inl rfl) hl hquiet hfds,
          fun hok => absurd (by simp [Fails, hpc, Except.isOk, Except.toBool]) hok⟩
    | delay =>
      simp only [Driver.maintain, hpc] at h
      cases h
      exact ⟨by simp [Fails, hpc], fun _ => .vacant rfl hl hquiet hfd hfds⟩
    | _ =>
      rw [hpc] at hm
      cases hm
  | adding hm hl ht hquiet hfds =>
    simp only [Driver.maintain, hm] at h
    cases h
    refine ⟨by simp [Fails, hm], fun _ => .starting (.inl rfl) ⟨?_, ht⟩ hquiet hfds⟩
    rw [hl, List.nil_append]
  | starting hm hl hquiet hfds =>
    rcases hm with hm | hm
    · simp only [Driver.maintain, hm, hl.console_task, reduceCtorEq, if_false] at h
      cases h
      exact ⟨by simp [Fails, hm], fun _ => .starting (.inr rfl) ⟨hl.loops, rfl⟩ hquiet hfds⟩
    · simp [Driver.maintain, hm, hquiet.new_tcp] at h
  | ready hm hl htcp hq hfds =>
    rcases hm with hm | hm
    · simp only [Driver.maintain, hm, hl.console_task, reduceCtorEq, if_false] at h
      cases h
      exact ⟨by simp [Fails, hm], fun _ => .ready (.inr rfl) ⟨hl.loops, rfl⟩ htcp hq hfds⟩
    · simp only [Driver.maintain, hm, htcp, if_true] at h
      cases h
      exact ⟨by simp [Fails, hm], fun _ => .opening (.inl rfl) hl ⟨rfl, hq⟩ hfds⟩
  | opening hm hl hquiet hfds =>
    rcases hm with hm | hm
    · simp only [Driver.maintain, hm] at h
      cases h
      exact ⟨by simp [Fails, hm], fun _ => .opening (.inr rfl) hl hquiet hfds⟩
    · cases ret with
      | ok fd =>
        simp only [Driver.maintain, hm, hfds, List.not_mem_nil, if_false] at h
        cases h
        refine ⟨by simp [Fails, hm], fun _ => .bound (.inl rfl) hl hquiet ?_ rfl⟩
        dsimp only
        omega
      | error errno => simp [Undisturbed, hm, Except.isOk, Except.toBool] at hc
  | bound hm hl hquiet hfd hfds =>
    cases ret with
    | ok fd =>
      rcases hm with hm | hm | hm <;> simp only [Driver.maintain, hm] at h
      · cases h
        exact ⟨by simp [Fails, hm, Except.isOk, Except.toBool],
          fun _ => .bound (.inr (.inl rfl)) hl hquiet hfd hfds⟩
      · cases h
        exact ⟨by simp [Fails, hm, Except.isOk, Except.toBool],
          fun _ => .bound (.inr (.inr rfl)) hl hquiet hfd hfds⟩
      · split_ifs at h
        cases h
        refine ⟨by simp [Fails, hm, Except.isOk, Except.toBool],
          fun _ => .accepted rfl (by omega) hl hquiet hfd ?_⟩
        rw [hfds]
    | error errno =>
      have hf : Fails s (.maintain (.error errno)) := by
        rcases hm with hm | hm | hm <;> simp [Fails, hm, Except.isOk, Except.toBool]
      refine ⟨fun _ => ?_, fun hok => absurd hf hok⟩
      rcases hm with hm | hm | hm <;> simp only [Driver.maintain, hm] at h <;> cases h <;>
        exact .failed rfl hl hquiet hfd hfds
  | accepted hm hne hl hquiet hfd hfds =>
    simp only [Driver.maintain, hm, hquiet.queue, if_true] at h
    cases h
    exact ⟨by simp [Fails, hm], fun _ => .sent ⟨rfl, by simp⟩ hl hquiet.new_tcp rfl hne hfd hfds⟩
  | sent hm hl htcp hq hne hfd hfds =>
    obtain ⟨m, hm', rfl⟩ := Driver.maintain_idle hm hfd h
    exact ⟨fun hf => absurd hf hm.not_fails, fun _ => .sent hm' hl htcp hq hne hfd hfds⟩
  | serving hm hl hpc hquiet hne hfd hfds =>
    obtain ⟨m, hm', rfl⟩ := Driver.maintain_idle hm hfd h
    exact ⟨fun hf => absurd hf hm.not_fails, fun _ => .serving hm' hl hpc hquiet hne hfd hfds⟩
  | closed hm hl hquiet hfd hfds =>
    obtain ⟨m, hm', rfl⟩ := Driver.maintain_idle hm hfd h
    exact ⟨fun hf => absurd hf hm.not_fails, fun _ => .closed hm' hl hquiet hfd hfds⟩
  | @closing t pc hm hl hpc hquiet hfd hfds =>
    have hclosing : pc.closing := by rcases hpc with rfl | rfl <;> rfl
    obtain ⟨m, hm', rfl, hok⟩ := Driver.maintain_closing hm hl hclosing hc h
    exact ⟨fun hf => absurd hf hok, fun _ => .closing hm' hl hpc hquiet hfd hfds⟩
  | @cleared t pc hm hl hpc hquiet hfd hfds =>
    have hclosing : pc.closing := by rcases hpc with rfl | rfl | rfl <;> rfl
    obtain ⟨m, hm', rfl, hok⟩ := Driver.maintain_closing hm hl hclosing hc h
    exact ⟨fun hf => absurd hf hok, fun _ => .cleared hm' hl hpc hquiet hfd hfds⟩

/-- The next statement of the loop leads to the next phase. -/
theorem Working.loop (hs : Working s) (h : s.loop handle line = some (s', o)) : Working s' := by
  have hnone : s.loops ≠ [] := by
    intro hl
    simp [Driver.loop, Driver.pcOf, hl] at h
  cases hs with
  | vacant _ hl => exact absurd hl hnone
  | adding _ hl => exact absurd hl hnone
  | starting hm hl hquiet hfds =>
    obtain rfl := hl.eq_of_loop h
    simp only [Driver.loop, hl.pcOf, if_true, Option.bind_some, hquiet.new_tcp, Bool.false_eq_true,
      if_false] at h
    cases h
    exact .ready hm hl.goto rfl hquiet.queue hfds
  | ready hm hl htcp hq hfds =>
    obtain rfl := hl.eq_of_loop h
    simp [Driver.loop, hl.pcOf, hq] at h
  | opening hm hl hquiet =>
    obtain rfl := hl.eq_of_loop h
    simp [Driver.loop, hl.pcOf, hquiet.queue] at h
  | bound hm hl hquiet =>
    obtain rfl := hl.eq_of_loop h
    simp [Driver.loop, hl.pcOf, hquiet.queue] at h
  | accepted hm hne hl hquiet =>
    obtain rfl := hl.eq_of_loop h
    simp [Driver.loop, hl.pcOf, hquiet.queue] at h
  | sent hm hl htcp hq hne hfd hfds =>
    obtain rfl := hl.eq_of_loop h
    simp only [Driver.loop, hl.pcOf, if_true, Option.bind_some, hq, Option.map_some] at h
    cases h
    exact .serving hm hl.goto (.inl rfl) ⟨htcp, rfl⟩ hne hfd hfds
  | serving hm hl hpc hquiet hne hfd hfds =>
    obtain rfl := hl.eq_of_loop h
    simp only [Driver.loop, hl.pcOf, if_true, Option.bind_some] at h
    rcases hpc with rfl | rfl | rfl | ⟨i, rfl⟩ <;> dsimp only at h
    · rw [if_neg hne] at h
      cases h
      exact .serving hm hl.goto (.inr (.inl rfl)) hquiet hne hfd hfds
    · split at h <;> cases h
      · exact .serving hm hl.goto (.inr (.inr (.inr ⟨0, rfl⟩))) hquiet hne hfd hfds
      · exact .serving hm hl.goto (.inl rfl) hquiet hne hfd hfds
    · cases h
      refine .closed hm hl.goto hquiet hfd ?_
      -- The socket is closed, and the connection stays open.
      simp only [Driver.goto, hfds]
      by_cases hsame : s.connection_fd = s.socket_fd
      · simp [hsame]
      · simp [hsame]
    · split_ifs at h <;> cases h
      · exact .serving hm hl.goto (.inr (.inr (.inr ⟨i + 1, rfl⟩))) hquiet hne hfd hfds
      · exact .serving hm hl.goto (.inr (.inr (.inl rfl))) hquiet hne hfd hfds
  | closed hm hl hquiet hfd hfds =>
    obtain rfl := hl.eq_of_loop h
    simp only [Driver.loop, hl.pcOf, if_true, Option.bind_some] at h
    cases h
    exact .closing hm.1 hl.goto (.inl rfl) hquiet rfl hfds
  | closing hm hl hpc hquiet hfd hfds =>
    obtain rfl := hl.eq_of_loop h
    simp only [Driver.loop, hl.pcOf, if_true, Option.bind_some] at h
    rcases hpc with rfl | rfl <;> cases h
    · exact .closing hm hl.goto (.inr rfl) hquiet hfd hfds
    · refine .cleared hm hl.goto (.inl rfl) hquiet hfd ?_
      simp [Driver.goto, hfds]
  | cleared hm hl hpc hquiet hfd hfds =>
    obtain rfl := hl.eq_of_loop h
    simp only [Driver.loop, hl.pcOf, if_true, Option.bind_some] at h
    rcases hpc with rfl | rfl | rfl <;> cases h
    · exact .cleared hm hl.goto (.inr (.inl rfl)) hquiet hfd hfds
    · exact .cleared hm hl.goto (.inr (.inr (by rw [hl.console_task]))) hquiet hfd hfds
    · refine .vacant hm ?_ hquiet hfd hfds
      simp [Driver.taskDelete, Driver.goto, hl.loops]

/-- The next statement leads to the next phase, unless its call fails. -/
theorem Working.step {i : DriverInput} (hs : Working s) (hc : Undisturbed s i)
    (h : driver.step s i = some (s', o)) : (Fails s i → Dead s') ∧ (¬ Fails s i → Working s') := by
  simp only [driver] at h
  split_ifs at h
  cases i with
  | maintain ret => exact hs.maintain hc h
  | loop handle line => exact ⟨False.elim, fun _ => hs.loop h⟩

/-- Whatever moves, a console that is dead stays so. -/
theorem Dead.step {i : DriverInput} (hs : Dead s) (h : driver.step s i = some (s', o)) : Dead s' := by
  simp only [driver] at h
  split_ifs at h
  cases hs with
  | waiting hm hl hquiet hfds =>
    cases i with
    | maintain ret =>
      rcases hm with hm | hm
      · simp only [Driver.maintain, hm] at h
        split_ifs at h <;> cases h
        · exact .waiting (.inl rfl) hl hquiet hfds
        · exact .waiting (.inr rfl) hl hquiet hfds
      · simp [Driver.maintain, hm, hquiet.new_tcp] at h
    | loop handle line => simp [Driver.loop, Driver.pcOf, hl] at h
  | failed hm hl hquiet hfd hfds =>
    cases i with
    | maintain ret =>
      simp only [Driver.maintain, hm, hquiet.queue, if_true] at h
      cases h
      exact .deaf ⟨rfl, by simp⟩ hl hquiet.new_tcp (.inl ⟨rfl, .inr rfl⟩) hfd hfds
    | loop handle line =>
      obtain rfl := hl.eq_of_loop h
      simp [Driver.loop, hl.pcOf, hquiet.queue] at h
  | deaf hm hl htcp hq hfd hfds =>
    cases i with
    | maintain ret =>
      obtain ⟨m, hm', rfl⟩ := Driver.maintain_idle hm hfd h
      exact .deaf hm' hl htcp hq hfd hfds
    | loop handle line =>
      obtain rfl := hl.eq_of_loop h
      simp only [Driver.loop, hl.pcOf, if_true, Option.bind_some] at h
      rcases hq with ⟨rfl, hq | hq⟩ | ⟨rfl, hq, hconn⟩
      · simp [hq] at h
      · simp only [hq, Option.map_some] at h
        cases h
        exact .deaf hm hl.goto htcp (.inr ⟨rfl, rfl, rfl⟩) hfd hfds
      · simp only [hconn, if_true] at h
        cases h
        exact .deaf hm hl.goto htcp (.inl ⟨rfl, .inl hq⟩) hfd hfds

/-- The program is not stopped. -/
theorem Working.not_stopped {i : DriverInput} (hs : Working s) (h : driver.step s i = some (s', o)) :
    s'.stopped = false := by
  simp only [driver] at h
  split_ifs at h with hstopped
  have hfalse : s.stopped = false := by simpa using hstopped
  cases i with
  | maintain ret =>
    have hhandle : s.maintainer = .handle → s.console_task ≠ none := by
      intro hm hnone
      cases hs with
      | starting _ hl => simp [hl.console_task] at hnone
      | ready _ hl => simp [hl.console_task] at hnone
      | vacant hm' | sent hm' | serving hm' | closed hm' | closing hm' | cleared hm' =>
        simp [hm, MaintainerPc.Idle, MaintainerPc.resting] at hm'
      | adding hm' | opening hm' | bound hm' | accepted hm' => simp [hm] at hm'
    cases hpc : s.maintainer <;> simp only [Driver.maintain, hpc] at h
    all_goals grind [Driver.fail]
  | loop handle line =>
    have hgive : s.pcOf handle = some .give → s.new_tcp = false := by
      intro hgive
      cases hs with
      | ready _ hl => simp [hl.pcOf] at hgive
      | sent _ _ htcp => exact htcp
      | vacant _ _ hquiet | adding _ _ _ hquiet | starting _ _ hquiet | opening _ _ hquiet
      | bound _ _ hquiet | accepted _ _ _ hquiet | serving _ _ _ hquiet | closed _ _ hquiet
      | closing _ _ _ hquiet | cleared _ _ _ hquiet => exact hquiet.new_tcp
    obtain ⟨pc, hpc, h⟩ := Option.bind_eq_some_iff.mp h
    cases pc with
    | give =>
      simp only [hgive hpc, Bool.false_eq_true, if_false] at h
      cases h
      exact hfalse
    | receive =>
      obtain ⟨fd, -, he⟩ := Option.map_eq_some_iff.mp h
      cases he
      exact hfalse
    | _ =>
      dsimp only at h
      grind [Driver.goto, Driver.taskDelete]

end

/-! ## The way to the next client -/

/-- How far the maintainer is from sending a descriptor. -/
def MaintainerPc.rank : MaintainerPc → ℕ
  | .delay => 23
  | .check => 22
  | .create => 21
  | .adding _ => 20
  | .handle => 18
  | .take => 17
  | .reset => 16
  | .socket => 15
  | .bind => 14
  | .listen => 13
  | .accept => 12
  | .send _ => 11

/-- How far the console is from taking a command line of a client. -/
def Driver.rank (s : Driver) : ℕ :=
  match s.loops with
  | [] => s.maintainer.rank
  | t :: _ =>
    match t.pc with
    | .give => 19
    | .receive => if s.new_client_queue.isSome then 2 else s.maintainer.rank
    | .test => 1
    | .line => 0
    | .killing i => 40 + (3 - i)
    | .close => 39
    | .clearSocket => 38
    | .shutdown => 37
    | .closeConnection => 36
    | .clearConnection => 35
    | .delete => 34
    | .deleting _ => 33

/-- A command line is taken from a client. -/
def Serves (s : Driver) : Prop := ∃ t ∈ s.loops, t.pc = .line

/-- A descriptor that is not open. -/
theorem exists_fd (fds : List ℤ) : ∃ fd : ℕ, (fd : ℤ) ∉ fds := by
  obtain ⟨fd, hfd⟩ := Infinite.exists_notMem_finset (fds.map Int.toNat).toFinset
  refine ⟨fd, fun hmem => hfd ?_⟩
  rw [List.mem_toFinset, List.mem_map]
  exact ⟨fd, hmem, Int.toNat_natCast fd⟩

section

variable {s : Driver}

/-- An undisturbed step, in which nothing fails, brings the console closer to a client. -/
def Closer (s : Driver) : Prop :=
  ∃ i s' o, driver.step s i = some (s', o) ∧ Undisturbed s i ∧ ¬ Fails s i ∧ s'.rank < s.rank

/-- The maintainer can move, with a call that does not fail. -/
theorem progress_maintain {s' : Driver} {o : List DriverOut} {n : ℕ} (hstopped : s.stopped = false)
    (hcreate : s.maintainer = .create → s.loops = []) (h : s.maintain (.ok n) = some (s', o))
    (hrank : s'.rank < s.rank) : Closer s := by
  refine ⟨.maintain (.ok n), s', o, ?_, ?_, ?_, hrank⟩
  · simp only [driver, hstopped, Bool.false_eq_true, if_false]
    exact h
  · cases hm : s.maintainer with
    | create => simp [Undisturbed, hm, hcreate hm]
    | socket => simp [Undisturbed, hm, Except.isOk, Except.toBool]
    | _ => simp [Undisturbed, hm]
  · cases hm : s.maintainer <;> simp [Fails, hm, Except.isOk, Except.toBool]

/-- The loop can move. -/
theorem progress_loop {s' : Driver} {o : List DriverOut} {t : ℕ} (hstopped : s.stopped = false)
    (h : s.loop t none = some (s', o)) (hrank : s'.rank < s.rank) : Closer s := by
  refine ⟨.loop t none, s', o, ?_, trivial, id, hrank⟩
  simp only [driver, hstopped, Bool.false_eq_true, if_false]
  exact h

/-- A console that works, and does not serve a client, comes closer to that. -/
theorem Working.progress (hs : Working s) (hstopped : s.stopped = false) (hserves : ¬ Serves s) :
    Closer s := by
  cases hs with
  | vacant hm hl hquiet hfd hfds =>
    cases hpc : s.maintainer with
    | check =>
      refine progress_maintain (n := 0) hstopped (fun _ => hl)
        (by simp only [Driver.maintain, hpc, if_pos hfd]; rfl) ?_
      simp [Driver.rank, hl, hpc, MaintainerPc.rank]
    | create =>
      refine progress_maintain (n := 0) hstopped (fun _ => hl)
        (by simp only [Driver.maintain, hpc]; rfl) ?_
      simp [Driver.rank, hl, hpc, MaintainerPc.rank]
    | delay =>
      refine progress_maintain (n := 0) hstopped (fun _ => hl)
        (by simp only [Driver.maintain, hpc]; rfl) ?_
      simp [Driver.rank, hl, hpc, MaintainerPc.rank]
    | _ =>
      rw [hpc] at hm
      cases hm
  | adding hm hl ht hquiet hfds =>
    refine progress_maintain (n := 0) hstopped (fun _ => hl)
      (by simp only [Driver.maintain, hm]; rfl) ?_
    simp [Driver.rank, hl, hm, MaintainerPc.rank]
  | @starting t hm hl hquiet hfds =>
    refine progress_loop (t := t) hstopped (by
      simp only [Driver.loop, hl.pcOf, if_true, Option.bind_some, hquiet.new_tcp]
      rfl) ?_
    rcases hm with hm | hm <;>
      simp [Driver.rank, Driver.goto, hl.loops, hquiet.queue, hm, MaintainerPc.rank]
  | ready hm hl htcp hq hfds =>
    rcases hm with hm | hm
    · refine progress_maintain (n := 0) hstopped (by simp [hm])
        (by simp only [Driver.maintain, hm, hl.console_task]; rfl) ?_
      simp [Driver.rank, hl.loops, hq, hm, MaintainerPc.rank]
    · refine progress_maintain (n := 0) hstopped (by simp [hm])
        (by simp only [Driver.maintain, hm, htcp]; rfl) ?_
      simp [Driver.rank, hl.loops, hq, hm, MaintainerPc.rank]
  | opening hm hl hquiet hfds =>
    rcases hm with hm | hm
    · refine progress_maintain (n := 0) hstopped (by simp [hm])
        (by simp only [Driver.maintain, hm]; rfl) ?_
      simp [Driver.rank, hl.loops, hquiet.queue, hm, MaintainerPc.rank]
    · refine progress_maintain (n := 0) hstopped (by simp [hm])
        (by simp only [Driver.maintain, hm, hfds, List.not_mem_nil, if_false]; rfl) ?_
      simp [Driver.rank, hl.loops, hquiet.queue, hm, MaintainerPc.rank]
  | bound hm hl hquiet hfd hfds =>
    rcases hm with hm | hm | hm
    · refine progress_maintain (n := 0) hstopped (by simp [hm])
        (by simp only [Driver.maintain, hm]; rfl) ?_
      simp [Driver.rank, hl.loops, hquiet.queue, hm, MaintainerPc.rank]
    · refine progress_maintain (n := 0) hstopped (by simp [hm])
        (by simp only [Driver.maintain, hm]; rfl) ?_
      simp [Driver.rank, hl.loops, hquiet.queue, hm, MaintainerPc.rank]
    · obtain ⟨fd, hfresh⟩ := exists_fd s.fds
      refine progress_maintain (n := fd) hstopped (by simp [hm])
        (by simp only [Driver.maintain, hm, if_neg hfresh]; rfl) ?_
      simp [Driver.rank, hl.loops, hquiet.queue, hm, MaintainerPc.rank]
  | accepted hm hne hl hquiet hfd hfds =>
    refine progress_maintain (n := 0) hstopped (by simp [hm])
      (by simp only [Driver.maintain, hm, hquiet.queue, if_true]; rfl) ?_
    simp [Driver.rank, hl.loops, hquiet.queue, hm, MaintainerPc.rank]
  | @sent t fd hm hl htcp hq hne hfd hfds =>
    refine progress_loop (t := t) hstopped (by
      simp only [Driver.loop, hl.pcOf, if_true, Option.bind_some, hq]
      rfl) ?_
    simp [Driver.rank, Driver.goto, hl.loops, hq]
  | @serving t pc hm hl hpc hquiet hne hfd hfds =>
    rcases hpc with rfl | rfl | rfl | ⟨i, rfl⟩
    · refine progress_loop (t := t) hstopped (by
        simp only [Driver.loop, hl.pcOf, if_true, Option.bind_some, if_neg hne]
        rfl) ?_
      simp [Driver.rank, Driver.goto, hl.loops]
    · exact absurd ⟨_, by rw [hl.loops]; exact List.mem_cons_self, rfl⟩ hserves
    · refine progress_loop (t := t) hstopped (by
        simp only [Driver.loop, hl.pcOf, if_true, Option.bind_some]
        rfl) ?_
      simp [Driver.rank, Driver.goto, hl.loops]
    · by_cases hi : i < 3
      · refine progress_loop (t := t) hstopped (by
          simp only [Driver.loop, hl.pcOf, if_true, Option.bind_some, if_pos hi]
          rfl) ?_
        simp only [Driver.rank, Driver.goto, hl.loops, List.map_cons, if_true]
        omega
      · refine progress_loop (t := t) hstopped (by
          simp only [Driver.loop, hl.pcOf, if_true, Option.bind_some, if_neg hi]
          rfl) ?_
        simp only [Driver.rank, Driver.goto, hl.loops, List.map_cons, if_true]
        omega
  | @closed t hm hl hquiet hfd hfds =>
    refine progress_loop (t := t) hstopped (by
      simp only [Driver.loop, hl.pcOf, if_true, Option.bind_some]
      rfl) ?_
    simp [Driver.rank, Driver.goto, hl.loops]
  | @closing t pc hm hl hpc hquiet hfd hfds =>
    rcases hpc with rfl | rfl
    all_goals
      refine progress_loop (t := t) hstopped (by
        simp only [Driver.loop, hl.pcOf, if_true, Option.bind_some]
        rfl) ?_
      simp [Driver.rank, Driver.goto, hl.loops]
  | @cleared t pc hm hl hpc hquiet hfd hfds =>
    rcases hpc with rfl | rfl | rfl
    · refine progress_loop (t := t) hstopped (by
        simp only [Driver.loop, hl.pcOf, if_true, Option.bind_some]
        rfl) ?_
      simp [Driver.rank, Driver.goto, hl.loops]
    · refine progress_loop (t := t) hstopped (by
        simp only [Driver.loop, hl.pcOf, if_true, Option.bind_some]
        rfl) ?_
      simp [Driver.rank, Driver.goto, hl.loops]
    · refine progress_loop (t := t) hstopped (by
        simp only [Driver.loop, hl.pcOf, if_true, Option.bind_some]
        rfl) ?_
      -- The loop is gone, and the maintainer is at rest.
      have hrank : s.maintainer.rank ≤ 23 := by
        cases s.maintainer <;> simp [MaintainerPc.rank]
      simp [Driver.rank, Driver.goto, Driver.taskDelete, hl.loops]
      omega

/-- A console that works can serve a client. -/
theorem Working.reaches (n : ℕ) : ∀ {s : Driver}, Working s → s.stopped = false → s.rank = n →
    ∃ t, driver.Reaches s t ∧ Serves t := by
  induction n using Nat.strong_induction_on with
  | _ n ih =>
    intro s hs hstopped hn
    by_cases hserves : Serves s
    · exact ⟨s, .refl s, hserves⟩
    · obtain ⟨i, s', o, hstep, hc, hok, hrank⟩ := hs.progress hstopped hserves
      obtain ⟨t, hreach, ht⟩ := ih s'.rank (hn ▸ hrank) ((hs.step hc hstep).2 hok)
        (hs.not_stopped hstep) rfl
      exact ⟨t, .head hstep hreach, ht⟩

/-- A console that is dead serves no client. -/
theorem Dead.not_serves (hs : Dead s) : ¬ Serves s := by
  rintro ⟨t, ht, hpc⟩
  cases hs with
  | waiting _ hl => simp [hl] at ht
  | failed _ hl =>
    rw [hl.loops, List.mem_singleton] at ht
    rw [ht] at hpc
    cases hpc
  | deaf _ hl _ hq =>
    rw [hl.loops, List.mem_singleton] at ht
    rw [ht] at hpc
    rcases hq with ⟨rfl, -⟩ | ⟨rfl, -⟩ <;> cases hpc

end

/-! ## Every run -/

section

variable {s : Driver}

/-- At the start the console works. -/
theorem working_init : Working driver.init := .vacant rfl rfl ⟨rfl, rfl⟩ rfl rfl

/-- A console that works is broken by the calls that fail, and by nothing else. -/
theorem driver_breaks : driver.Breaks (fun _ s i _ _ => Undisturbed s i) Fails
    (fun s => Working s ∧ s.stopped = false) Dead where
  init := ⟨working_init, rfl⟩
  good _ _ _ _ _ hs hc hi := ⟨(hs.1.step hc hi).1, fun hok => ⟨(hs.1.step hc hi).2 hok, hs.1.not_stopped hi⟩⟩
  bad _ _ _ _ hs hi := hs.step hi

/-- After an undisturbed run, the console can still serve a client, however the run goes on, if and only
if no `xTaskCreate`, `bind`, `listen` or `accept` has failed in it. -/
theorem can_serve_iff {inputs : List DriverInput} {os : List DriverOut}
    (hC : driver.AllSteps inputs fun _ s i _ _ => Undisturbed s i)
    (hrun : driver.run driver.init inputs = some (s, os)) :
    (∃ t, driver.Reaches s t ∧ Serves t) ↔ driver.AllSteps inputs fun _ s i _ _ => ¬ Fails s i := by
  have hworking : ∀ s, Working s ∧ s.stopped = false → ∃ t, driver.Reaches s t ∧ Serves t :=
    fun _ hs => hs.1.reaches _ hs.2 rfl
  have hdead : ∀ s, Dead s → ¬ Serves s := fun _ hs => hs.not_serves
  exact driver_breaks.reaches_iff hworking hdead hC hrun

/-- `bind` fails. -/
def bindFailed : List DriverInput :=
  List.replicate 4 (.maintain (.ok 0)) ++ [.loop 0 none] ++ List.replicate 3 (.maintain (.ok 0)) ++
    [.maintain (.error 112)]

/-- After a session that has ended, the console can serve the next client, and after a failure of
`bind` it can serve none. -/
theorem can_serve_iff_one_session :
    (∃ s os, driver.run driver.init (closingSession ++ List.replicate 5 (.loop 0 none)) = some (s, os) ∧
      ∃ t, driver.Reaches s t ∧ Serves t) ∧
    ∃ s os, driver.run driver.init bindFailed = some (s, os) ∧ ¬ ∃ t, driver.Reaches s t ∧ Serves t := by
  refine ⟨⟨_, _, rfl, ?_⟩, _, _, rfl, ?_⟩
  · refine (@can_serve_iff _ (closingSession ++ List.replicate 5 (.loop 0 none)) _ ?_ rfl).mpr ?_
    · decide +kernel
    · decide +kernel
  · rw [@can_serve_iff _ bindFailed _ (by decide +kernel) rfl]
    decide +kernel

/-- What is open in a phase. -/
theorem Working.fds_le (hs : Working s) : s.fds.length ≤ 2 ∧ (s.loops = [] → s.fds = []) := by
  cases hs with
  | vacant _ _ _ _ hfds | adding _ _ _ _ hfds | starting _ _ _ hfds | ready _ _ _ _ hfds
  | opening _ _ _ hfds | cleared _ _ _ _ _ hfds => simp [hfds]
  | bound _ hl _ _ hfds | accepted _ _ hl _ _ hfds | sent _ hl _ _ _ _ hfds
  | serving _ hl _ _ _ _ hfds | closed _ hl _ _ hfds | closing _ hl _ _ _ hfds =>
    simp [hfds, hl.loops]

/-- What is open in a console that is dead. -/
theorem Dead.fds_le (hs : Dead s) : s.fds.length ≤ 2 ∧ (s.loops = [] → s.fds = []) := by
  cases hs with
  | waiting _ _ _ hfds => simp [hfds]
  | failed _ hl _ _ hfds => simp [hfds, hl.loops]
  | deaf _ hl _ _ _ hfds => simp [hfds, hl.loops]

/-- In every undisturbed run no more than two descriptors are open at a time, and none while there is no
loop. -/
theorem descriptors_closed {inputs : List DriverInput}
    (hC : driver.AllSteps inputs fun _ s i _ _ => Undisturbed s i) :
    driver.AllSteps inputs fun _ _ _ s' _ =>
      s'.fds.length ≤ 2 ∧ (s'.loops = [] → s'.fds = []) := by
  have hstep : ∀ {s i s' o}, Working s ∨ Dead s → Undisturbed s i → driver.step s i = some (s', o) →
      Working s' ∨ Dead s' := by
    intro s i s' o hs hc hi
    rcases hs with hs | hs
    · by_cases hf : Fails s i
      · exact .inr ((hs.step hc hi).1 hf)
      · exact .inl ((hs.step hc hi).2 hf)
    · exact .inr (hs.step hi)
  refine hC.mono_inv (I := fun _ s => Working s ∨ Dead s) (.inl working_init)
    (fun _ _ _ _ _ hs hc hi => hstep hs hc hi) fun _ _ _ _ _ hs hc hi => ?_
  rcases hstep hs hc hi with hs' | hs'
  · exact hs'.fds_le
  · exact hs'.fds_le

/-- A session, at whose end nothing is open, and a failure of `bind`. -/
theorem descriptors_closed_one_session :
    (driver.AllSteps (closingSession ++ List.replicate 5 (.loop 0 none)) fun _ _ _ s' _ =>
      s'.fds.length ≤ 2 ∧ (s'.loops = [] → s'.fds = [])) ∧
    driver.AllSteps bindFailed fun _ _ _ s' _ => s'.fds.length ≤ 2 ∧ (s'.loops = [] → s'.fds = []) :=
  ⟨descriptors_closed (by decide +kernel), descriptors_closed (by decide +kernel)⟩

end

end PartLib.TcpConsole
