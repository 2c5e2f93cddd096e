import PartLib.TcpConsole.Driver

/-!
# Who owns the handle of the loop

`CONSOLE.console_task` is the handle of the loop that serves the connection, and
`tcp_console_socket_deinit` trusts it: the task that it deletes is to be the one that calls it. The
maintainer stores a new handle whenever it finds `CONSOLE.socket_fd` to be `-1`. That is so before the
first connection and after the last one has been closed, but also after `socket` has failed, when the
loop that was created for the connection is still there, and while `tcp_console_socket_deinit` has set
the descriptor to `-1` and has not deleted its task yet.

When neither happens, there is one session after another, each with a loop of its own (`Session`), and
the handle is that of the loop (`oneLoop_of_undisturbed`).
-/

namespace PartLib.TcpConsole

/-- `xTaskCreate` has stored the handle, and the task is not ready yet. -/
def MaintainerPc.creating : MaintainerPc → Bool
  | .adding _ => true
  | _ => false

/-- In `tcp_console_socket_deinit`, after the descriptor is `-1`. -/
def LoopPc.closing : LoopPc → Bool
  | .shutdown | .closeConnection | .clearConnection | .delete | .deleting _ => true
  | _ => false

/-- A task that is deleted is the one that called `tcp_console_socket_deinit`. -/
def DriverOut.own : DriverOut → Prop
  | .taskDelete caller handle => handle = caller
  | _ => True

instance : DecidablePred DriverOut.own := fun o => by
  unfold DriverOut.own
  split <;> infer_instance

/-- There is one loop at most, with the stored handle, unless one is being created; and a task deletes
no other. -/
structure OneLoop (s : Driver) (o : List DriverOut) : Prop where
  unique : s.maintainer.creating = false → s.loops.length ≤ 1
  handle : s.maintainer.creating = false → ∀ t ∈ s.loops, s.console_task = some t.handle
  own : ∀ e ∈ o, e.own

/-- `socket` does not fail, and `xTaskCreate` is not called while a loop is in
`tcp_console_socket_deinit` after the descriptor is `-1`. -/
def Undisturbed (s : Driver) : DriverInput → Prop
  | .maintain ret =>
    match s.maintainer with
    | .socket => ret.isOk
    | .create => ∀ t ∈ s.loops, t.pc.closing = false
    | _ => True
  | .loop _ _ => True

instance (s : Driver) (i : DriverInput) : Decidable (Undisturbed s i) := by
  unfold Undisturbed
  split
  · split <;> infer_instance
  · infer_instance

/-! ## One session after another -/

/-- There is only one loop, and the stored handle is its handle. -/
structure Solo (loops : List LoopTask) (console_task : Option ℕ) (t : ℕ) (pc : LoopPc) : Prop where
  loops : loops = [⟨t, pc⟩]
  console_task : console_task = some t

/-- Nothing is given and nothing is sent. -/
structure Quiet (new_tcp : Bool) (new_client_queue : Option ℤ) : Prop where
  new_tcp : new_tcp = false
  queue : new_client_queue = none

/-- The maintainer is at its test, or has found the descriptor to be `-1` or not. -/
def MaintainerPc.resting : MaintainerPc → Bool
  | .check | .create | .delay => true
  | _ => false

/-- The maintainer waits for the loop that it has created. -/
def MaintainerPc.awaiting : MaintainerPc → Bool
  | .handle | .take => true
  | _ => false

/-- The maintainer is in `socket_init` before `socket` has returned. -/
def MaintainerPc.opening : MaintainerPc → Bool
  | .reset | .socket => true
  | _ => false

/-- The maintainer is in `socket_init` after `socket` has returned, or sends what it returned. -/
def MaintainerPc.bound : MaintainerPc → Bool
  | .bind | .listen | .accept | .send _ => true
  | _ => false

/-- From the receive of a descriptor to the reset of `CONSOLE.socket_fd`. -/
def LoopPc.serving : LoopPc → Bool
  | .receive | .test | .line | .killing _ | .close | .clearSocket => true
  | _ => false

/-- The phases of a session: there is no loop; one is being created, or could not be; it has to give
the semaphore, and has given it; the maintainer opens the socket, and uses it; the loop waits for the
descriptor or serves the connection; and it is about to delete itself. -/
inductive Session (s : Driver) : Prop
  | vacant (hm : s.maintainer.resting) (hl : s.loops = [])
      (hquiet : Quiet s.new_tcp s.new_client_queue)
  | adding {t : ℕ} (hm : s.maintainer = .adding t) (hl : s.loops = [])
      (ht : s.console_task = some t) (hquiet : Quiet s.new_tcp s.new_client_queue)
  | failed (hm : s.maintainer.awaiting) (hl : s.loops = [])
      (hquiet : Quiet s.new_tcp s.new_client_queue)
  | starting {t : ℕ} (hm : s.maintainer.awaiting) (hl : Solo s.loops s.console_task t .give)
      (hquiet : Quiet s.new_tcp s.new_client_queue)
  | ready {t : ℕ} (hm : s.maintainer.awaiting) (hl : Solo s.loops s.console_task t .receive)
      (htcp : s.new_tcp = true) (hq : s.new_client_queue = none)
  | opening {t : ℕ} (hm : s.maintainer.opening) (hl : Solo s.loops s.console_task t .receive)
      (hquiet : Quiet s.new_tcp s.new_client_queue)
  | bound {t : ℕ} (hm : s.maintainer.bound) (hl : Solo s.loops s.console_task t .receive)
      (hquiet : Quiet s.new_tcp s.new_client_queue) (hfd : s.socket_fd ≠ -1)
  | connected {t : ℕ} {pc : LoopPc} (hm : s.maintainer.resting) (hne : s.maintainer ≠ .create)
      (hl : Solo s.loops s.console_task t pc) (hpc : pc.serving) (htcp : s.new_tcp = false)
      (hq : pc = .receive ∨ s.new_client_queue = none) (hfd : s.socket_fd ≠ -1)
  | closing {t : ℕ} {pc : LoopPc} (hm : s.maintainer.resting)
      (hl : Solo s.loops s.console_task t pc) (hpc : pc.closing)
      (hself : ∀ h, pc = .deleting h → h = some t) (hquiet : Quiet s.new_tcp s.new_client_queue)

section

variable {s s' : Driver} {o : List DriverOut} {ret : Except ℕ ℕ} {loops : List LoopTask}
  {console_task : Option ℕ} {t : ℕ} {pc pc' : LoopPc}

/-- There is one loop at most, with the stored handle, when there is only one or none. -/
theorem Session.oneLoop (hs : Session s) :
    s.loops.length ≤ 1 ∧ ∀ t ∈ s.loops, s.console_task = some t.handle := by
  have hnil : s.loops = [] → s.loops.length ≤ 1 ∧
      ∀ t ∈ s.loops, s.console_task = some t.handle := by
    intro hl
    simp [hl]
  have hsolo : ∀ {t pc}, Solo s.loops s.console_task t pc → s.loops.length ≤ 1 ∧
      ∀ t ∈ s.loops, s.console_task = some t.handle := by
    intro t pc hl
    simp [hl.loops, hl.console_task]
  cases hs with
  | vacant _ hl _ => exact hnil hl
  | adding _ hl _ _ => exact hnil hl
  | failed _ hl _ => exact hnil hl
  | starting _ hl _ => exact hsolo hl
  | ready _ hl _ _ => exact hsolo hl
  | opening _ hl _ => exact hsolo hl
  | bound _ hl _ _ => exact hsolo hl
  | connected _ _ hl _ _ _ _ => exact hsolo hl
  | closing _ hl _ _ _ => exact hsolo hl

/-! ## The maintainer -/

/-- The maintainer deletes no task. -/
theorem Driver.maintain_own (h : s.maintain ret = some (s', o)) : ∀ e ∈ o, e.own := by
  cases hpc : s.maintainer <;> simp only [Driver.maintain, hpc] at h
  all_goals grind [Driver.fail, DriverOut.own]

/-- At rest, the maintainer goes on to rest, and to `xTaskCreate` only when the descriptor is `-1`; or
it calls `xTaskCreate`, which may fail. -/
theorem Driver.maintain_resting (hm : s.maintainer.resting) (h : s.maintain ret = some (s', o)) :
    (∃ m, m.resting ∧ (m = .create → s.socket_fd = -1) ∧ s' = { s with maintainer := m }) ∨
      s.maintainer = .create ∧
        (s' = { s with
            console_task := some s.created, created := s.created + 1
            maintainer := .adding s.created } ∨
          s' = { s with maintainer := .handle }) := by
  cases hpc : s.maintainer <;> rw [hpc] at hm <;> try cases hm
  all_goals simp only [Driver.maintain, hpc] at h
  case check =>
    split_ifs at h with hfd <;> cases h
    · exact .inl ⟨.create, rfl, fun _ => hfd, rfl⟩
    · exact .inl ⟨.delay, rfl, by simp, rfl⟩
  case create =>
    split at h <;> cases h
    · exact .inr ⟨rfl, .inl rfl⟩
    · exact .inr ⟨rfl, .inr rfl⟩
  case delay =>
    cases h
    exact .inl ⟨.check, rfl, by simp, rfl⟩

/-- After `xTaskCreate`, the maintainer stops the program when there is no handle, and goes on to
`socket_init` when the semaphore is given. -/
theorem Driver.maintain_awaiting (hm : s.maintainer.awaiting) (h : s.maintain ret = some (s', o)) :
    s' = { s with stopped := true } ∨ s' = { s with maintainer := .take } ∨
      s.new_tcp = true ∧ s' = { s with new_tcp := false, maintainer := .reset } := by
  cases hpc : s.maintainer <;> rw [hpc] at hm <;> try cases hm
  all_goals simp only [Driver.maintain, hpc] at h
  case handle =>
    split_ifs at h <;> cases h
    · exact .inl rfl
    · exact .inr (.inl rfl)
  case take =>
    split_ifs at h with htcp
    cases h
    exact .inr (.inr ⟨htcp, rfl⟩)

/-- When `socket` does not fail, its descriptor is not `-1`. -/
theorem Driver.maintain_opening (hm : s.maintainer.opening) (hc : Undisturbed s (.maintain ret))
    (h : s.maintain ret = some (s', o)) :
    s' = { s with socket_fd := -1, maintainer := .socket } ∨
      ∃ fd fds, fd ≠ -1 ∧
        s' = { s with socket_fd := fd, fds := fds, maintainer := .bind } := by
  cases hpc : s.maintainer <;> rw [hpc] at hm <;> try cases hm
  all_goals simp only [Driver.maintain, hpc] at h
  case reset =>
    cases h
    exact .inl rfl
  case socket =>
    cases ret with
    | ok fd =>
      dsimp only at h
      split_ifs at h
      cases h
      exact .inr ⟨_, _, by omega, rfl⟩
    | error errno => simp [Undisturbed, hpc, Except.isOk, Except.toBool] at hc

/-- With the socket, the maintainer goes on to the send, whether or not the calls fail, and sends one
descriptor. -/
theorem Driver.maintain_bound (hm : s.maintainer.bound) (h : s.maintain ret = some (s', o)) :
    (∃ m fds, m.bound ∧ s' = { s with fds := fds, maintainer := m }) ∨
      ∃ fd, s' = { s with new_client_queue := some fd, maintainer := .check } := by
  cases hpc : s.maintainer <;> rw [hpc] at hm <;> try cases hm
  all_goals simp only [Driver.maintain, hpc] at h
  case bind =>
    split at h <;> cases h <;> exact .inl ⟨_, _, rfl, rfl⟩
  case listen =>
    split at h <;> cases h <;> exact .inl ⟨_, _, rfl, rfl⟩
  case accept =>
    split at h
    · split_ifs at h
      cases h
      exact .inl ⟨_, _, rfl, rfl⟩
    · cases h
      exact .inl ⟨_, _, rfl, rfl⟩
  case send =>
    split_ifs at h
    cases h
    exact .inr ⟨_, rfl⟩

/-- The next statement of the maintainer leads from a phase to a phase. -/
theorem Session.maintain (hs : Session s) (hc : Undisturbed s (.maintain ret))
    (h : s.maintain ret = some (s', o)) : Session s' := by
  cases hs with
  | vacant hm hl hquiet =>
    obtain ⟨m, hm', -, rfl⟩ | ⟨-, rfl | rfl⟩ := Driver.maintain_resting hm h
    · exact .vacant hm' hl hquiet
    · exact .adding rfl hl rfl hquiet
    · exact .failed rfl hl hquiet
  | adding hm hl ht hquiet =>
    simp only [Driver.maintain, hm] at h
    cases h
    exact .starting rfl ⟨by rw [hl, List.nil_append], ht⟩ hquiet
  | failed hm hl hquiet =>
    obtain rfl | rfl | ⟨htcp, -⟩ := Driver.maintain_awaiting hm h
    · exact .failed hm hl hquiet
    · exact .failed rfl hl hquiet
    · simp [hquiet.new_tcp] at htcp
  | starting hm hl hquiet =>
    obtain rfl | rfl | ⟨htcp, -⟩ := Driver.maintain_awaiting hm h
    · exact .starting hm hl hquiet
    · exact .starting rfl hl hquiet
    · simp [hquiet.new_tcp] at htcp
  | ready hm hl htcp hq =>
    obtain rfl | rfl | ⟨-, rfl⟩ := Driver.maintain_awaiting hm h
    · exact .ready hm hl htcp hq
    · exact .ready rfl hl htcp hq
    · exact .opening rfl hl ⟨rfl, hq⟩
  | opening hm hl hquiet =>
    obtain rfl | ⟨fd, fds, hfd, rfl⟩ := Driver.maintain_opening hm hc h
    · exact .opening rfl hl hquiet
    · exact .bound rfl hl hquiet hfd
  | bound hm hl hquiet hfd =>
    obtain ⟨m, fds, hm', rfl⟩ | ⟨fd, rfl⟩ := Driver.maintain_bound hm h
    · exact .bound hm' hl hquiet hfd
    · exact .connected rfl (by simp) hl rfl hquiet.new_tcp (.inl rfl) hfd
  | connected hm hne hl hpc htcp hq hfd =>
    obtain ⟨m, hm', hcreate, rfl⟩ | ⟨hcreate, -⟩ := Driver.maintain_resting hm h
    · exact .connected hm' (fun he => hfd (hcreate he)) hl hpc htcp hq hfd
    · exact absurd hcreate hne
  | closing hm hl hpc hself hquiet =>
    obtain ⟨m, hm', -, rfl⟩ | ⟨hcreate, -⟩ := Driver.maintain_resting hm h
    · exact .closing hm' hl hpc hself hquiet
    · -- The loop is about to delete itself, so no other is created.
      simp [Undisturbed, hcreate, hl.loops, hpc] at hc

/-! ## The loop -/

/-- The statement of the only loop. -/
theorem Solo.pcOf (hl : Solo s.loops s.console_task t pc) (handle : ℕ) :
    s.pcOf handle = if handle = t then some pc else none := by
  by_cases h : handle = t
  · simp [Driver.pcOf, hl.loops, h]
  · simp [Driver.pcOf, hl.loops, h, Ne.symm h]

/-- Only the loop that there is goes on. -/
theorem Solo.eq_of_loop (hl : Solo s.loops s.console_task t pc) {handle : ℕ} {line : Option Command}
    (h : s.loop handle line = some (s', o)) : handle = t := by
  by_contra hne
  simp [Driver.loop, hl.pcOf, hne] at h

/-- The only loop at its next statement. -/
theorem Solo.goto (hl : Solo loops console_task t pc) :
    Solo (loops.map fun u => if u.handle = t then ⟨t, pc'⟩ else u) console_task t pc' :=
  ⟨by simp [hl.loops], hl.console_task⟩

/-- A loop that serves the connection goes on with it, receives the descriptor that was sent, or resets
the descriptor of the socket and begins to delete itself. -/
theorem Solo.loop_serving {line : Option Command} (hl : Solo s.loops s.console_task t pc)
    (hpc : pc.serving) (h : s.loop t line = some (s', o)) :
    (∀ e ∈ o, e.own) ∧ ∃ pc', Solo s'.loops s'.console_task t pc' ∧
      s'.maintainer = s.maintainer ∧ s'.new_tcp = s.new_tcp ∧
      (pc'.serving ∧ s'.socket_fd = s.socket_fd ∧
          (s'.new_client_queue = none ∨ pc ≠ .receive ∧ s'.new_client_queue = s.new_client_queue) ∨
        pc' = .shutdown ∧ pc ≠ .receive ∧ s'.new_client_queue = s.new_client_queue) := by
  simp only [Driver.loop, hl.pcOf, if_true, Option.bind_some] at h
  cases pc <;> simp only [LoopPc.serving, Bool.false_eq_true] at hpc
  all_goals dsimp only at h
  case receive =>
    obtain ⟨fd, -, heq⟩ := Option.map_eq_some_iff.mp h
    cases heq
    exact ⟨by simp, _, hl.goto, rfl, rfl, .inl ⟨rfl, rfl, .inl rfl⟩⟩
  case test =>
    cases h
    refine ⟨by simp, _, hl.goto, rfl, rfl, .inl ⟨?_, rfl, .inr ⟨by simp, rfl⟩⟩⟩
    split_ifs <;> rfl
  case line =>
    split at h <;> cases h
    · exact ⟨by simp, _, hl.goto, rfl, rfl, .inl ⟨rfl, rfl, .inr ⟨by simp, rfl⟩⟩⟩
    · exact ⟨by simp, _, hl.goto, rfl, rfl, .inl ⟨rfl, rfl, .inr ⟨by simp, rfl⟩⟩⟩
  case killing i =>
    split_ifs at h <;> cases h
    · exact ⟨by simp [DriverOut.own], _, hl.goto, rfl, rfl, .inl ⟨rfl, rfl, .inr ⟨by simp, rfl⟩⟩⟩
    · exact ⟨by simp [DriverOut.own], _, hl.goto, rfl, rfl, .inl ⟨rfl, rfl, .inr ⟨by simp, rfl⟩⟩⟩
  case close =>
    cases h
    exact ⟨by simp, _, hl.goto, rfl, rfl, .inl ⟨rfl, rfl, .inr ⟨by simp, rfl⟩⟩⟩
  case clearSocket =>
    cases h
    exact ⟨by simp, _, hl.goto, rfl, rfl, .inr ⟨rfl, by simp, rfl⟩⟩

/-- A loop that is about to delete itself goes on to that, reads its own handle, or deletes itself. -/
theorem Solo.loop_closing {line : Option Command} (hl : Solo s.loops s.console_task t pc)
    (hpc : pc.closing) (hself : ∀ h, pc = .deleting h → h = some t)
    (h : s.loop t line = some (s', o)) :
    (∀ e ∈ o, e.own) ∧ s'.maintainer = s.maintainer ∧ s'.new_tcp = s.new_tcp ∧
      s'.new_client_queue = s.new_client_queue ∧
      (s'.loops = [] ∨ ∃ pc', Solo s'.loops s'.console_task t pc' ∧ pc'.closing ∧
        ∀ h, pc' = .deleting h → h = some t) := by
  simp only [Driver.loop, hl.pcOf, if_true, Option.bind_some] at h
  cases pc <;> simp only [LoopPc.closing, Bool.false_eq_true] at hpc
  all_goals dsimp only at h
  case shutdown =>
    cases h
    exact ⟨by simp, rfl, rfl, rfl, .inr ⟨_, hl.goto, rfl, by simp⟩⟩
  case closeConnection =>
    cases h
    exact ⟨by simp, rfl, rfl, rfl, .inr ⟨_, hl.goto, rfl, by simp⟩⟩
  case clearConnection =>
    cases h
    exact ⟨by simp, rfl, rfl, rfl, .inr ⟨_, hl.goto, rfl, by simp⟩⟩
  case delete =>
    cases h
    refine ⟨by simp, rfl, rfl, rfl, .inr ⟨_, hl.goto, rfl, ?_⟩⟩
    rintro _ ⟨⟩
    exact hl.console_task
  case deleting target =>
    -- The handle is that of the loop itself.
    obtain rfl := hself target rfl
    cases h
    refine ⟨by simp [DriverOut.own], rfl, rfl, rfl, .inl ?_⟩
    simp [Driver.taskDelete, Driver.goto, hl.loops]

/-- The next statement of the loop leads from a phase to a phase, and it deletes only itself. -/
theorem Session.loop {handle : ℕ} {line : Option Command} (hs : Session s)
    (h : s.loop handle line = some (s', o)) : Session s' ∧ ∀ e ∈ o, e.own := by
  have hnone : s.loops ≠ [] := by
    intro hl
    simp [Driver.loop, Driver.pcOf, hl] at h
  cases hs with
  | vacant _ hl _ => exact absurd hl hnone
  | adding _ hl _ _ => exact absurd hl hnone
  | failed _ hl _ => exact absurd hl hnone
  | starting hm hl hquiet =>
    obtain rfl := hl.eq_of_loop h
    simp only [Driver.loop, hl.pcOf, if_true, Option.bind_some, hquiet.new_tcp] at h
    cases h
    exact ⟨.ready hm hl.goto rfl hquiet.queue, by simp⟩
  | ready _ hl _ hq =>
    obtain rfl := hl.eq_of_loop h
    simp [Driver.loop, hl.pcOf, hq] at h
  | opening _ hl hquiet =>
    obtain rfl := hl.eq_of_loop h
    simp [Driver.loop, hl.pcOf, hquiet.queue] at h
  | bound _ hl hquiet _ =>
    obtain rfl := hl.eq_of_loop h
    simp [Driver.loop, hl.pcOf, hquiet.queue] at h
  | connected hm hne hl hpc htcp hq hfd =>
    obtain rfl := hl.eq_of_loop h
    obtain ⟨hown, pc', hl', hm', htcp', hnext⟩ := hl.loop_serving hpc h
    refine ⟨?_, hown⟩
    rw [← hm'] at hm hne
    rw [← htcp'] at htcp
    rcases hnext with ⟨hpc', hfd', hq'⟩ | ⟨rfl, hpc', hq'⟩
    · rw [← hfd'] at hfd
      refine .connected hm hne hl' hpc' htcp (.inr ?_) hfd
      rcases hq' with hq' | ⟨hpc', hq'⟩
      · exact hq'
      · rw [hq', hq.resolve_left hpc']
    · exact .closing hm hl' rfl (by simp) ⟨htcp, by rw [hq', hq.resolve_left hpc']⟩
  | closing hm hl hpc hself hquiet =>
    obtain rfl := hl.eq_of_loop h
    obtain ⟨hown, hm', htcp', hq', hnext⟩ := hl.loop_closing hpc hself h
    refine ⟨?_, hown⟩
    rw [← hm'] at hm
    rw [← htcp', ← hq'] at hquiet
    rcases hnext with hnil | ⟨pc', hl', hpc', hself'⟩
    · exact .vacant hm hnil hquiet
    · exact .closing hm hl' hpc' hself' hquiet

end

/-- In every run in which `socket` does not fail and the maintainer creates no loop while another one
is about to delete itself, there is one loop at most, with the stored handle, whenever none is being
created, and `tcp_console_socket_deinit` deletes the task that calls it. -/
theorem oneLoop_of_undisturbed {inputs : List DriverInput}
    (hC : driver.AllSteps inputs fun _ s i _ _ => Undisturbed s i) :
    driver.AllSteps inputs fun _ _ _ s' o => OneLoop s' o := by
  have hstep : ∀ {s i s' o}, Session s → Undisturbed s i → driver.step s i = some (s', o) →
      Session s' ∧ ∀ e ∈ o, e.own := by
    intro s i s' o hs hc h
    simp only [driver] at h
    split_ifs at h
    cases i with
    | maintain ret => exact ⟨hs.maintain hc h, Driver.maintain_own h⟩
    | loop handle line => exact hs.loop h
  refine hC.mono_inv (I := fun _ s => Session s) (.vacant rfl rfl ⟨rfl, rfl⟩)
    (fun _ s i s' o hs hc h => (hstep hs hc h).1) fun _ s i s' o hs hc h => ?_
  obtain ⟨hs', hown⟩ := hstep hs hc h
  exact ⟨fun _ => hs'.oneLoop.1, fun _ => hs'.oneLoop.2, hown⟩

/-- The maintainer opens the socket and accepts a connection, and the loop with the handle 0 takes a
command line that asks for `tcp_console_socket_deinit` and executes it up to the reset of the
descriptor. -/
def closingSession : List DriverInput :=
  List.replicate 3 (.maintain (.ok 0)) ++ [.loop 0 none] ++ List.replicate 3 (.maintain (.ok 0)) ++
    [.maintain (.ok 54), .maintain (.ok 0), .maintain (.ok 0), .maintain (.ok 55)] ++
    [.maintain (.ok 0), .loop 0 none, .loop 0 none, .loop 0 (some .deinit)] ++
    List.replicate 6 (.loop 0 none)

/-- The session ends, and the maintainer creates the next loop. -/
theorem oneLoop_of_undisturbed_two_sessions :
    driver.AllSteps (closingSession ++ List.replicate 5 (.loop 0 none) ++
      List.replicate 4 (.maintain (.ok 0))) fun _ _ _ s' o => OneLoop s' o :=
  oneLoop_of_undisturbed (by decide +kernel)

/-- The maintainer finds the descriptor to be `-1` before the loop has deleted itself, and stores the
handle of a new loop, which is then deleted in place of the old one. -/
theorem new_loop_deleted :
    ¬ driver.AllSteps (closingSession ++ List.replicate 4 (.maintain (.ok 0)) ++
      List.replicate 5 (.loop 0 none)) fun _ _ _ s' o => OneLoop s' o := by
  intro h
  have hown : driver.AllSteps (closingSession ++ List.replicate 4 (.maintain (.ok 0)) ++
      List.replicate 5 (.loop 0 none)) fun _ _ _ _ o => ∀ e ∈ o, e.own :=
    fun _ _ _ _ _ ho => (h _ _ _ _ _ ho).own
  revert hown
  decide +kernel

end PartLib.TcpConsole
