import PartLib.Lib.Machine
import Mathlib.Data.Int.Notation

/-!
# The tasks of the TCP console

`socket_maintainer_task` looks at `CONSOLE.socket_fd` again and again. When it is `-1`, the task
creates a `console_loop`, waits until this has redirected its streams, and waits in `socket_init` for
a connection, whose descriptor it sends to the loop. The loop takes command lines from the connection,
and runs the commands in its own task; one of them may call `tcp_console_socket_deinit`, which closes
the descriptors, sets `CONSOLE.socket_fd` to `-1`, and deletes the task of `CONSOLE.console_task`.

`driver` is these tasks one statement at a time. What a call of the maintainer returns is part of its
move: a number, or `errno` when the call fails.
-/

namespace PartLib.TcpConsole

/-- `CONSOLE_PORT`. -/
def consolePort : ℕ := 9170

/-- `cb_log_level_t`. -/
inductive LogLevel
  | info
  | warning
  | error
  deriving DecidableEq, Repr

/-- The statements of `socket_maintainer_task` and `socket_init`: the test of the descriptor;
`xTaskCreate`, which stores the handle and then makes the task ready; the test of the handle; the take
of `new_tcp`; `socket_init`, which resets the descriptor and makes four calls; the send of its result;
and the delay. -/
inductive MaintainerPc
  | check
  | create
  | adding (handle : ℕ)
  | handle
  | take
  | reset
  | socket
  | bind
  | listen
  | accept
  | send (new_conn : ℤ)
  | delay
  deriving DecidableEq, Repr

/-- The statements of `console_loop`: the give of `new_tcp`, the receive of a descriptor, the test of
it, and a command line; and those of `tcp_console_socket_deinit`, which reads the handle and deletes
its task last. -/
inductive LoopPc
  | give
  | receive
  | test
  | line
  | killing (i : ℕ)
  | close
  | clearSocket
  | shutdown
  | closeConnection
  | clearConnection
  | delete
  | deleting (handle : Option ℕ)
  deriving DecidableEq, Repr

/-- A task that runs `console_loop`. -/
structure LoopTask where
  handle : ℕ
  pc : LoopPc
  deriving DecidableEq, Repr

/-- The statics of `CONSOLE`, the tasks, the number of tasks created so far, and the descriptors that
are open. The handles of tasks are the numbers in which they were created. -/
structure Driver where
  socket_fd : ℤ := -1
  connection_fd : ℤ := -1
  new_tcp : Bool := false
  new_client_queue : Option ℤ := none
  console_task : Option ℕ := none
  maintainer : MaintainerPc := .check
  loops : List LoopTask := []
  created : ℕ := 0
  fds : List ℤ := []
  stopped : Bool := false
  deriving DecidableEq

/-- What is seen: the log, a delay in milliseconds, a task that deletes another or itself, and an
`ESP_ERROR_CHECK` that fails. -/
inductive DriverOut
  | log (level : LogLevel) (msg : String)
  | delay (ms : ℕ)
  | taskDelete (caller handle : ℕ)
  | abort
  deriving DecidableEq, Repr

/-- What a command line asks for: `tcp_console_socket_deinit`, or anything else. -/
inductive Command
  | deinit
  | other
  deriving DecidableEq, Repr

/-- A move of the maintainer, with what its call returns, or of a `console_loop`, with the line that
`linenoise` returns, if it returns one. -/
inductive DriverInput
  | maintain (ret : Except ℕ ℕ)
  | loop (handle : ℕ) (line : Option Command)

/-- `socket_init` logs that a call has failed, and returns `-1`. -/
def Driver.fail (s : Driver) (msg : String) : Driver × List DriverOut :=
  ({ s with maintainer := .send (-1) }, [.log .error msg])

/-- The next statement of `socket_maintainer_task`. -/
def Driver.maintain (s : Driver) (ret : Except ℕ ℕ) : Option (Driver × List DriverOut) :=
  match s.maintainer with
  | .check =>
    if s.socket_fd = -1 then
      some ({ s with maintainer := .create }, [.log .warning "Console socket connection closed"])
    else
      some ({ s with maintainer := .delay }, [.log .info "Console socket connection active"])
  | .create =>
    match ret with
    | .ok _ =>
      some ({ s with
        console_task := some s.created
        created := s.created + 1
        maintainer := .adding s.created }, [])
    | .error _ => some ({ s with maintainer := .handle }, [])
  | .adding handle =>
    some ({ s with loops := s.loops ++ [⟨handle, .give⟩], maintainer := .handle }, [])
  | .handle =>
    if s.console_task = none then some ({ s with stopped := true }, [.abort])
    else some ({ s with maintainer := .take }, [])
  | .take => if s.new_tcp then some ({ s with new_tcp := false, maintainer := .reset }, []) else none
  | .reset =>
    some ({ s with socket_fd := -1, maintainer := .socket }, [.log .info "Initializing Socket"])
  | .socket =>
    match ret with
    | .ok fd =>
      -- A new descriptor is not one that is open.
      if (fd : ℤ) ∈ s.fds then none
      else
        some ({ s with socket_fd := fd, fds := fd :: s.fds, maintainer := .bind },
          [.log .info "Socket created"])
    | .error errno =>
      some ({ s with socket_fd := -1 }.fail s!"Unable to create socket: errno {errno}")
  | .bind =>
    match ret with
    | .ok _ =>
      some ({ s with maintainer := .listen }, [.log .info s!"Socket bound, port {consolePort}"])
    | .error errno => some (s.fail s!"Socket unable to bind: errno {errno}")
  | .listen =>
    match ret with
    | .ok _ => some ({ s with maintainer := .accept }, [.log .info "Socket listening"])
    | .error errno => some (s.fail s!"Error occurred during listen: errno {errno}")
  | .accept =>
    match ret with
    | .ok fd =>
      if (fd : ℤ) ∈ s.fds then none
      else
        some ({ s with fds := fd :: s.fds, maintainer := .send fd },
          [.log .info s!"Socket connection accepted, port {consolePort}"])
    | .error errno => some (s.fail s!"Unable to accept connection: errno {errno}")
  | .send new_conn =>
    if s.new_client_queue = none then
      some ({ s with new_client_queue := some new_conn, maintainer := .check }, [])
    else none
  | .delay => some ({ s with maintainer := .check }, [.delay 3000])

/-- The statement at which a task stands, while it exists. -/
def Driver.pcOf (s : Driver) (handle : ℕ) : Option LoopPc :=
  (s.loops.find? (·.handle = handle)).map LoopTask.pc

/-- A task goes on to another statement. -/
def Driver.goto (s : Driver) (handle : ℕ) (pc : LoopPc) : Driver :=
  { s with loops := s.loops.map fun t => if t.handle = handle then ⟨handle, pc⟩ else t }

/-- `vTaskDelete` of another task, or of the caller. -/
def Driver.taskDelete (s : Driver) (handle : ℕ) : Driver :=
  { s with loops := s.loops.filter fun t => t.handle ≠ handle }

/-- The next statement of the `console_loop` with the given handle. -/
def Driver.loop (s : Driver) (handle : ℕ) (line : Option Command) :
    Option (Driver × List DriverOut) :=
  (s.pcOf handle).bind fun pc =>
    match pc with
    | .give =>
      if s.new_tcp then some ({ s with stopped := true }, [.abort])
      else some ({ s with new_tcp := true }.goto handle .receive, [])
    | .receive =>
      s.new_client_queue.map fun fd =>
        ({ s with new_client_queue := none, connection_fd := fd }.goto handle .test, [])
    | .test => some (s.goto handle (if s.connection_fd = -1 then .receive else .line), [])
    | .line =>
      match line with
      | some .deinit => some (s.goto handle (.killing 0), [])
      | _ => some (s.goto handle .test, [])
    | .killing i =>
      if i < 3 then some (s.goto handle (.killing (i + 1)), [.delay 1000])
      else some (s.goto handle .close, [.log .warning "Closing down socket"])
    | .close => some ({ s with fds := s.fds.erase s.socket_fd }.goto handle .clearSocket, [])
    | .clearSocket => some ({ s with socket_fd := -1 }.goto handle .shutdown, [])
    | .shutdown => some (s.goto handle .closeConnection, [])
    | .closeConnection =>
      some ({ s with fds := s.fds.erase s.connection_fd }.goto handle .clearConnection, [])
    | .clearConnection => some ({ s with connection_fd := -1 }.goto handle .delete, [])
    | .delete => some (s.goto handle (.deleting s.console_task), [])
    | .deleting target =>
      -- `NULL` is the calling task; a task that has deleted another goes on in its loop.
      let target := target.getD handle
      some ((s.goto handle .test).taskDelete target, [.taskDelete handle target])

/-- The tasks of the console, from the start of `socket_maintainer_task`. -/
def driver : Machine Driver DriverInput DriverOut where
  init := {}
  step s i :=
    if s.stopped then none
    else
      match i with
      | .maintain ret => s.maintain ret
      | .loop handle line => s.loop handle line

end PartLib.TcpConsole
