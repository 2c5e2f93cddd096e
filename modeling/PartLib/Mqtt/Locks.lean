import PartLib.Mqtt.Statements
import PartLib.Lib.Machine
import PartLib.Lib.WaitFor

/-!
# The locks of the client and of the endpoints

The MQTT client has a lock of its own, which a task may take again. The client's task holds it while
it handles a message, and `esp_mqtt_client_publish` takes it. So `parse_mqtt_topic` takes the mutex
of an endpoint with the client's lock held, and `publish_mqtt_topic` takes the client's lock with the
mutex of an endpoint held.

`locking` is the client's task, which handles messages, and any number of tasks that publish, a
statement at a time. A callback may publish on any topics, which its move lists. Of the events of the
client, only `MQTT_EVENT_DATA` comes up here, which leaves the table of the endpoints as it is.
-/

namespace PartLib.Mqtt

variable {n : ℕ} {κ τ : Type*}

/-- A statement of the wrapper; a take or a give of the client's lock; and a call of
`publish_mqtt_topic`. -/
inductive LockStmt (n : ℕ) (κ : Type*)
  | stmt (x : Stmt n κ)
  | lock
  | unlock
  | publishTopic (topic : ℕ)

/-- The client's task, or one that publishes. -/
inductive Task (τ : Type*)
  | client
  | publisher (p : τ)
  deriving DecidableEq

/-- The statics; what each task has still to do, and the mutexes that it has taken, the last one
first; who has taken the client's lock, and how many times; and whether the program was aborted. -/
structure Locking (n : ℕ) (κ τ : Type*) where
  w : MyMqtt n κ
  prog : Task τ → List (LockStmt n κ)
  held : Task τ → List (Fin n)
  lock : Option (Task τ × ℕ)
  aborted : Bool

/-- The moves: the client's task is given a message; a task calls `publish_mqtt_topic`; and a task
goes on by a statement, with the topics on which a callback publishes. -/
inductive LockingInput (τ : Type*)
  | dispatch (topic data : List UInt8)
  | publish (p : τ) (topic : ℕ)
  | move (t : Task τ) (publishes : List ℕ)

/-- The statements of `publish_mqtt_topic` after its check of the topic, where
`esp_mqtt_client_publish` takes the client's lock and releases it. -/
def publishing (i : Fin n) : List (LockStmt n κ) :=
  [.stmt (.take i), .lock, .stmt (.publish i), .unlock, .stmt (.give i)]

/-- The client's task handles a message, with its lock held. -/
def handling (client : ℕ) (topic data : List UInt8) : List (LockStmt n κ) :=
  .lock :: (handlerStmts n κ client (.data topic data)).map .stmt ++ [.unlock]

/-- The mutexes that a task has taken, after a statement. -/
def heldAfter (held : List (Fin n)) : Stmt n κ → List (Fin n)
  | .take i => i :: held
  | .give i => held.erase i
  | _ => held

/-- The calls of `publish_mqtt_topic` in a statement: those of a callback. -/
def publishesOf (publishes : List ℕ) : Stmt n κ → List (LockStmt n κ)
  | .callback _ _ => publishes.map .publishTopic
  | _ => []

variable [DecidableEq τ]

/-- A task has `prog` still to do. -/
def Locking.setProg (s : Locking n κ τ) (t : Task τ) (prog : List (LockStmt n κ)) :
    Locking n κ τ :=
  { s with prog := Function.update s.prog t prog }

/-- The take of the client's lock, which waits while another task has it. -/
def Locking.take (s : Locking n κ τ) (t : Task τ) : Option (Locking n κ τ) :=
  match s.lock with
  | none => some { s with lock := some (t, 1) }
  | some (u, d) => if u = t then some { s with lock := some (t, d + 1) } else none

/-- The release of the client's lock. -/
def Locking.give (s : Locking n κ τ) (t : Task τ) : Option (Locking n κ τ) :=
  match s.lock with
  | none => none
  | some (u, d) =>
    if u = t then some { s with lock := if d = 1 then none else some (t, d - 1) } else none

/-- The next statement of a task. -/
def Locking.move (s : Locking n κ τ) (t : Task τ) (publishes : List ℕ) :
    Option (Locking n κ τ × List (MqttCall n κ)) :=
  match s.prog t with
  | [] => none
  | .lock :: rest => (s.take t).map fun s => (s.setProg t rest, [])
  | .unlock :: rest => (s.give t).map fun s => (s.setProg t rest, [])
  | .publishTopic topic :: rest =>
    if s.w.running then
      if h : topic < n then some (s.setProg t (publishing ⟨topic, h⟩ ++ rest), [])
      else some ({ s with aborted := true }, [])
    else
      some (s.setProg t rest, [])
  | .stmt x :: rest =>
    match exec s.w x with
    | .done w calls next =>
      some ({ s with w := w, held := Function.update s.held t (heldAfter (s.held t) x) }.setProg t
        (next.map LockStmt.stmt ++ publishesOf publishes x ++ rest), calls)
    | .waits => none
    | .aborts => some ({ s with aborted := true }, [])

/-- The tasks after `mqtt_app_start`, with the endpoints, callbacks and `running` of `w`. Each call has
its task. -/
def locking (w : MyMqtt n κ) (client : ℕ) :
    Machine (Locking n κ τ) (LockingInput τ) (Task τ × MqttCall n κ) where
  init :=
    ⟨{ w with my_endpoints := fun i => { w.my_endpoints i with mutex := some false } },
      fun _ => [], fun _ => [], none, false⟩
  step s i :=
    if s.aborted then none
    else
      match i with
      | .dispatch topic data =>
        if (s.prog .client).isEmpty then some (s.setProg .client (handling client topic data), [])
        else none
      | .publish p topic =>
        if (s.prog (.publisher p)).isEmpty then
          some (s.setProg (.publisher p) [.publishTopic topic], [])
        else none
      | .move t publishes => (s.move t publishes).map fun r => (r.1, r.2.map (Prod.mk t))

omit [DecidableEq τ] in
/-- The lock that a task takes next: `none` is the client's, and `some i` the mutex of an endpoint. -/
def wantedBy : List (LockStmt n κ) → Option (Option (Fin n))
  | .lock :: _ => some none
  | .stmt (.take i) :: _ => some (some i)
  | _ => none

omit [DecidableEq τ] in
/-- Who wants and who holds which lock. -/
def Locking.graph (s : Locking n κ τ) : LockGraph (Task τ) (Option (Fin n)) where
  wants t l := wantedBy (s.prog t) = some l
  holds t l :=
    match l with
    | none => ∃ d, s.lock = some (t, d)
    | some i => i ∈ s.held t
  reentrant l := l = none

end PartLib.Mqtt
