import PartLib.Mqtt.Statements
import PartLib.Mqtt.Resubscribe
import PartLib.Lib.Machine

/-!
# Starting the client

`mqtt_app_start` goes on after it has started the client: it stores the client's handle, resets
`running`, creates the mutexes, and clears the callback of the first endpoint once for each
endpoint. The client's task may handle events meanwhile, and other tasks may publish once the client
is running. `startup` is all of them, a statement at a time.

Some orders go wrong: a check fails, a mutex is taken before it exists, or a value that the handler
has written is overwritten. `InOrder` says which statement of `mqtt_app_start` each statement of the
other tasks has to come after, and `startup_ok` that nothing goes wrong in a run in that order.
-/

namespace PartLib.Mqtt

variable {n : ℕ} {κ : Type*}

/-- The statics, and what the tasks have still to do: `mqtt_app_start`, the client's task, and the
calls of `publish_mqtt_topic`. -/
structure Startup (n : ℕ) (κ : Type*) where
  w : MyMqtt n κ
  start : List (Stmt n κ)
  task : List (Stmt n κ)
  pubs : List (List (Stmt n κ))
  aborted : Bool

/-- The moves: the next statement of a task, an event that the client's task is given, or a call of
`publish_mqtt_topic`. -/
inductive StartupInput
  | start
  | dispatch (e : MqttEvent)
  | task
  | call (topic : ℕ)
  | pub (k : ℕ)
  deriving DecidableEq

/-- The statement that a move runs. -/
def Startup.next (s : Startup n κ) : StartupInput → Option (Stmt n κ)
  | .start => s.start.head?
  | .task => s.task.head?
  | .pub k => s.pubs[k]?.bind List.head?
  | .dispatch _ => none
  | .call _ => none

/-- A statement is run, and `put` replaces the statements of its task; a failed check or a null
pointer ends the program. -/
def Startup.move (s : Startup n κ) (x : Stmt n κ)
    (put : Startup n κ → List (Stmt n κ) → Startup n κ) :
    Option (Startup n κ × List (MqttCall n κ)) :=
  match exec s.w x with
  | .done w calls next => some (put { s with w := w } next, calls)
  | .waits => none
  | .aborts => some ({ s with aborted := true }, [])

/-- `mqtt_app_start` from `esp_mqtt_client_start` on, and the other tasks. -/
def startup (n : ℕ) (topics : List (Registration κ)) (is_updown_cb : Bool) (client : ℕ) :
    Machine (Startup n κ) StartupInput (MqttCall n κ) where
  init := ⟨mqttInit (.boot n κ) (some topics) is_updown_cb, startStmts n κ client, [], [], false⟩
  step s i :=
    if s.aborted then none
    else
      match i with
      | .start =>
        match s.start with
        | [] => none
        | x :: xs => s.move x fun s next => { s with start := next ++ xs }
      | .task =>
        match s.task with
        | [] => none
        | x :: xs => s.move x fun s next => { s with task := next ++ xs }
      | .pub k =>
        match s.pubs[k]? with
        | some (x :: xs) => s.move x fun s next => { s with pubs := s.pubs.set k (next ++ xs) }
        | _ => none
      | .dispatch e =>
        if s.task.isEmpty then some ({ s with task := handlerStmts n κ client e }, []) else none
      -- `publish_mqtt_topic` does nothing while `running` is not set.
      | .call topic =>
        some (if s.w.running then { s with pubs := s.pubs ++ [[.checkTopic topic]] } else s, [])

/-- Statements that the client's task runs with nothing in between are moves of the task. -/
theorem Runs.startup {topics : List (Registration κ)} {is_updown_cb : Bool} {client : ℕ}
    {w w' : MyMqtt n κ} {xs : List (Stmt n κ)} {calls : List (MqttCall n κ)} (h : Runs w xs w' calls)
    (start rest : List (Stmt n κ)) (pubs : List (List (Stmt n κ))) :
    ∃ k, (startup n topics is_updown_cb client).run ⟨w, start, xs ++ rest, pubs, false⟩
      (List.replicate k .task) = some (⟨w', start, rest, pubs, false⟩, calls) := by
  induction h with
  | nil w => exact ⟨0, rfl⟩
  | @cons w w₁ w₂ x xs next c₁ c₂ hx _ ih =>
    obtain ⟨k, hk⟩ := ih
    have hstep : (PartLib.Mqtt.startup n topics is_updown_cb client).step
        ⟨w, start, x :: xs ++ rest, pubs, false⟩ .task =
          some (⟨w₁, start, next ++ xs ++ rest, pubs, false⟩, c₁) := by
      simp [PartLib.Mqtt.startup, Startup.move, hx]
    refine ⟨k + 1, ?_⟩
    rw [List.replicate_succ, Machine.run_cons, hstep, Option.bind_some, hk]
    rfl

/-- An event that the client's task handles with nothing in between is handled as
`mqtt_event_handler` does. -/
theorem startup_mqttEventHandler {topics : List (Registration κ)} {is_updown_cb : Bool} {client : ℕ}
    {w w' : MyMqtt n κ} {e : MqttEvent} {calls : List (MqttCall n κ)}
    (hfree : ∀ i, (w.my_endpoints i).mutex ≠ some true)
    (h : mqttEventHandler w client e = some (w', calls)) (start : List (Stmt n κ))
    (pubs : List (List (Stmt n κ))) :
    ∃ k, (startup n topics is_updown_cb client).run ⟨w, start, [], pubs, false⟩
      (.dispatch e :: List.replicate k .task) = some (⟨w', start, [], pubs, false⟩, calls) := by
  have hruns := runs_mqttEventHandler hfree h
  obtain ⟨k, hk⟩ := @Runs.startup n κ topics is_updown_cb client _ _ _ _ hruns start [] pubs
  rw [List.append_nil] at hk
  exact ⟨k, by simpa [Machine.run_cons, startup] using hk⟩

/-! ## What a statement does -/

/-- The statements that another puts before the rest of its function, and those of
`publish_mqtt_topic`. -/
def Stmt.Inner : Stmt n κ → Prop
  | .register _ | .writeTopic _ _ | .writeQos _ _ | .setCallback _ _ | .subscribe _
  | .checkTopic _ | .take _ | .callback _ _ | .publish _ | .give _ => True
  | _ => False

/-- The statements of the client's task. -/
def Stmt.OfTask (client : ℕ) : Stmt n κ → Prop
  | .setClient _ | .createMutex _ | .clearCallback _ => False
  | .checkClient c => c = client
  | _ => True

/-- The statements of `mqtt_app_start`. -/
def Stmt.OfStart (client : ℕ) : Stmt n κ → Prop
  | .setClient c => c = client
  | .setRunning b => b = false
  | .createMutex _ | .clearCallback _ => True
  | _ => False

/-- The client after a statement. -/
def Stmt.clientAfter (client : Option ℕ) : Stmt n κ → Option ℕ
  | .setClient c => some c
  | _ => client

/-- `running` after a statement. -/
def Stmt.runningAfter (running : Bool) : Stmt n κ → Bool
  | .setRunning b => b
  | _ => running

/-- What is left, and what is changed, by a statement. -/
structure Effect (w w' : MyMqtt n κ) (x : Stmt n κ) (next : List (Stmt n κ)) : Prop where
  client : w'.client = x.clientAfter w.client
  running : w'.running = x.runningAfter w.running
  mutex : ∀ i, (w.my_endpoints i).mutex.isSome = true ∨ x = .createMutex i →
    (w'.my_endpoints i).mutex.isSome = true
  cleared : ∀ i, (w.my_endpoints i).sub_callback = none → (∀ cb, x ≠ .setCallback i cb) →
    (w'.my_endpoints i).sub_callback = none
  kept : ∀ i, (w.my_endpoints i).sub_callback ≠ none → (i.val = 0 → ∀ j, x ≠ .clearCallback j) →
    (w'.my_endpoints i).sub_callback ≠ none
  next : ∀ y ∈ next, y.Inner

/-- A statement that leaves the statics. -/
theorem Effect.refl {w : MyMqtt n κ} {x : Stmt n κ} {next : List (Stmt n κ)}
    (hclient : w.client = x.clientAfter w.client) (hrunning : w.running = x.runningAfter w.running)
    (hx : ∀ i, x ≠ .createMutex i) (hnext : ∀ y ∈ next, y.Inner) : Effect w w x next :=
  ⟨hclient, hrunning, fun i h => h.resolve_right (hx i), fun _ h _ => h, fun _ h _ => h, hnext⟩

/-- A statement that writes one endpoint. -/
theorem Effect.setNode {w : MyMqtt n κ} {x : Stmt n κ} {i : Fin n} {node : MqttNode κ}
    (hclient : w.client = x.clientAfter w.client) (hrunning : w.running = x.runningAfter w.running)
    (hcreate : ∀ j, x = .createMutex j → j = i)
    (hmutex : (w.my_endpoints i).mutex.isSome = true ∨ x = .createMutex i →
      node.mutex.isSome = true)
    (hcleared : (w.my_endpoints i).sub_callback = none → (∀ cb, x ≠ .setCallback i cb) →
      node.sub_callback = none)
    (hkept : (w.my_endpoints i).sub_callback ≠ none → (i.val = 0 → ∀ j, x ≠ .clearCallback j) →
      node.sub_callback ≠ none) : Effect w (w.setNode i node) x [] := by
  refine ⟨hclient, hrunning, fun j hj => ?_, fun j hj hx => ?_, fun j hj hx => ?_, by simp⟩
  -- Each of the three is about the endpoint that is written, or about another one, which stays.
  all_goals
    by_cases hji : j = i
    · subst hji
      rw [setNode_self]
      tauto
    · rw [setNode_of_ne w hji]
      first
        | exact hj
        | exact hj.resolve_right fun h => hji (hcreate j h)

/-- Every statement has such an effect. -/
theorem exec_effect {w w' : MyMqtt n κ} {x : Stmt n κ} {calls : List (MqttCall n κ)}
    {next : List (Stmt n κ)} (h : exec w x = .done w' calls next) : Effect w w' x next := by
  cases x with
  | setClient c =>
    cases h
    exact ⟨rfl, rfl, by simp, fun _ h _ => h, fun _ h _ => h, by simp⟩
  | createMutex i =>
    cases h
    exact .setNode rfl rfl (by simp [eq_comm]) (fun _ => rfl) (fun h _ => h) (fun h _ => h)
  | clearCallback i =>
    cases h
    refine .setNode rfl rfl (by simp) (fun h => h.resolve_right (by simp)) (fun _ _ => rfl)
      fun _ h => ?_
    exact absurd rfl (h rfl i)
  | checkClient c =>
    simp only [exec] at h
    split_ifs at h
    cases h
    exact .refl rfl rfl (by simp) (by simp)
  | setRunning b =>
    cases h
    exact ⟨rfl, rfl, by simp, fun _ h _ => h, fun _ h _ => h, by simp⟩
  | upDown up =>
    cases h
    exact .refl rfl rfl (by simp) (by simp)
  | callSetup =>
    simp only [exec] at h
    split at h <;> cases h
    · exact .refl rfl rfl (by simp) (by simp)
    · refine .refl rfl rfl (by simp) fun y hy => ?_
      obtain ⟨r, -, rfl⟩ := List.mem_map.mp hy
      trivial
  | unsubscribe i =>
    simp only [exec] at h
    split at h <;> cases h
    exact .refl rfl rfl (by simp) (by simp)
  | dropSetup =>
    cases h
    exact ⟨rfl, rfl, by simp, fun _ h _ => h, fun _ h _ => h, by simp⟩
  | matchTopic i topic data =>
    simp only [exec] at h
    split at h
    · cases h
    · split_ifs at h <;> cases h
      · exact .refl rfl rfl (by simp) (by simp [Stmt.Inner])
      · exact .refl rfl rfl (by simp) (by simp)
  | register r =>
    simp only [exec] at h
    split_ifs at h <;> cases h
    · refine .refl rfl rfl (by simp) fun y hy => ?_
      unfold registerStmts at hy
      split at hy <;> simp at hy <;> rcases hy with rfl | rfl | rfl | rfl <;> trivial
    · exact .refl rfl rfl (by simp) (by simp)
  | writeTopic i s =>
    simp only [exec] at h
    split at h <;> cases h
    exact .setNode rfl rfl (by simp) (fun h => h.resolve_right (by simp)) (fun h _ => h)
      (fun h _ => h)
  | writeQos i qos =>
    cases h
    exact .setNode rfl rfl (by simp) (fun h => h.resolve_right (by simp)) (fun h _ => h)
      (fun h _ => h)
  | setCallback i cb =>
    cases h
    refine .setNode rfl rfl (by simp) (fun h => h.resolve_right (by simp)) (fun _ h => ?_) (by simp)
    exact absurd rfl (h cb)
  | subscribe i =>
    simp only [exec] at h
    split at h <;> cases h
    exact .refl rfl rfl (by simp) (by simp)
  | checkTopic topic =>
    simp only [exec] at h
    split_ifs at h
    cases h
    exact .refl rfl rfl (by simp) (by simp [publishStmts, Stmt.Inner])
  | take i =>
    simp only [exec] at h
    split at h <;> cases h
    exact .setNode rfl rfl (by simp) (fun _ => rfl) (fun h _ => h) (fun h _ => h)
  | callback i data =>
    simp only [exec] at h
    split at h <;> cases h
    exact .refl rfl rfl (by simp) (by simp)
  | publish i =>
    cases h
    exact .refl rfl rfl (by simp) (by simp)
  | give i =>
    simp only [exec] at h
    split_ifs at h
    cases h
    exact .setNode rfl rfl (by simp) (fun _ => rfl) (fun h _ => h) (fun h _ => h)

/-! ## The order of the statements -/

/-- The statement of `mqtt_app_start` that `x` has to come after is no longer to be done: a check of
the client comes after the client is stored, setting `running` after it is reset, a callback of the
first endpoint after the last time it is cleared, and taking a mutex after creating it. -/
def InOrder (client : ℕ) (s : Startup n κ) : Stmt n κ → Prop
  | .checkClient _ => .setClient client ∉ s.start
  | .setRunning true => .setRunning false ∉ s.start
  | .setCallback i _ => i.val = 0 → ∀ j, .clearCallback j ∉ s.start
  | .take i => .createMutex i ∉ s.start
  | _ => True

instance [DecidableEq κ] (client : ℕ) (s : Startup n κ) : DecidablePred (InOrder client s)
  | .checkClient _ => inferInstanceAs (Decidable (_ ∉ _))
  | .setRunning true => inferInstanceAs (Decidable (_ ∉ _))
  | .setCallback i _ =>
    inferInstanceAs (Decidable (i.val = 0 → ∀ j, .clearCallback j ∉ s.start))
  | .take _ => inferInstanceAs (Decidable (_ ∉ _))
  | .setRunning false | .setClient _ | .createMutex _ | .clearCallback _ | .upDown _ | .callSetup
  | .unsubscribe _ | .dropSetup | .matchTopic _ _ _ | .register _ | .writeTopic _ _ | .writeQos _ _
  | .subscribe _ | .checkTopic _ | .callback _ _ | .publish _ | .give _ => .isTrue trivial

/-- The statement finds the client that it checks, or the mutex that it takes. -/
def StmtOk (w : MyMqtt n κ) : Stmt n κ → Prop
  | .checkClient c => w.client = some c
  | .take i => (w.my_endpoints i).mutex.isSome = true
  | _ => True

instance (w : MyMqtt n κ) : DecidablePred (StmtOk w)
  | .checkClient c => inferInstanceAs (Decidable (w.client = some c))
  | .take i => inferInstanceAs (Decidable ((w.my_endpoints i).mutex.isSome = true))
  | .setRunning _ | .setClient _ | .createMutex _ | .clearCallback _ | .upDown _ | .callSetup
  | .unsubscribe _ | .dropSetup | .matchTopic _ _ _ | .register _ | .writeTopic _ _ | .writeQos _ _
  | .setCallback _ _ | .subscribe _ | .checkTopic _ | .callback _ _ | .publish _ | .give _ =>
    .isTrue trivial

/-- The last connection event that the client's task was given. -/
def lastConn (h : List StartupInput) : Option Bool :=
  h.foldl (fun last i =>
    match i with
    | .dispatch .connected => some true
    | .dispatch .disconnected => some false
    | _ => last) none

/-- What `mqtt_app_start` has done to the statics. -/
structure StartInv (client : ℕ) (start : List (Stmt n κ)) (w : MyMqtt n κ) : Prop where
  client : .setClient client ∉ start → w.client = some client
  mutex : ∀ i, .createMutex i ∉ start → (w.my_endpoints i).mutex.isSome = true
  callback : ∀ i, i.val = 0 → (∃ j, .clearCallback j ∈ start) →
    (w.my_endpoints i).sub_callback = none

/-- The invariant: the tasks have statements of their own to do, the statics are as
`mqtt_app_start` left them, and after a connect `running` is set or still to be set. -/
structure StartupInv (client : ℕ) (h : List StartupInput) (s : Startup n κ) : Prop where
  start : ∀ x ∈ s.start, x.OfStart client
  task : ∀ x ∈ s.task, x.OfTask client
  pubs : ∀ xs ∈ s.pubs, ∀ x ∈ xs, x.Inner
  done : StartInv client s.start s.w
  running : lastConn h = some true → .setRunning false ∉ s.task ∧
    (.setRunning true ∈ s.task ∨ s.w.running = true ∧ .setRunning false ∉ s.start)

/-- A step goes right: the statement finds what it needs, and no callback is overwritten with
null. -/
def StepOk (s : Startup n κ) (i : StartupInput) (s' : Startup n κ) : Prop :=
  (∀ x ∈ s.next i, StmtOk s.w x) ∧ ∀ j, (s.w.my_endpoints j).sub_callback ≠ none →
    (s'.w.my_endpoints j).sub_callback ≠ none

instance (s : Startup n κ) (i : StartupInput) (s' : Startup n κ) : Decidable (StepOk s i s') :=
  inferInstanceAs (Decidable (_ ∧ _))

/-- Such statements are also those of the client's task. -/
theorem Stmt.Inner.ofTask {client : ℕ} {x : Stmt n κ} (h : x.Inner) : x.OfTask client := by
  cases x <;> trivial

/-- A statement of another task, in order, leaves what `mqtt_app_start` has done. -/
theorem StartInv.effect {client : ℕ} {s : Startup n κ} {w' : MyMqtt n κ} {x : Stmt n κ}
    {next : List (Stmt n κ)} (hs : StartInv client s.start s.w) (hx : x.OfTask client)
    (ho : InOrder client s x) (he : Effect s.w w' x next) : StartInv client s.start w' := by
  refine ⟨fun hc => ?_, fun i hi => he.mutex i (.inl (hs.mutex i hi)), fun i hi hj => ?_⟩
  · have hsame : x.clientAfter s.w.client = s.w.client := by
      cases x <;> first | rfl | exact hx.elim
    rw [he.client, hsame, hs.client hc]
  · refine he.cleared i (hs.callback i hi hj) fun cb h => ?_
    subst h
    obtain ⟨j, hj⟩ := hj
    exact ho hi j hj

/-- A statement of another task, in order, finds what it needs. -/
theorem StartInv.stmtOk {client : ℕ} {s : Startup n κ} {x : Stmt n κ}
    (hs : StartInv client s.start s.w) (hx : x.OfTask client) (ho : InOrder client s x) :
    StmtOk s.w x := by
  cases x with
  | checkClient c =>
    obtain rfl : c = client := hx
    exact hs.client ho
  | take i => exact hs.mutex i ho
  | _ => trivial

/-- A statement of `mqtt_app_start` does its part. -/
theorem StartInv.effect_start {client : ℕ} {x : Stmt n κ} {xs next : List (Stmt n κ)}
    {w w' : MyMqtt n κ} (hs : StartInv client (x :: xs) w) (hx : x.OfStart client)
    (he : Effect w w' x next) : StartInv client xs w' := by
  refine ⟨fun hc => ?_, fun i hi => ?_, fun i hi hj => ?_⟩
  · rw [he.client]
    cases x with
    | setClient c => exact congrArg some hx
    | _ => exact hs.client (by simp [hc])
  · by_cases h : x = .createMutex i
    · exact he.mutex i (.inr h)
    · exact he.mutex i (.inl (hs.mutex i (by simp [hi, Ne.symm h])))
  · obtain ⟨j, hj⟩ := hj
    refine he.cleared i (hs.callback i hi ⟨j, List.mem_cons_of_mem _ hj⟩) fun cb h => ?_
    subst h
    exact hx.elim

/-- A statement is no connection event. -/
theorem lastConn_snoc_of_next {s : Startup n κ} {i : StartupInput} {x : Stmt n κ}
    (h : s.next i = some x) (hist : List StartupInput) :
    lastConn (hist ++ [i]) = lastConn hist := by
  rw [lastConn, List.foldl_append, ← lastConn]
  cases i with
  | dispatch e => cases h
  | _ => rfl

/-- A move that runs the statement `x` goes right when `x` finds what it needs and clears no
callback. -/
theorem StepOk.of_next {s s' : Startup n κ} {i : StartupInput} {x : Stmt n κ}
    (hnext : s.next i = some x) (hok : StmtOk s.w x)
    (hkept : ∀ j, (s.w.my_endpoints j).sub_callback ≠ none →
      (s'.w.my_endpoints j).sub_callback ≠ none) : StepOk s i s' := by
  refine ⟨fun y hy => ?_, hkept⟩
  rw [hnext] at hy
  cases hy
  exact hok

/-! ## The moves -/

/-- A move either runs its statement to the end, or ends the program. -/
theorem Startup.move_cases {s s' : Startup n κ} {x : Stmt n κ} {calls : List (MqttCall n κ)}
    {put : Startup n κ → List (Stmt n κ) → Startup n κ} (h : s.move x put = some (s', calls)) :
    (∃ w next, exec s.w x = .done w calls next ∧ s' = put { s with w := w } next) ∨
      s' = { s with aborted := true } := by
  unfold Startup.move at h
  split at h
  · rename_i w calls' next hexec
    cases h
    exact .inl ⟨w, next, hexec, rfl⟩
  · cases h
  · cases h
    exact .inr rfl

/-- The program may end at any statement. -/
theorem StartupInv.abort {client : ℕ} {h : List StartupInput} {s : Startup n κ}
    {i : StartupInput} {x : Stmt n κ} (hs : StartupInv client h s) (hnext : s.next i = some x) :
    StartupInv client (h ++ [i]) { s with aborted := true } := by
  refine ⟨hs.start, hs.task, hs.pubs, hs.done, fun hc => ?_⟩
  rw [lastConn_snoc_of_next hnext] at hc
  exact hs.running hc

/-- The next statement of `mqtt_app_start`. -/
theorem startupInv_start {client : ℕ} {h : List StartupInput} {s s' : Startup n κ}
    {calls : List (MqttCall n κ)} {x : Stmt n κ} {xs : List (Stmt n κ)}
    (hs : StartupInv client h s) (hstart : s.start = x :: xs)
    (hmove : s.move x (fun s next => { s with start := next ++ xs }) = some (s', calls)) :
    StartupInv client (h ++ [.start]) s' ∧ StepOk s .start s' := by
  have hnext : s.next .start = some x := by rw [Startup.next, hstart]; rfl
  have hx : x.OfStart client := hs.start x (by rw [hstart]; exact List.mem_cons_self)
  have hok : StmtOk s.w x := by cases x <;> trivial
  have hconn := lastConn_snoc_of_next hnext h
  rcases Startup.move_cases hmove with ⟨w, next, hexec, rfl⟩ | rfl
  · have he := exec_effect hexec
    have hnil : next = [] := by
      cases x with
      | setClient c => cases hexec; rfl
      | setRunning b => cases hexec; rfl
      | createMutex i => cases hexec; rfl
      | clearCallback i => cases hexec; rfl
      | _ => exact hx.elim
    subst hnil
    have hdone := hs.done
    rw [hstart] at hdone
    refine ⟨⟨fun y hy => hs.start y (by rw [hstart]; exact List.mem_cons_of_mem _ hy), hs.task,
      hs.pubs, hdone.effect_start hx he, fun hc => ?_⟩,
      .of_next hnext hok fun j hj => he.kept j hj ?_⟩
    · rw [hconn] at hc
      obtain ⟨hno, hrun⟩ := hs.running hc
      refine ⟨hno, hrun.imp_right fun ⟨hr, hreset⟩ => ?_⟩
      rw [hstart, List.mem_cons, not_or] at hreset
      refine ⟨?_, hreset.2⟩
      cases x with
      | setRunning b => exact absurd (by rw [show b = false from hx]) hreset.1
      | _ => exact he.running.trans hr
    · -- As long as callbacks are to be cleared, the first endpoint has none.
      rintro h0 k rfl
      exact hj (hdone.callback j h0 ⟨k, List.mem_cons_self⟩)
  · exact ⟨hs.abort hnext, .of_next hnext hok fun _ hj => hj⟩

/-- The next statement of the client's task. -/
theorem startupInv_task {client : ℕ} {h : List StartupInput} {s s' : Startup n κ}
    {calls : List (MqttCall n κ)} {x : Stmt n κ} {xs : List (Stmt n κ)}
    (hs : StartupInv client h s) (htask : s.task = x :: xs) (ho : InOrder client s x)
    (hmove : s.move x (fun s next => { s with task := next ++ xs }) = some (s', calls)) :
    StartupInv client (h ++ [.task]) s' ∧ StepOk s .task s' := by
  have hnext : s.next .task = some x := by rw [Startup.next, htask]; rfl
  have hx : x.OfTask client := hs.task x (by rw [htask]; exact List.mem_cons_self)
  have hok : StmtOk s.w x := hs.done.stmtOk hx ho
  have hconn := lastConn_snoc_of_next hnext h
  rcases Startup.move_cases hmove with ⟨w, next, hexec, rfl⟩ | rfl
  · have he := exec_effect hexec
    refine ⟨⟨hs.start, fun y hy => ?_, hs.pubs, hs.done.effect hx ho he, fun hc => ?_⟩,
      .of_next hnext hok fun j hj => he.kept j hj ?_⟩
    · rcases List.mem_append.mp hy with hy | hy
      · exact (he.next y hy).ofTask
      · exact hs.task y (by rw [htask]; exact List.mem_cons_of_mem _ hy)
    · rw [hconn] at hc
      obtain ⟨hno, hrun⟩ := hs.running hc
      rw [htask, List.mem_cons, not_or] at hno
      rw [htask, List.mem_cons] at hrun
      have hinner : ∀ b, .setRunning b ∉ next := fun b hb => he.next _ hb
      refine ⟨by simp [hinner, hno.2], ?_⟩
      rcases hrun with (rfl | hmem) | ⟨hr, hreset⟩
      · -- The statement sets `running`, and in order it comes after the reset.
        exact .inr ⟨he.running, ho⟩
      · exact .inl (List.mem_append_right _ hmem)
      · refine .inr ⟨?_, hreset⟩
        cases x with
        | setRunning b =>
          cases b with
          | false => exact absurd rfl hno.1
          | true => exact he.running
        | _ => exact he.running.trans hr
    · rintro - k rfl
      exact hx.elim
  · exact ⟨hs.abort hnext, .of_next hnext hok fun _ hj => hj⟩

/-- The next statement of a call of `publish_mqtt_topic`. -/
theorem startupInv_pub {client : ℕ} {h : List StartupInput} {s s' : Startup n κ}
    {calls : List (MqttCall n κ)} {k : ℕ} {x : Stmt n κ} {xs : List (Stmt n κ)}
    (hs : StartupInv client h s) (hpub : s.pubs[k]? = some (x :: xs)) (ho : InOrder client s x)
    (hmove : s.move x (fun s next => { s with pubs := s.pubs.set k (next ++ xs) }) =
      some (s', calls)) : StartupInv client (h ++ [.pub k]) s' ∧ StepOk s (.pub k) s' := by
  have hnext : s.next (.pub k) = some x := by rw [Startup.next, hpub]; rfl
  have hmem : (x :: xs) ∈ s.pubs := List.mem_of_getElem? hpub
  have hinner : x.Inner := hs.pubs _ hmem x List.mem_cons_self
  have hx : x.OfTask client := hinner.ofTask
  have hok : StmtOk s.w x := hs.done.stmtOk hx ho
  have hconn := lastConn_snoc_of_next hnext h
  rcases Startup.move_cases hmove with ⟨w, next, hexec, rfl⟩ | rfl
  · have he := exec_effect hexec
    refine ⟨⟨hs.start, hs.task, fun ys hys y hy => ?_, hs.done.effect hx ho he, fun hc => ?_⟩,
      .of_next hnext hok fun j hj => he.kept j hj ?_⟩
    · rcases List.mem_or_eq_of_mem_set hys with hys | rfl
      · exact hs.pubs ys hys y hy
      · rcases List.mem_append.mp hy with hy | hy
        · exact he.next y hy
        · exact hs.pubs _ hmem y (List.mem_cons_of_mem _ hy)
    · rw [hconn] at hc
      obtain ⟨hno, hrun⟩ := hs.running hc
      refine ⟨hno, hrun.imp_right fun ⟨hr, hreset⟩ => ⟨?_, hreset⟩⟩
      cases x with
      | setRunning b => exact hinner.elim
      | _ => exact he.running.trans hr
    · rintro - j rfl
      exact hx.elim
  · exact ⟨hs.abort hnext, .of_next hnext hok fun _ hj => hj⟩

/-- The statements of the handler are those of the client's task. -/
theorem handlerStmts_ofTask {client : ℕ} {e : MqttEvent} :
    ∀ x ∈ handlerStmts n κ client e, x.OfTask client := by
  intro x hx
  cases e with
  | connected => simp [handlerStmts] at hx; rcases hx with rfl | rfl | rfl | rfl <;> trivial
  | disconnected =>
    simp [handlerStmts] at hx
    rcases hx with rfl | rfl | rfl | ⟨i, rfl⟩ | rfl <;> trivial
  | data topic data => simp [handlerStmts] at hx; rcases hx with rfl | ⟨i, rfl⟩ <;> trivial
  | other => simp [handlerStmts] at hx; subst hx; trivial

/-- The client's task is given an event. -/
theorem startupInv_dispatch {client : ℕ} {h : List StartupInput} {s : Startup n κ}
    (hs : StartupInv client h s) (htask : s.task = []) (e : MqttEvent) :
    StartupInv client (h ++ [.dispatch e]) { s with task := handlerStmts n κ client e } := by
  refine ⟨hs.start, handlerStmts_ofTask, hs.pubs, hs.done, fun hc => ?_⟩
  rw [lastConn, List.foldl_append, ← lastConn] at hc
  cases e with
  | connected => exact ⟨by simp [handlerStmts], .inl (by simp [handlerStmts])⟩
  | disconnected => cases hc
  | data topic data =>
    have hrun := (hs.running hc).2
    rw [htask] at hrun
    exact ⟨by simp [handlerStmts], .inr (hrun.resolve_left (by simp))⟩
  | other =>
    have hrun := (hs.running hc).2
    rw [htask] at hrun
    exact ⟨by simp [handlerStmts], .inr (hrun.resolve_left (by simp))⟩

/-- A call of `publish_mqtt_topic` begins. -/
theorem startupInv_call {client : ℕ} {h : List StartupInput} {s : Startup n κ}
    (hs : StartupInv client h s) (topic : ℕ) : StartupInv client (h ++ [.call topic])
      (if s.w.running then { s with pubs := s.pubs ++ [[.checkTopic topic]] } else s) := by
  have hconn : lastConn (h ++ [.call topic]) = lastConn h := by
    rw [lastConn, List.foldl_append, ← lastConn]
    rfl
  split_ifs
  · refine ⟨hs.start, hs.task, fun xs hxs x hx => ?_, hs.done, fun hc => hs.running (hconn ▸ hc)⟩
    rcases List.mem_append.mp hxs with hxs | hxs
    · exact hs.pubs xs hxs x hx
    · obtain rfl := List.mem_singleton.mp hxs
      obtain rfl := List.mem_singleton.mp hx
      trivial
  · exact ⟨hs.start, hs.task, hs.pubs, hs.done, fun hc => hs.running (hconn ▸ hc)⟩

/-- Moves in order keep the invariant, and go right. -/
theorem startup_step {topics : List (Registration κ)} {is_updown_cb : Bool} {client : ℕ}
    {h : List StartupInput} {s s' : Startup n κ} {i : StartupInput}
    {calls : List (MqttCall n κ)} (hs : StartupInv client h s)
    (ho : ∀ x ∈ s.next i, InOrder client s x)
    (hstep : (startup n topics is_updown_cb client).step s i = some (s', calls)) :
    StartupInv client (h ++ [i]) s' ∧ StepOk s i s' := by
  have hab : ¬ s.aborted = true := by
    intro hab
    simp [startup, hab] at hstep
  simp only [startup] at hstep
  rw [if_neg hab] at hstep
  cases i with
  | start =>
    simp only at hstep
    split at hstep
    · cases hstep
    · rename_i x xs hstart
      exact startupInv_start hs hstart hstep
  | task =>
    simp only at hstep
    split at hstep
    · cases hstep
    · rename_i x xs htask
      exact startupInv_task hs htask (ho x (by rw [Startup.next, htask]; rfl)) hstep
  | pub k =>
    simp only at hstep
    split at hstep
    · rename_i x xs hpub
      exact startupInv_pub hs hpub (ho x (by rw [Startup.next, hpub]; rfl)) hstep
    · cases hstep
  | dispatch e =>
    simp only at hstep
    split_ifs at hstep with htask
    cases hstep
    exact ⟨startupInv_dispatch hs (List.isEmpty_iff.mp htask) e, by simp [Startup.next],
      fun _ hj => hj⟩
  | call topic =>
    cases hstep
    refine ⟨startupInv_call hs topic, by simp [Startup.next], fun j hj => ?_⟩
    split_ifs <;> exact hj

/-- Nothing is done when the client is started. -/
theorem startupInv_init (n : ℕ) (topics : List (Registration κ)) (is_updown_cb : Bool)
    (client : ℕ) : StartupInv client [] (startup n topics is_updown_cb client).init := by
  refine ⟨fun x hx => ?_, by simp [startup], by simp [startup], ⟨fun hc => ?_, fun i hi => ?_,
    fun _ _ _ => rfl⟩, by simp [lastConn]⟩
  · simp only [startup, startStmts, List.cons_append, List.nil_append, List.mem_cons,
      List.mem_flatMap, List.mem_finRange, true_and, List.not_mem_nil, or_false] at hx
    rcases hx with rfl | rfl | ⟨i, rfl | rfl⟩ <;> trivial
  · exact absurd (by simp [startup, startStmts]) hc
  · exact absurd (by simp [startup, startStmts]) hi

/-- In every run in order, no check of the client fails, no mutex is taken before it exists, and no
callback is overwritten with null; and when the client's task is idle, `running` is set if the last
connection event was a connect. -/
theorem startup_ok (n : ℕ) (topics : List (Registration κ)) (is_updown_cb : Bool) (client : ℕ)
    (run : List StartupInput)
    (horder : (startup n topics is_updown_cb client).AllSteps run fun _ s i _ _ =>
      ∀ x ∈ s.next i, InOrder client s x) :
    ((startup n topics is_updown_cb client).AllSteps run fun _ s i s' _ => StepOk s i s') ∧
      ∀ s calls, (startup n topics is_updown_cb client).run
          (startup n topics is_updown_cb client).init run = some (s, calls) →
        s.task = [] → lastConn run = some true → s.w.running = true := by
  have h0 := startupInv_init n topics is_updown_cb client
  have hkeep : ∀ h s i s' o, StartupInv client h s → (∀ x ∈ s.next i, InOrder client s x) →
      (startup n topics is_updown_cb client).step s i = some (s', o) →
      StartupInv client (h ++ [i]) s' := fun _ _ _ _ _ hs ho hstep => (startup_step hs ho hstep).1
  refine ⟨horder.mono_inv h0 hkeep fun _ _ _ _ _ hs ho hstep => (startup_step hs ho hstep).2,
    fun s calls hrun htask hconn => ?_⟩
  have hs := horder.inv h0 hkeep List.prefix_rfl hrun
  have hor := (hs.running hconn).2
  rw [htask] at hor
  exact (hor.resolve_left (by simp)).1

/-- `mqtt_app_start` is done before the client connects, and the topic `led` is registered and
published. -/
theorem startup_ok_led :
    (startup 1 ledSetup.topics false 1).AllSteps
      (List.replicate 4 .start ++ .dispatch .connected :: List.replicate 9 .task ++
        .call 0 :: List.replicate 4 (.pub 0)) fun _ s i s' _ => StepOk s i s' :=
  (startup_ok 1 ledSetup.topics false 1 _ (by decide +kernel)).1

/-- The client's task handles an event, such as the one before it connects, while
`mqtt_app_start` has not stored the client yet: the check fails. -/
theorem check_before_client :
    ∃ run, ¬ (startup 1 ledSetup.topics false 1).AllSteps run fun _ s i s' _ => StepOk s i s' :=
  ⟨[.dispatch .other, .task], by decide +kernel⟩

end PartLib.Mqtt
