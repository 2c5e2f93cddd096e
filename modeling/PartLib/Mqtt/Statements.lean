import PartLib.Mqtt.Wrapper

/-!
# The wrapper, a statement at a time

The wrapper's functions run in several tasks: `mqtt_app_start` in the application's, the event
handler in the client's, and `publish_mqtt_topic` in any. Here each function is a list of
statements, and `exec` runs one of them: the statement is done, and may put others before the rest
of its function (a call, or the body of an `if`); or it has to wait for a mutex; or it aborts the
program, at a failed check or a null pointer.

`Runs` is a list of statements with no other task in between. The functions of
`PartLib.Mqtt.Wrapper` are the runs of their statements (`runs_mqttEventHandler`,
`runs_mqttAppStart`).
-/

namespace PartLib.Mqtt

/-- The statements of the wrapper. -/
inductive Stmt (n : ℕ) (κ : Type*)
  | setClient (client : ℕ)
  | createMutex (i : Fin n)
  | clearCallback (i : Fin n)
  | checkClient (client : ℕ)
  | setRunning (b : Bool)
  | upDown (up : Bool)
  | callSetup
  | unsubscribe (i : Fin n)
  | dropSetup
  | matchTopic (i : Fin n) (topic data : List UInt8)
  | register (r : Registration κ)
  | writeTopic (i : Fin n) (s : List UInt8)
  | writeQos (i : Fin n) (qos : ℤ)
  | setCallback (i : Fin n) (cb : κ)
  | subscribe (i : Fin n)
  | checkTopic (topic : ℕ)
  | take (i : Fin n)
  | callback (i : Fin n) (data : List UInt8)
  | publish (i : Fin n)
  | give (i : Fin n)
  deriving DecidableEq

/-- What a statement does. -/
inductive Outcome (n : ℕ) (κ : Type*)
  | done (w : MyMqtt n κ) (calls : List (MqttCall n κ)) (next : List (Stmt n κ))
  | waits
  | aborts

variable {n : ℕ} {κ : Type*}

/-- The statements of `register_mqtt_topic` for an endpoint. -/
def registerStmts (i : Fin n) (r : Registration κ) : List (Stmt n κ) :=
  [.writeTopic i r.topic_string, .writeQos i r.qos] ++
    match r.sub_cb_fun with
    | none => []
    | some cb => [.setCallback i cb, .subscribe i]

/-- The statements of `publish_mqtt_topic` after its check of the topic. -/
def publishStmts (i : Fin n) : List (Stmt n κ) := [.take i, .publish i, .give i]

/-- One statement. -/
def exec (w : MyMqtt n κ) : Stmt n κ → Outcome n κ
  | .setClient client => .done { w with client := some client } [] []
  | .createMutex i => .done (w.setNode i { w.my_endpoints i with mutex := some false }) [] []
  | .clearCallback i =>
    let i₀ : Fin n := ⟨0, i.pos⟩
    .done (w.setNode i₀ { w.my_endpoints i₀ with sub_callback := none }) [] []
  | .checkClient client => if w.client = some client then .done w [] [] else .aborts
  | .setRunning b => .done { w with running := b } [] []
  | .upDown up => .done w (callUpDown w up) []
  | .callSetup =>
    match w.do_mqtt_init_from_top with
    | none => .done w [] []
    | some topics => .done w [] (topics.map .register)
  | .unsubscribe i =>
    match unsubscribeEndpoint w i with
    | none => .aborts
    | some calls => .done w calls []
  | .dropSetup => .done { w with do_mqtt_init_from_top := none } [] []
  | .matchTopic i topic data =>
    match strncmp topic (w.my_endpoints i).topic topic.length with
    | none => .aborts
    | some c =>
      -- The callback is read again when it is called.
      if c = 0 ∧ (w.my_endpoints i).sub_callback.isSome then
        .done w [] [.take i, .callback i data, .give i]
      else
        .done w [] []
  | .register r =>
    if h : r.enum_topic < n then .done w [] (registerStmts ⟨r.enum_topic, h⟩ r) else .done w [] []
  | .writeTopic i s =>
    match sprintfString (w.my_endpoints i).topic s with
    | none => .aborts
    | some topic => .done (w.setNode i { w.my_endpoints i with topic := topic }) [] []
  | .writeQos i qos => .done (w.setNode i { w.my_endpoints i with qos := qos }) [] []
  | .setCallback i cb =>
    .done (w.setNode i { w.my_endpoints i with sub_callback := some cb }) [] []
  | .subscribe i =>
    match cstr (w.my_endpoints i).topic with
    | none => .aborts
    | some t => .done w [.subscribe t 1] []
  | .checkTopic topic => if h : topic < n then .done w [] (publishStmts ⟨topic, h⟩) else .aborts
  | .take i =>
    match (w.my_endpoints i).mutex with
    | none => .aborts
    -- `portMAX_DELAY`: the task waits until the mutex is given.
    | some true => .waits
    | some false => .done (w.setNode i { w.my_endpoints i with mutex := some true }) [.take i] []
  | .callback i data =>
    match (w.my_endpoints i).sub_callback with
    | none => .aborts
    | some cb => .done w [.callback i cb data] []
  | .publish i => .done w [.publish i] []
  | .give i =>
    if (w.my_endpoints i).mutex = some true then
      .done (w.setNode i { w.my_endpoints i with mutex := some false }) [.give i] []
    else
      .aborts

/-- The statements of `mqtt_app_start` after `esp_mqtt_client_start`. -/
def startStmts (n : ℕ) (κ : Type*) (client : ℕ) : List (Stmt n κ) :=
  [.setClient client, .setRunning false] ++
    (List.finRange n).flatMap fun i => [.createMutex i, .clearCallback i]

/-- The statements of `mqtt_event_handler` for an event of the client. -/
def handlerStmts (n : ℕ) (κ : Type*) (client : ℕ) : MqttEvent → List (Stmt n κ)
  | .connected => [.checkClient client, .setRunning true, .upDown true, .callSetup]
  | .disconnected =>
    [.checkClient client, .setRunning false, .upDown false] ++
      (List.finRange n).map .unsubscribe ++ [.dropSetup]
  | .data topic data =>
    [.checkClient client] ++ (List.finRange n).map fun i => .matchTopic i topic data
  | .other => [.checkClient client]

/-! ## Statements without another task in between -/

/-- The statements run to their end, with nothing in between. -/
inductive Runs : MyMqtt n κ → List (Stmt n κ) → MyMqtt n κ → List (MqttCall n κ) → Prop
  | nil (w : MyMqtt n κ) : Runs w [] w []
  | cons {w w₁ w₂ : MyMqtt n κ} {x : Stmt n κ} {xs next : List (Stmt n κ)}
      {c₁ c₂ : List (MqttCall n κ)} (hx : exec w x = .done w₁ c₁ next)
      (hxs : Runs w₁ (next ++ xs) w₂ c₂) : Runs w (x :: xs) w₂ (c₁ ++ c₂)

/-- A statement that makes no call. -/
theorem Runs.expand {w w₁ w₂ : MyMqtt n κ} {x : Stmt n κ} {xs next : List (Stmt n κ)}
    {c : List (MqttCall n κ)} (hx : exec w x = .done w₁ [] next) (hxs : Runs w₁ (next ++ xs) w₂ c) :
    Runs w (x :: xs) w₂ c := .cons hx hxs

/-- A statement that makes no call, and puts no other before the rest. -/
theorem Runs.quiet {w w₁ w₂ : MyMqtt n κ} {x : Stmt n κ} {xs : List (Stmt n κ)}
    {c : List (MqttCall n κ)} (hx : exec w x = .done w₁ [] []) (hxs : Runs w₁ xs w₂ c) :
    Runs w (x :: xs) w₂ c := .cons hx hxs

/-- A statement that makes one call. -/
theorem Runs.call {w w₁ w₂ : MyMqtt n κ} {x : Stmt n κ} {xs : List (Stmt n κ)}
    {c : MqttCall n κ} {cs : List (MqttCall n κ)} (hx : exec w x = .done w₁ [c] [])
    (hxs : Runs w₁ xs w₂ cs) : Runs w (x :: xs) w₂ (c :: cs) := .cons hx hxs

/-- A last statement. -/
theorem Runs.last {w w₁ : MyMqtt n κ} {x : Stmt n κ} {c : List (MqttCall n κ)}
    (hx : exec w x = .done w₁ c []) : Runs w [x] w₁ c := by
  rw [← List.append_nil c]
  exact .cons hx (.nil w₁)

/-- Lists of statements one after the other. -/
theorem Runs.append {w w₁ w₂ : MyMqtt n κ} {xs ys : List (Stmt n κ)}
    {c₁ c₂ : List (MqttCall n κ)} (h₁ : Runs w xs w₁ c₁) (h₂ : Runs w₁ ys w₂ c₂) :
    Runs w (xs ++ ys) w₂ (c₁ ++ c₂) := by
  induction h₁ with
  | nil w => exact h₂
  | cons hx _ ih =>
    rw [List.cons_append, List.append_assoc]
    have hrest := ih h₂
    rw [List.append_assoc] at hrest
    exact .cons hx hrest

/-- The topic and the quality of service of an endpoint are written. -/
theorem runs_write {w : MyMqtt n κ} {i : Fin n} {s topic : List UInt8} (qos : ℤ)
    (h : sprintfString (w.my_endpoints i).topic s = some topic) :
    Runs w [.writeTopic i s, .writeQos i qos]
      (w.setNode i { w.my_endpoints i with topic := topic, qos := qos }) [] := by
  have htopic : exec w (.writeTopic i s) =
      .done (w.setNode i { w.my_endpoints i with topic := topic }) [] [] := by
    simp only [exec, h]
  refine .quiet htopic (.last ?_)
  simp only [exec, setNode_self, setNode_setNode]

/-- `register_mqtt_topic` is the run of its statements. -/
theorem runs_registerMqttTopic {w w' : MyMqtt n κ} {r : Registration κ}
    {calls : List (MqttCall n κ)} (h : registerMqttTopic w r = some (w', calls)) :
    Runs w [.register r] w' calls := by
  unfold registerMqttTopic at h
  split_ifs at h with hn
  · let i : Fin n := ⟨r.enum_topic, hn⟩
    obtain ⟨topic, htopic, h⟩ := Option.bind_eq_some_iff.mp h
    have hregister : exec w (.register r) = .done w [] (registerStmts i r) := by
      simp only [exec, hn, dif_pos, i]
    have hwrite := runs_write r.qos htopic
    refine .expand hregister ?_
    rw [List.append_nil, registerStmts]
    cases hcb : r.sub_cb_fun with
    | none =>
      rw [hcb] at h
      cases h
      exact hwrite
    | some cb =>
      rw [hcb] at h
      obtain ⟨t, ht, he⟩ := Option.map_eq_some_iff.mp h
      cases he
      refine hwrite.append (.quiet rfl (.last ?_))
      simp only [exec, setNode_self, setNode_setNode, i, ht]
  · cases h
    refine .last ?_
    simp only [exec, hn, dif_neg, not_false_eq_true]

/-- The setup function is the run of its registrations. -/
theorem runs_runSetup {rs : List (Registration κ)} : ∀ {w w' : MyMqtt n κ}
    {calls : List (MqttCall n κ)}, runSetup rs w = some (w', calls) →
      Runs w (rs.map .register) w' calls := by
  induction rs with
  | nil =>
    intro w w' calls h
    cases h
    exact .nil w
  | cons r rs ih =>
    intro w w' calls h
    obtain ⟨⟨w₁, c₁⟩, h₁, h⟩ := Option.bind_eq_some_iff.mp h
    obtain ⟨⟨w₂, c₂⟩, h₂, he⟩ := Option.map_eq_some_iff.mp h
    cases he
    exact (runs_registerMqttTopic h₁).append (ih h₂)

/-- A loop over the endpoints whose passes leave the statics is the run of its passes. -/
theorem runs_forEndpoints {w : MyMqtt n κ} {f : Fin n → Option (List (MqttCall n κ))}
    {x : Fin n → Stmt n κ} (hpass : ∀ i calls, f i = some calls → Runs w [x i] w calls)
    {calls : List (MqttCall n κ)} (h : forEndpoints f = some calls) :
    Runs w ((List.finRange n).map x) w calls := by
  obtain ⟨parts, hparts, rfl⟩ := Option.map_eq_some_iff.mp h
  clear h
  -- The induction is on the endpoints that are left, so these may be any list.
  generalize List.finRange n = is at hparts
  induction is generalizing parts with
  | nil =>
    rw [List.mapM_nil] at hparts
    cases hparts
    exact .nil w
  | cons i is ih =>
    rw [List.mapM_cons] at hparts
    obtain ⟨c, hc, hparts⟩ := Option.bind_eq_some_iff.mp hparts
    obtain ⟨cs, hcs, he⟩ := Option.bind_eq_some_iff.mp hparts
    cases he
    exact (hpass i c hc).append (ih cs hcs)

/-- What `parse_mqtt_topic` does at an endpoint, when its mutex is free. -/
theorem runs_parseEndpoint {w : MyMqtt n κ} {topic data : List UInt8} {i : Fin n}
    {calls : List (MqttCall n κ)} (hfree : (w.my_endpoints i).mutex ≠ some true)
    (h : parseEndpoint w topic data i = some calls) :
    Runs w [.matchTopic i topic data] w calls := by
  obtain ⟨c, hc, h⟩ := Option.bind_eq_some_iff.mp h
  by_cases hz : c = 0
  · cases hcb : (w.my_endpoints i).sub_callback with
    | none =>
      rw [if_pos hz, hcb] at h
      cases h
      exact .last (by simp [exec, hc, hcb])
    | some cb =>
      rw [if_pos hz, hcb] at h
      simp only at h
      split_ifs at h with hm
      cases h
      have hmutex : (w.my_endpoints i).mutex = some false := by
        obtain ⟨b, hb⟩ := Option.isSome_iff_exists.mp hm
        cases b with
        | false => exact hb
        | true => exact absurd hb hfree
      have hmatch : exec w (.matchTopic i topic data) =
          .done w [] [.take i, .callback i data, .give i] := by
        simp [exec, hc, hz, hcb]
      -- The mutex is taken and given again, which leaves the statics as they were.
      let w₁ := w.setNode i { w.my_endpoints i with mutex := some true }
      have htake : exec w (.take i) = .done w₁ [.take i] [] := by simp only [exec, hmutex, w₁]
      have hcall : exec w₁ (.callback i data) = .done w₁ [.callback i cb data] [] := by
        simp only [exec, w₁, setNode_self, hcb]
      have hgive : exec w₁ (.give i) = .done w [.give i] [] := by
        simp only [exec, w₁, setNode_self, setNode_setNode, if_true]
        rw [setNode_same w (by simp [← hmutex])]
      exact .expand hmatch (.call htake (.call hcall (.last hgive)))
  · rw [if_neg hz] at h
    cases h
    exact .last (by simp [exec, hc, hz])

/-- `mqtt_event_handler` is the run of its statements, when no mutex is taken. -/
theorem runs_mqttEventHandler {w w' : MyMqtt n κ} {client : ℕ} {e : MqttEvent}
    {calls : List (MqttCall n κ)} (hfree : ∀ i, (w.my_endpoints i).mutex ≠ some true)
    (h : mqttEventHandler w client e = some (w', calls)) :
    Runs w (handlerStmts n κ client e) w' calls := by
  have hc := client_of_handler h
  have hcheck : exec w (.checkClient client) = .done w [] [] := by simp only [exec, hc, if_true]
  cases e with
  | connected =>
    let w₁ : MyMqtt n κ := { w with running := true }
    have hrunning : exec w (.setRunning true) = .done w₁ [] [] := rfl
    have hup : exec w₁ (.upDown true) = .done w₁ (callUpDown w₁ true) [] := rfl
    refine .quiet hcheck (.quiet hrunning ?_)
    cases hsetup : w.do_mqtt_init_from_top with
    | none =>
      rw [handler_connected_none hc hsetup] at h
      cases h
      have hcall : exec w₁ .callSetup = .done w₁ [] [] := by simp only [exec, w₁, hsetup]
      simpa using Runs.cons hup (.quiet hcall (.nil w₁))
    | some topics =>
      rw [handler_connected_some hc hsetup] at h
      obtain ⟨⟨w₂, c₂⟩, hrun, he⟩ := Option.map_eq_some_iff.mp h
      cases he
      have hcall : exec w₁ .callSetup = .done w₁ [] (topics.map .register) := by
        simp only [exec, w₁, hsetup]
      refine .cons hup (.expand hcall ?_)
      rw [List.append_nil]
      exact runs_runSetup hrun
  | disconnected =>
    let w₁ : MyMqtt n κ := { w with running := false }
    rw [mqttEventHandler, if_pos hc] at h
    obtain ⟨calls', hloop, he⟩ := Option.map_eq_some_iff.mp h
    cases he
    have hpass : ∀ i c, unsubscribeEndpoint w₁ i = some c → Runs w₁ [.unsubscribe i] w₁ c := by
      intro i c hi
      exact .last (by simp only [exec, hi])
    have hrunning : exec w (.setRunning false) = .done w₁ [] [] := rfl
    have hup : exec w₁ (.upDown false) = .done w₁ (callUpDown w₁ false) [] := rfl
    have hdrop : exec w₁ .dropSetup = .done { w₁ with do_mqtt_init_from_top := none } [] [] := rfl
    have hrest := (runs_forEndpoints hpass hloop).append (.last hdrop)
    rw [List.append_nil] at hrest
    exact .quiet hcheck (.quiet hrunning (.cons hup hrest))
  | data topic data =>
    rw [mqttEventHandler, if_pos hc] at h
    obtain ⟨calls', hloop, he⟩ := Option.map_eq_some_iff.mp h
    cases he
    exact .quiet hcheck (runs_forEndpoints (fun i c hi => runs_parseEndpoint (hfree i) hi) hloop)
  | other =>
    rw [mqttEventHandler, if_pos hc] at h
    cases h
    exact .last hcheck

/-- The passes of the loop of `mqtt_app_start`. -/
theorem runs_startEndpoint (is : List (Fin n)) (w : MyMqtt n κ) :
    Runs w (is.flatMap fun i => [.createMutex i, .clearCallback i]) (is.foldl startEndpoint w)
      [] := by
  induction is generalizing w with
  | nil => exact .nil w
  | cons i is ih => exact .quiet rfl (.quiet rfl (ih (startEndpoint w i)))

/-- `mqtt_app_start` is the run of its statements. -/
theorem runs_mqttAppStart (w : MyMqtt n κ) (client : ℕ) :
    Runs w (startStmts n κ client) (mqttAppStart w client) [] :=
  .quiet rfl (.quiet rfl (runs_startEndpoint (List.finRange n) _))

end PartLib.Mqtt
