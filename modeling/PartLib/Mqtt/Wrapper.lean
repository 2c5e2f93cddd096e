import PartLib.Lib.CString
import Mathlib.Data.List.FinRange

/-!
# The MQTT wrapper

The statics of `mqtt_main.c` and its functions, in a state where no other task runs. There are `n`
endpoints, for `TOPIC_NUM_TOPICS`, which the application defines, and a callback is an element of
`κ`. The setup function of the application is the list of the topics that it registers. A function
has no result where an `ESP_ERROR_CHECK` fails or memory is accessed outside an array.
-/

namespace PartLib.Mqtt

/-- `TOPIC_MAX_LEN`. -/
def topicMaxLen : ℕ := 128

/-- An endpoint, `mqtt_node_t`. The mutex is null until it is created; then it is taken or not. -/
structure MqttNode (κ : Type*) where
  mutex : Option Bool
  qos : ℤ
  topic : List UInt8
  sub_callback : Option κ

/-- The arguments of `register_mqtt_topic`. -/
structure Registration (κ : Type*) where
  enum_topic : ℕ
  topic_string : List UInt8
  qos : ℤ
  sub_cb_fun : Option κ
  deriving DecidableEq

/-- The statics of `mqtt_main.c`; the handle of a client is a number. -/
structure MyMqtt (n : ℕ) (κ : Type*) where
  running : Bool
  client : Option ℕ
  if_updown : Bool
  my_endpoints : Fin n → MqttNode κ
  do_mqtt_init_from_top : Option (List (Registration κ))

/-- The calls that the wrapper makes. -/
inductive MqttCall (n : ℕ) (κ : Type*)
  | subscribe (topic : List UInt8) (qos : ℤ)
  | unsubscribe (topic : List UInt8)
  | publish (i : Fin n)
  | take (i : Fin n)
  | give (i : Fin n)
  | callback (i : Fin n) (cb : κ) (data : List UInt8)
  | upDown (up : Bool)
  deriving DecidableEq

/-- The events that the handler tells apart. The topic of `MQTT_EVENT_DATA` has `topic_len` bytes,
and the data `data_len`. -/
inductive MqttEvent
  | connected
  | disconnected
  | data (topic data : List UInt8)
  | other
  deriving DecidableEq

variable {n : ℕ} {κ : Type*}

/-- A change of one endpoint. -/
def MyMqtt.setNode (w : MyMqtt n κ) (i : Fin n) (node : MqttNode κ) : MyMqtt n κ :=
  { w with my_endpoints := Function.update w.my_endpoints i node }

/-- `register_mqtt_topic`. -/
def registerMqttTopic (w : MyMqtt n κ) (r : Registration κ) :
    Option (MyMqtt n κ × List (MqttCall n κ)) :=
  if h : r.enum_topic < n then
    let i : Fin n := ⟨r.enum_topic, h⟩
    (sprintfString (w.my_endpoints i).topic r.topic_string).bind fun topic =>
      let node := { w.my_endpoints i with topic := topic, qos := r.qos }
      match r.sub_cb_fun with
      -- Without a callback the endpoint keeps the one that it has.
      | none => some (w.setNode i node, [])
      | some cb =>
        (cstr topic).map fun t =>
          (w.setNode i { node with sub_callback := some cb }, [.subscribe t 1])
  else
    some (w, [])

/-- The setup function: its registrations, one after another. -/
def runSetup : List (Registration κ) → MyMqtt n κ → Option (MyMqtt n κ × List (MqttCall n κ))
  | [], w => some (w, [])
  | r :: rs, w =>
    (registerMqttTopic w r).bind fun p => (runSetup rs p.1).map fun q => (q.1, p.2 ++ q.2)

/-- A loop over the endpoints: the calls of all of them. -/
def forEndpoints (f : Fin n → Option (List (MqttCall n κ))) : Option (List (MqttCall n κ)) :=
  ((List.finRange n).mapM f).map List.flatten

/-- What `parse_mqtt_topic` does at one endpoint. -/
def parseEndpoint (w : MyMqtt n κ) (topic data : List UInt8) (i : Fin n) :
    Option (List (MqttCall n κ)) :=
  (strncmp topic (w.my_endpoints i).topic topic.length).bind fun c =>
    if c = 0 then
      match (w.my_endpoints i).sub_callback with
      | none => some []
      | some cb =>
        if (w.my_endpoints i).mutex.isSome then some [.take i, .callback i cb data, .give i]
        else none
    else
      some []

/-- `parse_mqtt_topic`. -/
def parseMqttTopic (w : MyMqtt n κ) (topic data : List UInt8) : Option (List (MqttCall n κ)) :=
  forEndpoints (parseEndpoint w topic data)

/-- The topic that an endpoint with a callback unsubscribes from. -/
def unsubscribeEndpoint (w : MyMqtt n κ) (i : Fin n) : Option (List (MqttCall n κ)) :=
  match (w.my_endpoints i).sub_callback with
  | none => some []
  | some _ => (cstr (w.my_endpoints i).topic).map fun t => [.unsubscribe t]

/-- The call of the application's callback for the connection. -/
def callUpDown (w : MyMqtt n κ) (up : Bool) : List (MqttCall n κ) :=
  if w.if_updown then [.upDown up] else []

/-- `mqtt_event_handler`, on an event of the client `client`. -/
def mqttEventHandler (w : MyMqtt n κ) (client : ℕ) (e : MqttEvent) :
    Option (MyMqtt n κ × List (MqttCall n κ)) :=
  if w.client = some client then
    match e with
    | .connected =>
      let w' := { w with running := true }
      match w'.do_mqtt_init_from_top with
      -- The setup function was dropped, or there never was one.
      | none => some (w', callUpDown w' true)
      | some topics => (runSetup topics w').map fun q => (q.1, callUpDown w' true ++ q.2)
    | .disconnected =>
      let w' := { w with running := false }
      (forEndpoints (unsubscribeEndpoint w')).map fun calls =>
        ({ w' with do_mqtt_init_from_top := none }, callUpDown w' false ++ calls)
    | .data topic data => (parseMqttTopic w topic data).map fun calls => (w, calls)
    | .other => some (w, [])
  else
    none

/-- The statics when the program starts. -/
def MyMqtt.boot (n : ℕ) (κ : Type*) : MyMqtt n κ where
  running := false
  client := none
  if_updown := false
  my_endpoints _ := ⟨none, 0, List.replicate topicMaxLen 0, none⟩
  do_mqtt_init_from_top := none

/-- `mqtt_init` up to `esp_mqtt_client_start`, which starts the client's task: the client, with the
handle `client`, is not stored yet. -/
def mqttInit (w : MyMqtt n κ) (top_level_init_fun : Option (List (Registration κ)))
    (is_updown_cb : Bool) : MyMqtt n κ :=
  { w with
    do_mqtt_init_from_top := top_level_init_fun <|> w.do_mqtt_init_from_top
    if_updown := is_updown_cb || w.if_updown
    running := false }

/-- One pass of the loop of `mqtt_app_start`: it creates the mutex of an endpoint, and clears the
callback of the first one. -/
def startEndpoint (w : MyMqtt n κ) (i : Fin n) : MyMqtt n κ :=
  let w := w.setNode i { w.my_endpoints i with mutex := some false }
  -- `my_mqtt.my_endpoints->mqtt_node` is the node of the first endpoint, whatever `i` is.
  w.setNode ⟨0, i.pos⟩ { w.my_endpoints ⟨0, i.pos⟩ with sub_callback := none }

/-- `mqtt_app_start` after `esp_mqtt_client_start`. -/
def mqttAppStart (w : MyMqtt n κ) (client : ℕ) : MyMqtt n κ :=
  (List.finRange n).foldl startEndpoint { w with client := some client, running := false }

/-- Every endpoint has a mutex, and its topic is an array that holds a string. -/
structure TableOk (w : MyMqtt n κ) : Prop where
  length : ∀ i, (w.my_endpoints i).topic.length = topicMaxLen
  topic : ∀ i, (cstr (w.my_endpoints i).topic).isSome = true
  mutex : ∀ i, (w.my_endpoints i).mutex.isSome = true

/-! ## Loops over the endpoints -/

/-- A loop whose passes all have results has the results of all, in order. -/
theorem forEndpoints_eq {f : Fin n → Option (List (MqttCall n κ))}
    {g : Fin n → List (MqttCall n κ)} (h : ∀ i, f i = some (g i)) :
    forEndpoints f = some ((List.finRange n).flatMap g) := by
  have hmap : ∀ is : List (Fin n), is.mapM f = some (is.map g) := by
    intro is
    induction is with
    | nil => rfl
    | cons i is ih => simp [h i, ih]
  rw [forEndpoints, hmap, Option.map_some, List.flatMap_def]

/-- A loop that has a result is one whose passes all have results. -/
theorem forEndpoints_eq_some {f : Fin n → Option (List (MqttCall n κ))}
    {calls : List (MqttCall n κ)} (h : forEndpoints f = some calls) :
    ∃ g : Fin n → List (MqttCall n κ), (∀ i, f i = some (g i)) ∧
      calls = (List.finRange n).flatMap g := by
  have hpass : ∀ {is : List (Fin n)} {parts : List (List (MqttCall n κ))},
      is.mapM f = some parts → ∀ i ∈ is, ∃ c, f i = some c := by
    intro is
    induction is with
    | nil => simp
    | cons i is ih =>
      intro parts hparts
      rw [List.mapM_cons] at hparts
      obtain ⟨c, hc, hparts⟩ := Option.bind_eq_some_iff.mp hparts
      obtain ⟨cs, hcs, -⟩ := Option.bind_eq_some_iff.mp hparts
      exact List.forall_mem_cons.mpr ⟨⟨c, hc⟩, ih hcs⟩
  obtain ⟨parts, hparts, -⟩ := Option.map_eq_some_iff.mp h
  choose g hg using fun i => hpass hparts i (List.mem_finRange i)
  exact ⟨g, hg, Option.some.inj (h.symm.trans (forEndpoints_eq hg))⟩

/-- The endpoint that is written. -/
@[simp]
theorem setNode_self (w : MyMqtt n κ) (i : Fin n) (node : MqttNode κ) :
    (w.setNode i node).my_endpoints i = node := Function.update_self ..

/-- Writing an endpoint twice. -/
@[simp]
theorem setNode_setNode (w : MyMqtt n κ) (i : Fin n) (a b : MqttNode κ) :
    (w.setNode i a).setNode i b = w.setNode i b := by
  simp [MyMqtt.setNode]

/-- Writing an endpoint as it is changes nothing. -/
theorem setNode_same (w : MyMqtt n κ) {i : Fin n} {node : MqttNode κ}
    (h : w.my_endpoints i = node) : w.setNode i node = w := by
  simp [MyMqtt.setNode, ← h]

/-- The other endpoints stay. -/
theorem setNode_of_ne (w : MyMqtt n κ) {i j : Fin n} (h : j ≠ i) (node : MqttNode κ) :
    (w.setNode i node).my_endpoints j = w.my_endpoints j := Function.update_of_ne h ..

/-! ## The handler -/

/-- The handler goes on only with events of its own client. -/
theorem client_of_handler {w : MyMqtt n κ} {client : ℕ} {e : MqttEvent}
    {r : MyMqtt n κ × List (MqttCall n κ)} (h : mqttEventHandler w client e = some r) :
    w.client = some client := by
  by_contra hne
  simp [mqttEventHandler, hne] at h

/-- A connect while the setup function is there runs it. -/
theorem handler_connected_some {w : MyMqtt n κ} {client : ℕ} {topics : List (Registration κ)}
    (hc : w.client = some client) (hsetup : w.do_mqtt_init_from_top = some topics) :
    mqttEventHandler w client .connected = (runSetup topics { w with running := true }).map
      fun q => (q.1, callUpDown { w with running := true } true ++ q.2) := by
  obtain ⟨running, client', if_updown, nodes, setup⟩ := w
  subst hc hsetup
  simp [mqttEventHandler]

/-- A connect without a setup function only reports it. -/
theorem handler_connected_none {w : MyMqtt n κ} {client : ℕ} (hc : w.client = some client)
    (hsetup : w.do_mqtt_init_from_top = none) : mqttEventHandler w client .connected =
      some ({ w with running := true }, callUpDown { w with running := true } true) := by
  obtain ⟨running, client', if_updown, nodes, setup⟩ := w
  subst hc hsetup
  simp [mqttEventHandler]

end PartLib.Mqtt
