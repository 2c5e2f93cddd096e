import PartLib.Mqtt.Topic
import PartLib.Lib.Machine

/-!
# Subscriptions after a reconnection

The client reconnects by itself, with a clean session, so that every endpoint with a callback has to
be subscribed again after a `MQTT_EVENT_CONNECTED`. The setup function does it, but the handler
drops the setup function at the first `MQTT_EVENT_DISCONNECTED`.

After a `MQTT_EVENT_CONNECTED` that follows one, no endpoint is subscribed. The endpoints with a
callback are then those that the setup function registers with one, if it ever ran
(`subscribed_iff`).
-/

namespace PartLib.Mqtt

variable {n : ℕ} {κ : Type*}

/-- The setup function of an application: the topics that it registers are strings that fit. -/
structure SetupFunction (κ : Type*) where
  topics : List (Registration κ)
  no_null : ∀ r ∈ topics, 0 ∉ r.topic_string
  length_lt : ∀ r ∈ topics, r.topic_string.length < topicMaxLen

/-- The setup function registers a callback for the endpoint. -/
def SetupFunction.HasCallback (f : SetupFunction κ) (i : Fin n) : Prop :=
  ∃ r ∈ f.topics, r.enum_topic = i.val ∧ r.sub_cb_fun.isSome = true

/-- The last topic that is registered for an endpoint. -/
def lastTopic (i : ℕ) : List (Registration κ) → Option (List UInt8)
  | [] => none
  | r :: rs => lastTopic i rs <|> if r.enum_topic = i then some r.topic_string else none

/-- The setup function subscribes the topics that it leaves the endpoints with a callback with. It
does when it registers each endpoint once (`subscribes_of_nodup`). -/
def SetupFunction.Subscribes (f : SetupFunction κ) (n : ℕ) : Prop :=
  ∀ i : Fin n, f.HasCallback i → ∃ r ∈ f.topics, r.enum_topic < n ∧ r.sub_cb_fun.isSome = true ∧
    lastTopic i f.topics = some r.topic_string

/-- The topics that a list of calls subscribes. -/
def subscriptions (calls : List (MqttCall n κ)) : List (List UInt8) :=
  calls.filterMap fun c =>
    match c with
    | .subscribe topic _ => some topic
    | _ => none

/-- The endpoint's topic is subscribed. -/
def Subscribed (w : MyMqtt n κ) (calls : List (MqttCall n κ)) (i : Fin n) : Prop :=
  ∃ t ∈ subscriptions calls, cstr (w.my_endpoints i).topic = some t

instance (w : MyMqtt n κ) (calls : List (MqttCall n κ)) (i : Fin n) :
    Decidable (Subscribed w calls i) := inferInstanceAs (Decidable (∃ t ∈ _, _))

/-- The topics that the first calls subscribe, and then those of the others. -/
theorem subscriptions_append (c₁ c₂ : List (MqttCall n κ)) :
    subscriptions (c₁ ++ c₂) = subscriptions c₁ ++ subscriptions c₂ := List.filterMap_append

/-! ## Registering topics -/

/-- The statics but the endpoints are the same, and the topics have room for as many bytes. -/
structure SameButTopics (w w' : MyMqtt n κ) : Prop where
  client : w'.client = w.client
  setup : w'.do_mqtt_init_from_top = w.do_mqtt_init_from_top
  running : w'.running = w.running
  length : ∀ i, (w'.my_endpoints i).topic.length = (w.my_endpoints i).topic.length
  mutex : ∀ i, (w'.my_endpoints i).mutex = (w.my_endpoints i).mutex

/-- What the registrations `rs` make of the endpoints: each has the last topic registered for it,
and a callback if it had one or one is registered; the topics with callbacks are subscribed. -/
structure RegisteredAs (rs : List (Registration κ)) (w w' : MyMqtt n κ)
    (calls : List (MqttCall n κ)) : Prop where
  same : SameButTopics w w'
  topic : ∀ i : Fin n,
    cstr (w'.my_endpoints i).topic = (lastTopic i rs <|> cstr (w.my_endpoints i).topic)
  callback : ∀ i : Fin n, (w'.my_endpoints i).sub_callback ≠ none ↔
    (∃ r ∈ rs, r.enum_topic = i.val ∧ r.sub_cb_fun.isSome = true) ∨
      (w.my_endpoints i).sub_callback ≠ none
  subscribed : ∀ t, t ∈ subscriptions calls ↔
    ∃ r ∈ rs, r.enum_topic < n ∧ r.sub_cb_fun.isSome = true ∧ r.topic_string = t

/-- No registration. -/
theorem RegisteredAs.nil (w : MyMqtt n κ) : RegisteredAs [] w w [] where
  same := ⟨rfl, rfl, rfl, fun _ => rfl, fun _ => rfl⟩
  topic _ := rfl
  callback i := by simp
  subscribed t := by simp [subscriptions]

/-- A registration, and then the others. -/
theorem RegisteredAs.cons {r : Registration κ} {rs : List (Registration κ)} {w w₁ w₂ : MyMqtt n κ}
    {c₁ c₂ : List (MqttCall n κ)} (h₁ : RegisteredAs [r] w w₁ c₁) (h₂ : RegisteredAs rs w₁ w₂ c₂) :
    RegisteredAs (r :: rs) w w₂ (c₁ ++ c₂) where
  same := ⟨h₂.same.client.trans h₁.same.client, h₂.same.setup.trans h₁.same.setup,
    h₂.same.running.trans h₁.same.running, fun i => (h₂.same.length i).trans (h₁.same.length i),
    fun i => (h₂.same.mutex i).trans (h₁.same.mutex i)⟩
  topic i := by
    rw [h₂.topic, h₁.topic, lastTopic, lastTopic, lastTopic]
    cases lastTopic i rs <;> simp
  callback i := by
    rw [h₂.callback, h₁.callback]
    simp only [List.mem_cons, List.not_mem_nil, or_false, exists_eq_or_imp, exists_eq_left]
    exact or_left_comm.trans or_assoc.symm
  subscribed t := by
    rw [subscriptions_append, List.mem_append, h₁.subscribed, h₂.subscribed]
    simp only [List.mem_cons, List.not_mem_nil, or_false, exists_eq_or_imp, exists_eq_left]

/-- Writing one endpoint as a registration says. -/
theorem RegisteredAs.setNode {r : Registration κ} {w : MyMqtt n κ} {i : Fin n} {node : MqttNode κ}
    {calls : List (MqttCall n κ)} (hi : r.enum_topic = i.val)
    (hlen : node.topic.length = (w.my_endpoints i).topic.length)
    (hmutex : node.mutex = (w.my_endpoints i).mutex)
    (htopic : cstr node.topic = some r.topic_string)
    (hcb : node.sub_callback ≠ none ↔
      r.sub_cb_fun.isSome = true ∨ (w.my_endpoints i).sub_callback ≠ none)
    (hsub : ∀ t, t ∈ subscriptions calls ↔ r.sub_cb_fun.isSome = true ∧ r.topic_string = t) :
    RegisteredAs [r] w (w.setNode i node) calls := by
  have hne : ∀ {j : Fin n}, j ≠ i → r.enum_topic ≠ j.val := fun hj h =>
    hj (Fin.ext (h.symm.trans hi))
  refine ⟨⟨rfl, rfl, rfl, fun j => ?_, fun j => ?_⟩, fun j => ?_, fun j => ?_, fun t => ?_⟩
  · by_cases hj : j = i
    · rw [hj, setNode_self, hlen]
    · rw [setNode_of_ne w hj]
  · by_cases hj : j = i
    · rw [hj, setNode_self, hmutex]
    · rw [setNode_of_ne w hj]
  · by_cases hj : j = i
    · subst hj
      rw [setNode_self, htopic, lastTopic, lastTopic, if_pos hi]
      rfl
    · rw [setNode_of_ne w hj, lastTopic, lastTopic, if_neg (hne hj)]
      rfl
  · by_cases hj : j = i
    · subst hj
      rw [setNode_self, hcb]
      simp [hi]
    · rw [setNode_of_ne w hj]
      simp [hne hj]
  · rw [hsub]
    simp [hi]

/-- What `register_mqtt_topic` does. -/
theorem registerMqttTopic_spec (w : MyMqtt n κ) {r : Registration κ} (hnull : 0 ∉ r.topic_string)
    (hlen : r.topic_string.length < topicMaxLen)
    (hw : ∀ i, (w.my_endpoints i).topic.length = topicMaxLen) :
    ∃ w' calls, registerMqttTopic w r = some (w', calls) ∧ RegisteredAs [r] w w' calls := by
  by_cases hn : r.enum_topic < n
  · let i : Fin n := ⟨r.enum_topic, hn⟩
    obtain ⟨topic, htopic, hlen', hcstr⟩ := sprintfString_spec hnull (by rw [hw i]; exact hlen)
    let node := { w.my_endpoints i with topic := topic, qos := r.qos }
    rw [registerMqttTopic, dif_pos hn]
    simp only [i] at htopic
    simp only [htopic, Option.bind_some]
    cases hcb : r.sub_cb_fun with
    | none =>
      exact ⟨w.setNode i node, [], rfl,
        .setNode rfl hlen' rfl hcstr (by simp [hcb, node]) (by simp [hcb, subscriptions])⟩
    | some cb =>
      refine ⟨w.setNode i { node with sub_callback := some cb }, [.subscribe r.topic_string 1],
        by simp only [hcstr, Option.map_some]; rfl,
        .setNode rfl hlen' rfl hcstr (by simp [hcb]) (by simp [hcb, subscriptions, eq_comm])⟩
  · -- the wrapper has no such endpoint, and does nothing
    have hne : ∀ i : Fin n, r.enum_topic ≠ i.val := fun i h => hn (h ▸ i.isLt)
    refine ⟨w, [], by rw [registerMqttTopic, dif_neg hn],
      ⟨rfl, rfl, rfl, fun _ => rfl, fun _ => rfl⟩, fun i => ?_, fun i => ?_, fun t => ?_⟩
    · rw [lastTopic, lastTopic, if_neg (hne i)]
      rfl
    · simp [hne i]
    · simp [subscriptions, hn]

/-- What the setup function does. -/
theorem runSetup_spec {rs : List (Registration κ)} (hnull : ∀ r ∈ rs, 0 ∉ r.topic_string)
    (hlen : ∀ r ∈ rs, r.topic_string.length < topicMaxLen) (w : MyMqtt n κ)
    (hw : ∀ i, (w.my_endpoints i).topic.length = topicMaxLen) :
    ∃ w' calls, runSetup rs w = some (w', calls) ∧ RegisteredAs rs w w' calls := by
  induction rs generalizing w with
  | nil => exact ⟨w, [], rfl, .nil w⟩
  | cons r rs ih =>
    obtain ⟨w₁, calls₁, h₁, hreg₁⟩ := registerMqttTopic_spec w
      (hnull r List.mem_cons_self) (hlen r List.mem_cons_self) hw
    obtain ⟨w₂, calls₂, h₂, hreg₂⟩ := ih (fun q hq => hnull q (List.mem_cons_of_mem _ hq))
      (fun q hq => hlen q (List.mem_cons_of_mem _ hq)) w₁
      fun i => (hreg₁.same.length i).trans (hw i)
    refine ⟨w₂, calls₁ ++ calls₂, ?_, hreg₁.cons hreg₂⟩
    rw [runSetup, h₁, Option.bind_some, h₂, Option.map_some]

/-- A topic is registered last for an endpoint when one is registered for it. -/
theorem lastTopic_isSome {i : ℕ} {rs : List (Registration κ)} {r : Registration κ} (hr : r ∈ rs)
    (hi : r.enum_topic = i) : (lastTopic i rs).isSome = true := by
  induction rs with
  | nil => cases hr
  | cons q rs ih =>
    rw [lastTopic]
    rcases List.mem_cons.mp hr with rfl | hr
    · rw [if_pos hi]
      cases lastTopic i rs <;> rfl
    · obtain ⟨t, ht⟩ := Option.isSome_iff_exists.mp (ih hr)
      rw [ht]
      rfl

/-- No topic is the last for an endpoint that none is registered for. -/
theorem lastTopic_eq_none {i : ℕ} {rs : List (Registration κ)} (h : ∀ r ∈ rs, r.enum_topic ≠ i) :
    lastTopic i rs = none := by
  induction rs with
  | nil => rfl
  | cons r rs ih =>
    rw [lastTopic, ih fun q hq => h q (List.mem_cons_of_mem _ hq), if_neg (h r List.mem_cons_self)]
    rfl

/-- A topic that is registered alone for an endpoint is the last. -/
theorem lastTopic_of_nodup {rs : List (Registration κ)}
    (hnd : (rs.map Registration.enum_topic).Nodup) {r : Registration κ} (hr : r ∈ rs) :
    lastTopic r.enum_topic rs = some r.topic_string := by
  induction rs with
  | nil => cases hr
  | cons q rs ih =>
    rw [List.map_cons, List.nodup_cons] at hnd
    rw [lastTopic]
    rcases List.mem_cons.mp hr with rfl | hr
    · have hnone : lastTopic r.enum_topic rs = none :=
        lastTopic_eq_none fun q hq h => hnd.1 (List.mem_map.mpr ⟨q, hq, h⟩)
      rw [hnone, if_pos rfl]
      rfl
    · rw [ih hnd.2 hr]
      rfl

/-- A setup function that registers each endpoint once subscribes the topics that it leaves. -/
theorem subscribes_of_nodup {f : SetupFunction κ}
    (hnd : (f.topics.map Registration.enum_topic).Nodup) (n : ℕ) : f.Subscribes n := by
  rintro i ⟨r, hr, hi, hcb⟩
  exact ⟨r, hr, hi ▸ i.isLt, hcb, hi ▸ lastTopic_of_nodup hnd hr⟩

/-! ## Runs of the handler -/

/-- The handler, after `mqtt_init` at the start of the program, on the events of its client. -/
def mqttClient (n : ℕ) (f : SetupFunction κ) (is_updown_cb : Bool) (client : ℕ) :
    Machine (MyMqtt n κ) MqttEvent (MqttCall n κ) where
  init := mqttAppStart (mqttInit (.boot n κ) (some f.topics) is_updown_cb) client
  step w e := mqttEventHandler w client e

/-- The first connection event of a history. -/
def firstConn (h : List MqttEvent) : Option MqttEvent :=
  h.find? fun e => e = .connected ∨ e = .disconnected

/-- What holds of the statics after a history: the setup function is there until a disconnect, and
the endpoints have their callbacks from it if the first connection event was a connect. -/
structure ResubscribeInv (f : SetupFunction κ) (client : ℕ) (h : List MqttEvent) (w : MyMqtt n κ) :
    Prop where
  client : w.client = some client
  table : TableOk w
  setup : w.do_mqtt_init_from_top = if .disconnected ∈ h then none else some f.topics
  callback : ∀ i, (w.my_endpoints i).sub_callback ≠ none ↔
    firstConn h = some .connected ∧ f.HasCallback i

/-- A pass of the loop of `mqtt_app_start` leaves the topics. -/
theorem startEndpoint_topic (w : MyMqtt n κ) (j i : Fin n) :
    ((startEndpoint w j).my_endpoints i).topic = (w.my_endpoints i).topic := by
  by_cases h0 : i = ⟨0, j.pos⟩ <;> by_cases hj : i = j <;>
    simp_all [startEndpoint, MyMqtt.setNode, Function.update_apply]

/-- A pass of the loop of `mqtt_app_start` creates the mutex of its endpoint. -/
theorem startEndpoint_mutex (w : MyMqtt n κ) (j i : Fin n) :
    ((startEndpoint w j).my_endpoints i).mutex =
      if i = j then some false else (w.my_endpoints i).mutex := by
  by_cases h0 : i = ⟨0, j.pos⟩ <;> by_cases hj : i = j <;>
    simp_all [startEndpoint, MyMqtt.setNode, Function.update_apply]

/-- A pass of the loop of `mqtt_app_start` clears the callback of the first endpoint. -/
theorem startEndpoint_sub_callback (w : MyMqtt n κ) (j i : Fin n) :
    ((startEndpoint w j).my_endpoints i).sub_callback =
      if i.val = 0 then none else (w.my_endpoints i).sub_callback := by
  have hval : i.val = 0 ↔ i = ⟨0, j.pos⟩ := by rw [Fin.ext_iff]
  by_cases h0 : i = ⟨0, j.pos⟩ <;> by_cases hj : i = j <;>
    simp_all [startEndpoint, MyMqtt.setNode, Function.update_apply]

/-- What the passes of the loop of `mqtt_app_start` leave, and the mutexes that they create. -/
theorem foldl_startEndpoint (is : List (Fin n)) (w : MyMqtt n κ) :
    (is.foldl startEndpoint w).client = w.client ∧
      (is.foldl startEndpoint w).do_mqtt_init_from_top = w.do_mqtt_init_from_top ∧
      (∀ i, ((is.foldl startEndpoint w).my_endpoints i).topic = (w.my_endpoints i).topic) ∧
      (∀ i, i ∈ is ∨ (w.my_endpoints i).mutex.isSome = true →
        ((is.foldl startEndpoint w).my_endpoints i).mutex.isSome = true) ∧
      ((∀ i, (w.my_endpoints i).sub_callback = none) →
        ∀ i, ((is.foldl startEndpoint w).my_endpoints i).sub_callback = none) := by
  induction is generalizing w with
  | nil => exact ⟨rfl, rfl, fun _ => rfl, by simp, id⟩
  | cons j is ih =>
    obtain ⟨hclient, hsetup, htopic, hmutex, hcb⟩ := ih (startEndpoint w j)
    refine ⟨hclient, hsetup, fun i => (htopic i).trans (startEndpoint_topic w j i),
      fun i hi => hmutex i ?_, fun hw => hcb fun i => ?_⟩
    · rw [startEndpoint_mutex]
      split_ifs with hij
      · exact .inr rfl
      · exact hi.imp_left fun hmem => (List.mem_cons.mp hmem).resolve_left hij
    · rw [startEndpoint_sub_callback, hw i, ite_self]

/-- The statics once `mqtt_init` is done. -/
theorem resubscribeInv_init (f : SetupFunction κ) (is_updown_cb : Bool) (client : ℕ) :
    ResubscribeInv f client [] (mqttClient n f is_updown_cb client).init := by
  obtain ⟨hclient, hsetup, htopic, hmutex, hcb⟩ := foldl_startEndpoint (List.finRange n)
    { mqttInit (.boot n κ) (some f.topics) is_updown_cb with
      client := some client
      running := false }
  refine ⟨hclient, ⟨fun i => ?_, fun i => ?_, fun i => hmutex i (.inl (List.mem_finRange i))⟩,
    hsetup, fun i => ?_⟩
  · exact (congrArg List.length (htopic i)).trans List.length_replicate
  · -- An array of zeros holds the empty string.
    have hzero : (cstr (List.replicate topicMaxLen 0)).isSome = true := by decide
    exact (congrArg (Option.isSome ∘ cstr) (htopic i)).trans hzero
  · simp only [firstConn, List.find?_nil, reduceCtorEq, false_and, iff_false, not_not]
    exact hcb (fun _ => rfl) i

/-- An event is the first connection event when there was none before. -/
theorem firstConn_snoc (h : List MqttEvent) (e : MqttEvent) :
    firstConn (h ++ [e]) = (firstConn h).or (firstConn [e]) := List.find?_append

/-- A history with a disconnect has a first connection event. -/
theorem firstConn_of_mem {h : List MqttEvent} (hd : .disconnected ∈ h) :
    firstConn h = some .connected ∨ firstConn h = some .disconnected := by
  cases hfirst : firstConn h with
  | none => simpa using List.find?_eq_none.mp hfirst _ hd
  | some e =>
    have := List.find?_some hfirst
    simpa using this

/-- Without a disconnect, the first connection event can only be a connect. -/
theorem firstConn_snoc_connected {h : List MqttEvent} (hd : .disconnected ∉ h) :
    firstConn (h ++ [.connected]) = some .connected := by
  rw [firstConn_snoc]
  cases hfirst : firstConn h with
  | none => rfl
  | some e =>
    have hp := List.find?_some hfirst
    have hmem := List.mem_of_find?_eq_some hfirst
    simp only [decide_eq_true_eq] at hp
    rcases hp with rfl | rfl
    · rfl
    · exact absurd hmem hd

/-- A connect while the setup function is there registers all topics. -/
theorem handler_connected_setup {f : SetupFunction κ} {client : ℕ} {h : List MqttEvent}
    {w : MyMqtt n κ} (hs : ResubscribeInv f client h w) (hd : .disconnected ∉ h) :
    ∃ w' calls, mqttEventHandler w client .connected = some (w', calls) ∧
      ResubscribeInv f client (h ++ [.connected]) w' ∧
      ((∀ i, (w'.my_endpoints i).sub_callback ≠ none → Subscribed w' calls i) ↔
        f.Subscribes n) := by
  have hsetup : w.do_mqtt_init_from_top = some f.topics := by rw [hs.setup, if_neg hd]
  obtain ⟨w₁, calls₁, hrun, hreg⟩ := runSetup_spec f.no_null f.length_lt
    { w with running := true } hs.table.length
  have htable : TableOk w₁ := by
    refine ⟨fun i => (hreg.same.length i).trans (hs.table.length i), fun i => ?_, fun i => ?_⟩
    · have hold : (cstr (w.my_endpoints i).topic).isSome = true := hs.table.topic i
      rw [hreg.topic i]
      cases lastTopic i f.topics with
      | none => exact hold
      | some t => rfl
    · rw [hreg.same.mutex i]
      exact hs.table.mutex i
  -- A callback that was there before comes from an earlier run of the setup function.
  have hcb : ∀ i, (w₁.my_endpoints i).sub_callback ≠ none ↔ f.HasCallback i := by
    intro i
    rw [hreg.callback i]
    exact or_iff_left_of_imp fun hold => ((hs.callback i).mp hold).2
  have hsub : ∀ t, t ∈ subscriptions (callUpDown { w with running := true } true ++ calls₁) ↔
      t ∈ subscriptions calls₁ := by
    intro t
    rw [subscriptions_append]
    unfold callUpDown
    split_ifs <;> simp [subscriptions]
  refine ⟨w₁, _, by rw [handler_connected_some hs.client hsetup, hrun]; rfl,
    ⟨hreg.same.client.trans hs.client, htable, ?_, fun i => ?_⟩, forall_congr' fun i => ?_⟩
  · simpa [hd] using hreg.same.setup.trans hsetup
  · rw [hcb i, firstConn_snoc_connected hd]
    simp
  · rw [hcb i]
    refine forall_congr' fun hi => ?_
    obtain ⟨r, hr, hri, -⟩ := hi
    obtain ⟨t, ht⟩ := Option.isSome_iff_exists.mp (lastTopic_isSome hr hri)
    have htopic : cstr (w₁.my_endpoints i).topic = some t := by rw [hreg.topic i, ht]; rfl
    simp only [Subscribed, htopic, hsub, hreg.subscribed, ht, Option.some.injEq]
    constructor
    · rintro ⟨_, ⟨q, hq, hqn, hqcb, rfl⟩, rfl⟩
      exact ⟨q, hq, hqn, hqcb, rfl⟩
    · rintro ⟨q, hq, hqn, hqcb, rfl⟩
      exact ⟨_, ⟨q, hq, hqn, hqcb, rfl⟩, rfl⟩

/-- A connect after a disconnect subscribes nothing. -/
theorem handler_connected_dropped {f : SetupFunction κ} {client : ℕ} {h : List MqttEvent}
    {w : MyMqtt n κ} (hs : ResubscribeInv f client h w) (hd : .disconnected ∈ h) :
    ∃ w' calls, mqttEventHandler w client .connected = some (w', calls) ∧
      ResubscribeInv f client (h ++ [.connected]) w' ∧ ∀ i, ¬ Subscribed w' calls i := by
  refine ⟨_, _, handler_connected_none hs.client (by rw [hs.setup, if_pos hd]),
    ⟨hs.client, ⟨hs.table.length, hs.table.topic, hs.table.mutex⟩, ?_, fun i => ?_⟩, fun i => ?_⟩
  · simpa [hd] using hs.setup
  · rw [firstConn_snoc]
    rcases firstConn_of_mem hd with hf | hf <;> simpa [hf] using hs.callback i
  · rintro ⟨t, hmem, -⟩
    unfold callUpDown at hmem
    split_ifs at hmem <;> simp [subscriptions] at hmem

/-- Only a connect makes the first connection event a connect. -/
theorem firstConn_snoc_of_ne (h : List MqttEvent) {e : MqttEvent} (he : e ≠ .connected) :
    firstConn (h ++ [e]) = some .connected ↔ firstConn h = some .connected := by
  rw [firstConn_snoc]
  cases hf : firstConn h with
  | some e₁ => rfl
  | none => cases e <;> simp [firstConn] at he ⊢

/-- The other events leave the endpoints; a disconnect drops the setup function. -/
theorem handler_other {f : SetupFunction κ} {client : ℕ} {h : List MqttEvent} {w : MyMqtt n κ}
    {e : MqttEvent} (hs : ResubscribeInv f client h w) (he : e ≠ .connected) :
    ∃ w' calls, mqttEventHandler w client e = some (w', calls) ∧
      ResubscribeInv f client (h ++ [e]) w' := by
  have hcb : ∀ i, (w.my_endpoints i).sub_callback ≠ none ↔
      firstConn (h ++ [e]) = some .connected ∧ f.HasCallback i := by
    intro i
    rw [firstConn_snoc_of_ne h he]
    exact hs.callback i
  have htable : TableOk w := hs.table
  unfold mqttEventHandler
  rw [if_pos hs.client]
  cases e with
  | connected => exact absurd rfl he
  | disconnected =>
    have hloop : ∀ i, ∃ calls, unsubscribeEndpoint { w with running := false } i = some calls := by
      intro i
      obtain ⟨t, ht⟩ := Option.isSome_iff_exists.mp (htable.topic i)
      unfold unsubscribeEndpoint
      split
      · exact ⟨_, rfl⟩
      · exact ⟨_, by rw [ht]; rfl⟩
    choose calls hcalls using hloop
    exact ⟨{ w with running := false, do_mqtt_init_from_top := none }, _,
      by simp only [forEndpoints_eq hcalls, Option.map_some]; rfl, hs.client,
      ⟨htable.length, htable.topic, htable.mutex⟩, by simp, hcb⟩
  | data topic data =>
    obtain ⟨calls, hcalls, -⟩ := parseMqttTopic_calls htable.toTopicTable topic data
    have hparse : parseMqttTopic w topic data = some calls := hcalls
    exact ⟨w, calls, by simp only [hparse, Option.map_some], hs.client, htable,
      by simpa using hs.setup, hcb⟩
  | other => exact ⟨w, [], rfl, hs.client, htable, by simpa using hs.setup, hcb⟩

/-- Every event is handled, and keeps the invariant. -/
theorem mqttClient_step {f : SetupFunction κ} {client : ℕ} {h : List MqttEvent} {w : MyMqtt n κ}
    (hs : ResubscribeInv f client h w) (e : MqttEvent) :
    ∃ w' calls, mqttEventHandler w client e = some (w', calls) ∧
      ResubscribeInv f client (h ++ [e]) w' := by
  by_cases he : e = .connected
  · subst he
    by_cases hd : .disconnected ∈ h
    · obtain ⟨w', calls, hstep, hs', -⟩ := handler_connected_dropped hs hd
      exact ⟨w', calls, hstep, hs'⟩
    · obtain ⟨w', calls, hstep, hs', -⟩ := handler_connected_setup hs hd
      exact ⟨w', calls, hstep, hs'⟩
  · exact handler_other hs he

/-- In every run all events are handled, and each endpoint with a callback is subscribed while a
connect is handled, if and only if at each connect the setup function registers no callback, or the
first connection event was a disconnect, or no disconnect came before and the setup function
subscribes the topics that it leaves the endpoints with. -/
theorem subscribed_iff (n : ℕ) (f : SetupFunction κ) (is_updown_cb : Bool) (client : ℕ)
    (run : List MqttEvent) :
    ((mqttClient n f is_updown_cb client).run (mqttClient n f is_updown_cb client).init
        run).isSome ∧
      (((mqttClient n f is_updown_cb client).AllSteps run fun _ _ e w' calls => e = .connected →
          ∀ i, (w'.my_endpoints i).sub_callback ≠ none → Subscribed w' calls i) ↔
        (mqttClient n f is_updown_cb client).AllSteps run fun h _ e _ _ => e = .connected →
          (∀ i : Fin n, ¬ f.HasCallback i) ∨ firstConn h = some .disconnected ∨
            .disconnected ∉ h ∧ f.Subscribes n) := by
  have h0 := resubscribeInv_init (n := n) f is_updown_cb client
  refine ⟨Machine.run_isSome run h0 fun _ _ e hs => mqttClient_step hs e, ?_⟩
  refine Machine.allSteps_congr (ResubscribeInv f client) h0 (fun h w e w' calls hs hstep => ?_)
    fun h w e w' calls hs hstep => forall_congr' fun he => ?_
  · obtain ⟨w₁, calls₁, h₁, hs₁⟩ := mqttClient_step hs e
    cases h₁.symm.trans hstep
    exact hs₁
  subst he
  by_cases hd : .disconnected ∈ h
  · -- Nothing is subscribed, so it is right only when there is no callback.
    obtain ⟨w₁, calls₁, h₁, hs₁, hno⟩ := handler_connected_dropped hs hd
    cases h₁.symm.trans hstep
    have hcb := hs₁.callback
    have hfirst : firstConn (h ++ [.connected]) = firstConn h := by
      rw [firstConn_snoc]
      rcases firstConn_of_mem hd with hf | hf <;> simp [hf]
    rw [hfirst] at hcb
    constructor
    · intro hall
      by_cases hf : firstConn h = some .disconnected
      · exact .inr (.inl hf)
      · refine .inl fun i hi => hno i (hall i ((hcb i).mpr ⟨?_, hi⟩))
        exact (firstConn_of_mem hd).resolve_right hf
    · rintro (hnone | hf | ⟨hd', -⟩) i hne
      · exact absurd ((hcb i).mp hne).2 (hnone i)
      · have := ((hcb i).mp hne).1
        rw [hf] at this
        cases this
      · exact absurd hd hd'
  · obtain ⟨w₁, calls₁, h₁, -, hall⟩ := handler_connected_setup hs hd
    cases h₁.symm.trans hstep
    rw [hall]
    constructor
    · exact fun hsub => .inr (.inr ⟨hd, hsub⟩)
    · rintro (hnone | hf | ⟨-, hsub⟩)
      · exact fun i hi => absurd hi (hnone i)
      · exact absurd (List.mem_of_find?_eq_some hf) hd
      · exact hsub

/-- One topic, `led`, with a callback. -/
def ledSetup : SetupFunction Unit where
  topics := [⟨0, [108, 101, 100], 0, some ()⟩]
  no_null := by decide
  length_lt := by decide

/-- After a reconnection the topic `led` has its callback, and is not subscribed. -/
theorem not_subscribed_after_reconnect :
    ∃ run, ¬ (mqttClient 1 ledSetup false 1).AllSteps run fun _ _ e w' calls => e = .connected →
      ∀ i, (w'.my_endpoints i).sub_callback ≠ none → Subscribed w' calls i :=
  ⟨[.connected, .disconnected, .connected], by decide +kernel⟩

end PartLib.Mqtt
