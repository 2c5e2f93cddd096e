import PartLib.Mqtt.Wrapper

/-!
# Which callbacks a topic calls

`parse_mqtt_topic` compares as many bytes as the received topic has with the topic of each
endpoint. So it calls the callback of an endpoint also when the received topic is only the beginning
of the endpoint's, and when it goes on after the endpoint's with a null character
(`parseMqttTopic_calls`).
-/

namespace PartLib.Mqtt

variable {n : ℕ} {κ : Type*}

/-- The statics with every mutex created and a string registered or zero at each endpoint. -/
structure TopicTable (n : ℕ) (κ : Type*) where
  w : MyMqtt n κ
  topic : Fin n → List UInt8
  cstr_topic : ∀ i, cstr (w.my_endpoints i).topic = some (topic i)
  length_topic : ∀ i, (topic i).length < topicMaxLen
  mutex : ∀ i, (w.my_endpoints i).mutex.isSome = true

/-- The table that the statics hold. -/
def TableOk.toTopicTable {w : MyMqtt n κ} (hw : TableOk w) : TopicTable n κ where
  w := w
  topic i := (cstr (w.my_endpoints i).topic).get (hw.topic i)
  cstr_topic i := (Option.some_get _).symm
  length_topic i := by
    obtain ⟨-, rest, hrest⟩ := eq_append_of_cstr (Option.some_get (hw.topic i)).symm
    have hlen := congrArg List.length hrest
    rw [hw.length i, List.length_append, List.length_cons] at hlen
    omega
  mutex := hw.mutex

/-- The endpoint has a callback. -/
def TopicTable.HasCallback (t : TopicTable n κ) (i : Fin n) : Prop :=
  (t.w.my_endpoints i).sub_callback ≠ none

/-- The callback of the endpoint is called, with the data. -/
def Invokes (calls : List (MqttCall n κ)) (data : List UInt8) (i : Fin n) : Prop :=
  ∃ cb, .callback i cb data ∈ calls

/-- At one endpoint the callback is called when there is one, and the received topic is a prefix of
the endpoint's, or goes on after it with a null character. -/
theorem parseEndpoint_calls (t : TopicTable n κ) (topic data : List UInt8) (i : Fin n) :
    ∃ calls, parseEndpoint t.w topic data i = some calls ∧
      (∀ j cb d, .callback j cb d ∈ calls → j = i) ∧
      (Invokes calls data i ↔
        t.HasCallback i ∧ (topic <+: t.topic i ∨ t.topic i ++ [0] <+: topic)) := by
  obtain ⟨c, hcmp, hzero⟩ := strncmp_spec (t.cstr_topic i) topic
  rw [parseEndpoint, hcmp, Option.bind_some, TopicTable.HasCallback, ← hzero]
  by_cases hc : c = 0
  · -- The topic matches, and the callback is called if there is one.
    cases hcb : (t.w.my_endpoints i).sub_callback with
    | none => exact ⟨[], by simp [hc], by simp, by simp [Invokes]⟩
    | some cb =>
      refine ⟨[.take i, .callback i cb data, .give i], by simp [hc, t.mutex i], ?_, ?_⟩
      · intro j cb' d hmem
        simp only [List.mem_cons, MqttCall.callback.injEq, reduceCtorEq, List.not_mem_nil, or_false,
          false_or] at hmem
        exact hmem.1
      · simp [Invokes, hc]
  · exact ⟨[], by simp [hc], by simp, by simp [Invokes, hc]⟩

/-- The callbacks that a message calls are those of the endpoints whose topic starts with the
received one, or is continued by it after a null character. -/
theorem parseMqttTopic_calls (t : TopicTable n κ) (topic data : List UInt8) :
    ∃ calls, parseMqttTopic t.w topic data = some calls ∧ ∀ i, Invokes calls data i ↔
      t.HasCallback i ∧ (topic <+: t.topic i ∨ t.topic i ++ [0] <+: topic) := by
  choose calls hcalls hother hiff using parseEndpoint_calls t topic data
  refine ⟨_, forEndpoints_eq hcalls, fun i => ?_⟩
  rw [← hiff i]
  constructor
  · rintro ⟨cb, hmem⟩
    obtain ⟨j, -, hj⟩ := List.mem_flatMap.mp hmem
    obtain rfl := hother j i cb data hj
    exact ⟨cb, hj⟩
  · rintro ⟨cb, hmem⟩
    exact ⟨cb, List.mem_flatMap.mpr ⟨i, List.mem_finRange i, hmem⟩⟩

/-- A message calls exactly the callbacks of the endpoints with its topic, if and only if its topic
is not a proper prefix of the topic of an endpoint with a callback, and does not go on after such a
topic with a null character. -/
theorem invokes_iff_topic_eq (t : TopicTable n κ) (topic data : List UInt8) :
    ∃ calls, parseMqttTopic t.w topic data = some calls ∧
      ((∀ i, Invokes calls data i ↔ t.HasCallback i ∧ topic = t.topic i) ↔
        ∀ i, t.HasCallback i →
          ¬ (topic <+: t.topic i ∧ topic ≠ t.topic i) ∧ ¬ t.topic i ++ [0] <+: topic) := by
  obtain ⟨calls, hcalls, hiff⟩ := parseMqttTopic_calls t topic data
  refine ⟨calls, hcalls, forall_congr' fun i => ?_⟩
  rw [hiff i]
  -- A topic matches itself, and then neither of the other cases is there.
  have hself : topic = t.topic i → topic <+: t.topic i ∧ ¬ t.topic i ++ [0] <+: topic := by
    rintro rfl
    exact ⟨List.prefix_rfl, fun h => by simpa using h.length_le⟩
  tauto

/-- One endpoint, with the topic `led` and a callback. -/
def ledTable : TopicTable 1 Unit where
  w := { MyMqtt.boot 1 Unit with
    running := true
    client := some 1
    my_endpoints := fun _ => ⟨some false, 0, [108, 101, 100] ++ List.replicate 125 0, some ()⟩ }
  topic _ := [108, 101, 100]
  cstr_topic := by decide
  length_topic := by decide
  mutex _ := rfl

/-- A later part of a large message has no topic, and calls the callback of `led`. -/
theorem invokes_without_topic :
    ∃ calls, parseMqttTopic ledTable.w [] [49] = some calls ∧
      ¬ ∀ i, Invokes calls [49] i ↔ ledTable.HasCallback i ∧ [] = ledTable.topic i := by
  refine ⟨[.take 0, .callback 0 () [49], .give 0], by decide, fun h => ?_⟩
  have htopic : [] = ledTable.topic 0 := ((h 0).mp ⟨(), by decide⟩).2
  cases htopic

end PartLib.Mqtt
