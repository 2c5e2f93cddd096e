import PartLib.Mqtt.Wrapper
import PartLib.Lib.Stores

/-!
# The endpoints in memory

`my_endpoints` is an array of records: a mutex, the quality of service, a topic of 128 bytes, and a
callback. `register_mqtt_topic` copies a string into the topic with `sprintf`, which has no bound.
Here it is its stores into the bytes of the array and of what comes after it.

It stores the string in the topic, and leaves the rest, if and only if the string has at most 127
characters (`registers_iff`). Then it does what `registerMqttTopic` does (`registerStores_encodes`),
which has no result with a longer string (`registerMqttTopic_eq_none`).
-/

namespace PartLib.Mqtt

/-! ## The layout -/

/-- The address of a function. -/
abbrev Pointer := {p : BitVec 32 // p ≠ 0}

/-- A word in memory, with its lowest byte first. -/
def wordBytes (x : BitVec 32) : List UInt8 :=
  (List.range 4).map fun k => UInt8.ofBitVec (x.extractLsb' (8 * k) 8)

/-- A callback in memory; the null pointer is zero. -/
def pointerBytes : Option Pointer → List UInt8
  | none => wordBytes 0
  | some cb => wordBytes cb.val

/-- `sizeof (mqtt_node_t)`: two words, the topic, and another word. -/
def nodeSize : ℕ := 140

/-- The offset of an endpoint. -/
def nodeAt (i : ℕ) : ℕ := i * nodeSize

/-- The offset of its quality of service. -/
def qosAt (i : ℕ) : ℕ := nodeAt i + 4

/-- The offset of its topic. -/
def topicAt (i : ℕ) : ℕ := nodeAt i + 8

/-- The offset of its callback. -/
def callbackAt (i : ℕ) : ℕ := nodeAt i + 136

/-- The bytes of an endpoint. -/
def nodeBytes (mem : List UInt8) (i : ℕ) : List UInt8 := window mem (nodeAt i) nodeSize

/-- The bytes of its topic. -/
def topicBytes (mem : List UInt8) (i : ℕ) : List UInt8 := window mem (topicAt i) topicMaxLen

/-- The bytes of its callback. -/
def callbackBytes (mem : List UInt8) (i : ℕ) : List UInt8 := window mem (callbackAt i) 4

/-- The stores of `register_mqtt_topic` after the topic: the quality of service, and the callback if
there is one. -/
def fieldStores (r : Registration Pointer) : List (ℕ × List UInt8) :=
  (qosAt r.enum_topic, wordBytes (BitVec.ofInt 32 r.qos)) ::
    match r.sub_cb_fun with
    | none => []
    | some cb => [(callbackAt r.enum_topic, wordBytes cb.val)]

/-- The stores of `register_mqtt_topic`: those of `sprintf`, the null character after it, and the
other fields. -/
def registerStores (n : ℕ) (r : Registration Pointer) : List (ℕ × List UInt8) :=
  if r.enum_topic < n then
    (topicAt r.enum_topic, r.topic_string ++ [0]) ::
      (topicAt r.enum_topic + r.topic_string.length, [0]) :: fieldStores r
  else
    []

/-- The whole string is stored in the topic, unless the registration is refused; the other endpoints
stay, and the callback is the old or the new one. -/
structure Registers (n : ℕ) (r : Registration Pointer) (mem mem' : List UInt8) : Prop where
  stored : registerStores n r = [] ∨ cstr (topicBytes mem' r.enum_topic) = some r.topic_string
  others : ∀ j < n, j ≠ r.enum_topic → nodeBytes mem' j = nodeBytes mem j
  callback : callbackBytes mem' r.enum_topic = callbackBytes mem r.enum_topic ∨
    callbackBytes mem' r.enum_topic = pointerBytes r.sub_cb_fun

/-- The memory holds the endpoints of the statics. -/
structure Encodes {n : ℕ} (mem : List UInt8) (w : MyMqtt n Pointer) : Prop where
  length : n * nodeSize ≤ mem.length
  mutex : ∀ i : Fin n,
    window mem (nodeAt i) 4 = wordBytes 0 ↔ (w.my_endpoints i).mutex = none
  qos : ∀ i : Fin n,
    window mem (qosAt i) 4 = wordBytes (BitVec.ofInt 32 (w.my_endpoints i).qos)
  topic : ∀ i : Fin n, topicBytes mem i = (w.my_endpoints i).topic
  callback : ∀ i : Fin n, callbackBytes mem i = pointerBytes (w.my_endpoints i).sub_callback

/-! ## What the stores touch -/

/-- A word has four bytes. -/
@[simp]
theorem length_wordBytes (x : BitVec 32) : (wordBytes x).length = 4 := by simp [wordBytes]

variable {n : ℕ} {r : Registration Pointer} {mem mem' : List UInt8}

/-- An endpoint lies inside the memory. -/
theorem node_le {i : ℕ} (hi : i < n) (hmem : n * nodeSize ≤ mem.length) :
    nodeAt i + nodeSize ≤ mem.length := by
  rw [nodeAt, ← Nat.succ_mul]
  exact (Nat.mul_le_mul_right _ hi).trans hmem

/-- The topic of an endpoint does. -/
theorem topic_le {i : ℕ} (hi : i < n) (hmem : n * nodeSize ≤ mem.length) :
    topicAt i + topicMaxLen ≤ mem.length := by
  have hnode := node_le hi hmem
  simp only [topicAt, nodeSize, topicMaxLen] at *
  omega

/-- The stores after the topic. -/
theorem forall_mem_fieldStores {P : ℕ × List UInt8 → Prop} :
    (∀ w ∈ fieldStores r, P w) ↔ P (qosAt r.enum_topic, wordBytes (BitVec.ofInt 32 r.qos)) ∧
      ∀ cb ∈ r.sub_cb_fun, P (callbackAt r.enum_topic, wordBytes cb.val) := by
  rw [fieldStores, List.forall_mem_cons]
  cases r.sub_cb_fun <;> simp

/-- The stores of a registration, when the endpoint exists. -/
theorem registerStores_eq (hi : r.enum_topic < n) : registerStores n r =
    (topicAt r.enum_topic, r.topic_string ++ [0]) ::
      (topicAt r.enum_topic + r.topic_string.length, [0]) :: fieldStores r := if_pos hi

/-- A string that fits is stored inside the endpoint. -/
theorem registerStores_within (hi : r.enum_topic < n) (hfit : r.topic_string.length < topicMaxLen) :
    ∀ w ∈ registerStores n r, Within (nodeAt r.enum_topic) nodeSize w := by
  rw [topicMaxLen] at hfit
  rw [registerStores_eq hi, List.forall_mem_cons, List.forall_mem_cons, forall_mem_fieldStores]
  simp only [Within, topicAt, qosAt, callbackAt, nodeSize, List.length_append, List.length_cons,
    List.length_nil, length_wordBytes]
  refine ⟨?_, ?_, ?_, fun cb _ => ?_⟩ <;> omega

/-- Two endpoints do not overlap. -/
theorem outside_of_within {i j off len : ℕ} (hne : j ≠ i) (hoff : nodeAt j ≤ off)
    (hlen : off + len ≤ nodeAt j + nodeSize) {w : ℕ × List UInt8}
    (hw : Within (nodeAt i) nodeSize w) : Outside off len w := by
  obtain ⟨h₁, h₂⟩ := hw
  simp only [Outside, nodeAt, nodeSize] at *
  omega

/-- The stores after the topic do not touch it. -/
theorem fieldStores_outside (r : Registration Pointer) :
    ∀ w ∈ fieldStores r, Outside (topicAt r.enum_topic) topicMaxLen w := by
  rw [forall_mem_fieldStores]
  simp only [Outside, topicAt, qosAt, callbackAt, topicMaxLen, length_wordBytes]
  exact ⟨by omega, fun cb _ => by omega⟩

/-- The topic after a registration whose string fits: the string and a null character over the old
bytes. -/
theorem topicBytes_of_lt (hi : r.enum_topic < n) (hmem : n * nodeSize ≤ mem.length)
    (hfit : r.topic_string.length < topicMaxLen)
    (h : stores mem (registerStores n r) = some mem') :
    topicBytes mem' r.enum_topic =
      splice (topicBytes mem r.enum_topic) 0 (r.topic_string ++ [0]) := by
  have hroom := topic_le hi hmem
  rw [registerStores_eq hi, stores_cons_eq_some, stores_cons_eq_some] at h
  obtain ⟨h₁, h₂, h⟩ := h
  have hlen := length_splice h₁
  have hstring := window_splice_of_within hroom
    (⟨le_rfl, by simp; omega⟩ : Within _ _ (topicAt r.enum_topic, r.topic_string ++ [0]))
  have hnull := window_splice_of_within (hroom.trans hlen.ge)
    (⟨by omega, by simp; omega⟩ : Within (topicAt r.enum_topic) topicMaxLen
      (topicAt r.enum_topic + r.topic_string.length, ([0] : List UInt8)))
  rw [topicBytes, window_stores h (fieldStores_outside r), hnull, hstring, Nat.sub_self,
    Nat.add_sub_cancel_left]
  -- The null character after the string is there already.
  simp [splice, topicBytes]

/-- The topic after a registration whose string does not fit: the beginning of the string. -/
theorem topicBytes_of_le (hi : r.enum_topic < n) (hlong : topicMaxLen ≤ r.topic_string.length)
    (h : stores mem (registerStores n r) = some mem') :
    topicBytes mem' r.enum_topic = r.topic_string.take topicMaxLen := by
  rw [registerStores_eq hi, stores_cons_eq_some, stores_cons_eq_some] at h
  obtain ⟨h₁, h₂, h⟩ := h
  rw [topicBytes, window_stores h (fieldStores_outside r),
    window_splice_of_outside h₂ (.inl (by omega)), window_splice_self h₁ (by simp; omega),
    List.take_append_of_le_length hlong]

/-- The callback after a registration whose string fits: the old one, if none is given. -/
theorem callbackBytes_of_lt (hi : r.enum_topic < n) (hfit : r.topic_string.length < topicMaxLen)
    (h : stores mem (registerStores n r) = some mem') :
    callbackBytes mem' r.enum_topic = if r.sub_cb_fun = none then callbackBytes mem r.enum_topic
      else pointerBytes r.sub_cb_fun := by
  rw [registerStores_eq hi, fieldStores] at h
  cases hcb : r.sub_cb_fun with
  | none =>
    rw [hcb] at h
    rw [if_pos rfl]
    refine window_stores h ?_
    rw [topicMaxLen] at hfit
    simp only [List.forall_mem_cons, Outside, topicAt, qosAt, callbackAt, List.length_append,
      List.length_cons, List.length_nil, length_wordBytes, List.not_mem_nil]
    refine ⟨?_, ?_, ?_, fun _ h => h.elim⟩ <;> omega
  | some cb =>
    rw [hcb] at h
    exact @window_stores_eq _ mem mem' _ _ [_, _, _] [] h (by simp)

/-- The other fields of the endpoint after a registration whose string fits. -/
theorem mutexBytes_of_lt (hi : r.enum_topic < n) (h : stores mem (registerStores n r) = some mem') :
    window mem' (nodeAt r.enum_topic) 4 = window mem (nodeAt r.enum_topic) 4 := by
  refine window_stores h ?_
  rw [registerStores_eq hi, List.forall_mem_cons, List.forall_mem_cons, forall_mem_fieldStores]
  simp only [Outside, topicAt, qosAt, callbackAt]
  exact ⟨.inl (by omega), .inl (by omega), .inl (by omega), fun cb _ => .inl (by omega)⟩

/-- The quality of service after a registration. -/
theorem qosBytes_stores (hi : r.enum_topic < n) (h : stores mem (registerStores n r) = some mem') :
    window mem' (qosAt r.enum_topic) 4 = wordBytes (BitVec.ofInt 32 r.qos) := by
  rw [registerStores_eq hi, fieldStores] at h
  have hlen := length_wordBytes (BitVec.ofInt 32 r.qos)
  rw [← hlen]
  refine @window_stores_eq _ mem mem' _ _ [_, _] _ h ?_
  cases r.sub_cb_fun with
  | none => simp
  | some cb =>
    simp only [List.forall_mem_singleton, Outside, qosAt, callbackAt, hlen]
    omega

/-- The other endpoints after a registration whose string fits. -/
theorem window_of_ne (hi : r.enum_topic < n) (hfit : r.topic_string.length < topicMaxLen)
    (h : stores mem (registerStores n r) = some mem') {j off len : ℕ} (hne : j ≠ r.enum_topic)
    (hoff : nodeAt j ≤ off) (hlen : off + len ≤ nodeAt j + nodeSize) :
    window mem' off len = window mem off len :=
  window_stores h fun w hw => outside_of_within hne hoff hlen (registerStores_within hi hfit w hw)

/-- A registration of a string that fits goes through. -/
theorem stores_registerStores (hi : r.enum_topic < n) (hmem : n * nodeSize ≤ mem.length)
    (hfit : r.topic_string.length < topicMaxLen) :
    ∃ mem', stores mem (registerStores n r) = some mem' ∧ mem'.length = mem.length := by
  exact stores_of_within (node_le hi hmem) (registerStores_within hi hfit)

/-- In any memory that holds the endpoints, and for any string, the registration stores the whole
string in the topic, leaves the other endpoints, and leaves or sets the callback, if and only if the
string is shorter than the topic. -/
theorem registers_iff (n : ℕ) (r : Registration Pointer) (mem : List UInt8) (hi : r.enum_topic < n)
    (hnull : 0 ∉ r.topic_string) (hmem : n * nodeSize ≤ mem.length) :
    (∃ mem', stores mem (registerStores n r) = some mem' ∧ Registers n r mem mem') ↔
      r.topic_string.length < topicMaxLen := by
  constructor
  · rintro ⟨mem', h, hreg⟩
    by_contra hlong
    have htopic := topicBytes_of_le hi (Nat.le_of_not_lt hlong) h
    rcases hreg.stored with hnone | hstored
    · rw [registerStores_eq hi] at hnone
      cases hnone
    · -- The topic is full of the string, and has no null character.
      rw [htopic, cstr, if_neg fun h0 => hnull (List.mem_of_mem_take h0)] at hstored
      cases hstored
  · intro hfit
    obtain ⟨mem', h, -⟩ := stores_registerStores hi hmem hfit
    refine ⟨mem', h, .inr ?_, fun j _ hne => window_of_ne hi hfit h hne le_rfl le_rfl, ?_⟩
    · rw [topicBytes_of_lt hi hmem hfit h, splice, List.take_zero, List.nil_append,
        List.append_assoc, List.singleton_append, cstr_append hnull]
    · rw [callbackBytes_of_lt hi hfit h]
      split_ifs with hcb
      · exact .inl rfl
      · exact .inr rfl

/-- Two endpoints and what comes after them, all of it written before. -/
def usedMemory : List UInt8 := List.replicate 300 7

/-- A callback. -/
def ledCallback : Pointer := ⟨0x400d1234, by decide⟩

/-- The topic `led` of the first endpoint, with a callback. -/
theorem registers_iff_led :
    ∃ mem', stores usedMemory (registerStores 2 ⟨0, [108, 101, 100], 1, some ledCallback⟩) =
        some mem' ∧
      Registers 2 ⟨0, [108, 101, 100], 1, some ledCallback⟩ usedMemory mem' :=
  (registers_iff 2 ⟨0, [108, 101, 100], 1, some ledCallback⟩ usedMemory (by decide) (by decide)
    (by rw [usedMemory, List.length_replicate]; decide)).mpr (by decide)

/-- A topic of 128 characters, with a callback. -/
def fullTopic : Registration Pointer := ⟨0, List.replicate 128 65, 1, some ledCallback⟩

/-- A string of 128 characters fills the topic, and its null character is where the callback is stored
after it. -/
theorem not_registers_full :
    ¬ ∃ mem', stores usedMemory (registerStores 2 fullTopic) = some mem' ∧
      Registers 2 fullTopic usedMemory mem' := by
  rintro ⟨mem', h, hreg⟩
  have hcstr : (stores usedMemory (registerStores 2 fullTopic)).bind
      (fun mem => cstr (topicBytes mem fullTopic.enum_topic)) = none := by
    decide +kernel
  rw [h, Option.bind_some] at hcstr
  rcases hreg.stored with hnone | hstored
  · rw [registerStores_eq (by decide)] at hnone
    exact List.cons_ne_nil _ _ hnone
  · exact Option.some_ne_none _ (hstored.symm.trans hcstr)

/-! ## The statics -/

/-- A memory in which one endpoint is written holds the statics in which it is. -/
theorem Encodes.setNode {w : MyMqtt n Pointer} (hw : Encodes mem w) {i : Fin n}
    {node : MqttNode Pointer} (hlen : mem'.length = mem.length)
    (hothers : ∀ j : Fin n, j ≠ i → ∀ off len, nodeAt j ≤ off → off + len ≤ nodeAt j + nodeSize →
      window mem' off len = window mem off len)
    (hmutex : window mem' (nodeAt i) 4 = wordBytes 0 ↔ node.mutex = none)
    (hqos : window mem' (qosAt i) 4 = wordBytes (BitVec.ofInt 32 node.qos))
    (htopic : topicBytes mem' i = node.topic)
    (hcallback : callbackBytes mem' i = pointerBytes node.sub_callback) :
    Encodes mem' (w.setNode i node) := by
  have hother : ∀ {j : Fin n}, j ≠ i → ∀ off len, off + len ≤ nodeSize →
      window mem' (nodeAt j + off) len = window mem (nodeAt j + off) len :=
    fun hj off len hle => hothers _ hj _ _ (Nat.le_add_right _ _) (by omega)
  refine ⟨hlen ▸ hw.length, fun j => ?_, fun j => ?_, fun j => ?_, fun j => ?_⟩
  all_goals by_cases hj : j = i
  · rw [hj, setNode_self, hmutex]
  · have hkept := hother hj 0 4 (by decide)
    rw [setNode_of_ne w hj, ← hw.mutex]
    exact Iff.of_eq (congrArg (· = wordBytes 0) hkept)
  · rw [hj, setNode_self, hqos]
  · rw [setNode_of_ne w hj, ← hw.qos]
    exact hother hj 4 4 (by decide)
  · rw [hj, setNode_self, htopic]
  · rw [setNode_of_ne w hj, ← hw.topic]
    exact hother hj 8 topicMaxLen (by decide)
  · rw [hj, setNode_self, hcallback]
  · rw [setNode_of_ne w hj, ← hw.callback]
    exact hother hj 136 4 (by decide)

/-- A string that fits is registered in memory as `registerMqttTopic` does in the statics. -/
theorem registerStores_encodes {w : MyMqtt n Pointer} (hw : Encodes mem w)
    (hnull : 0 ∉ r.topic_string) (hfit : r.topic_string.length < topicMaxLen) :
    ∃ mem' w' calls, stores mem (registerStores n r) = some mem' ∧
      registerMqttTopic w r = some (w', calls) ∧ Encodes mem' w' := by
  by_cases hi : r.enum_topic < n
  · let i : Fin n := ⟨r.enum_topic, hi⟩
    obtain ⟨mem', h, hlen⟩ := stores_registerStores hi hw.length hfit
    have hothers : ∀ j : Fin n, j ≠ i → ∀ off len, nodeAt j ≤ off →
        off + len ≤ nodeAt j + nodeSize → window mem' off len = window mem off len :=
      fun j hj off len => window_of_ne hi hfit h fun he => hj (Fin.ext he)
    have hmutex : window mem' (nodeAt i) 4 = wordBytes 0 ↔ (w.my_endpoints i).mutex = none := by
      rw [← hw.mutex i, ← mutexBytes_of_lt hi h]
    have htopic := topicBytes_of_lt hi hw.length hfit h
    have hold : topicBytes mem r.enum_topic = (w.my_endpoints i).topic := hw.topic i
    have hcallback := callbackBytes_of_lt hi hfit h
    have hsprintf : sprintfString (w.my_endpoints i).topic r.topic_string =
        some (topicBytes mem' r.enum_topic) := by
      rw [htopic, ← hold]
      have hroom : topicAt r.enum_topic + topicMaxLen ≤ mem.length := topic_le hi hw.length
      have hcopy := @memcpy_natCast _ (topicBytes mem r.enum_topic) (r.topic_string ++ [0]) 0 0
        (r.topic_string.length + 1) (by rw [topicBytes, length_window hroom]; omega) (by simp)
      rwa [List.drop_zero, List.take_of_length_le (by simp)] at hcopy
    have hcstr : cstr (topicBytes mem' r.enum_topic) = some r.topic_string := by
      rw [htopic, splice, List.take_zero, List.nil_append, List.append_assoc,
        List.singleton_append, cstr_append hnull]
    have hreg : registerMqttTopic w r = some (w.setNode i
        ⟨(w.my_endpoints i).mutex, r.qos, topicBytes mem' r.enum_topic,
          r.sub_cb_fun <|> (w.my_endpoints i).sub_callback⟩,
        match r.sub_cb_fun with
        | none => []
        | some _ => [.subscribe r.topic_string 1]) := by
      rw [registerMqttTopic, dif_pos hi]
      simp only [i] at hsprintf
      simp only [hsprintf, Option.bind_some]
      cases r.sub_cb_fun with
      | none => rfl
      | some cb =>
        simp only [hcstr, Option.map_some]
        rfl
    refine ⟨mem', _, _, h, hreg, hw.setNode hlen hothers hmutex (qosBytes_stores hi h) rfl ?_⟩
    refine hcallback.trans ?_
    cases r.sub_cb_fun with
    | none => exact hw.callback i
    | some cb => rfl
  · refine ⟨mem, w, [], ?_, ?_, hw⟩
    · rw [registerStores, if_neg hi]
      rfl
    · rw [registerMqttTopic, dif_neg hi]

/-- A longer string leaves the topic, and `registerMqttTopic` has no result. -/
theorem registerMqttTopic_eq_none {w : MyMqtt n Pointer} (hw : Encodes mem w)
    (hi : r.enum_topic < n) (hlong : topicMaxLen ≤ r.topic_string.length) :
    registerMqttTopic w r = none := by
  have hlen : (w.my_endpoints ⟨r.enum_topic, hi⟩).topic.length = topicMaxLen := by
    rw [← hw.topic, topicBytes, length_window (topic_le hi hw.length)]
  rw [registerMqttTopic, dif_pos hi]
  simp only [sprintfString, memcpy]
  rw [if_neg (by omega)]
  rfl

end PartLib.Mqtt
