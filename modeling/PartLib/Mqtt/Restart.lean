import PartLib.Mqtt.Startup

/-!
# A second session

`mqtt_init` may be called again, with another setup function. Its loop is to clear the callbacks of
all endpoints, and clears the one of the first endpoint as often as there are endpoints. The others
keep the callbacks of the earlier session until one is registered for them.

So after the call has returned, a message invokes no callback that has not been registered since, if
and only if its topic matches no endpoint that still has an old one (`only_registered_iff`). The
statics before the call may be any.
-/

namespace PartLib.Mqtt

/-- The statics, and what `mqtt_init` has still to do. -/
structure Sessions (n : ℕ) (κ : Type*) where
  w : MyMqtt n κ
  start : List (Stmt n κ)

/-- The moves: a call of `mqtt_init`, up to `esp_mqtt_client_start` for a client with the handle
`client`; the next statement of it; or an event of a client. -/
inductive SessionInput (κ : Type*)
  | init (top_level_init_fun : Option (List (Registration κ))) (is_updown_cb : Bool) (client : ℕ)
  | start
  | event (client : ℕ) (e : MqttEvent)

variable {n : ℕ} {κ : Type*}

/-- Sessions one after another, from any statics. -/
def sessions (w : MyMqtt n κ) : Machine (Sessions n κ) (SessionInput κ) (MqttCall n κ) where
  init := ⟨w, []⟩
  step s i :=
    match i with
    | .init top_level_init_fun is_updown_cb client =>
      if s.start.isEmpty then
        some (⟨mqttInit s.w top_level_init_fun is_updown_cb, startStmts n κ client⟩, [])
      else
        none
    | .start =>
      match s.start with
      | [] => none
      | x :: xs =>
        match exec s.w x with
        | .done w calls next => some (⟨w, next ++ xs⟩, calls)
        | _ => none
    | .event client e => (mqttEventHandler s.w client e).map fun q => ({ s with w := q.1 }, q.2)

/-- The registrations that the handler makes on an event. -/
def handlerRegistrations (w : MyMqtt n κ) (e : MqttEvent) : List (Registration κ) :=
  if e = .connected then w.do_mqtt_init_from_top.getD [] else []

/-- An observer's notes: the callbacks before the last call of `mqtt_init`, and the registrations
since. -/
structure Since (n : ℕ) (κ : Type*) where
  before : Fin n → Option κ
  ran : List (Registration κ)

/-- The notes after a move, once there was a call. -/
def Since.note (g : Option (Since n κ)) (s : Sessions n κ) :
    SessionInput κ → Option (Since n κ)
  | .init _ _ _ => some ⟨fun i => (s.w.my_endpoints i).sub_callback, []⟩
  | .start => g
  | .event _ e => g.map fun since => { since with ran := since.ran ++ handlerRegistrations s.w e }

/-- The sessions beside the observer. -/
def observedSessions (w : MyMqtt n κ) :
    Machine (Sessions n κ × Option (Since n κ)) (SessionInput κ) (MqttCall n κ) :=
  (sessions w).observe none Since.note

/-- One of the registrations is of the callback. -/
def Registered (n : ℕ) (ran : List (Registration κ)) (cb : κ) : Prop :=
  ∃ r ∈ ran, r.enum_topic < n ∧ r.sub_cb_fun = some cb

instance [DecidableEq κ] (n : ℕ) (ran : List (Registration κ)) (cb : κ) :
    Decidable (Registered n ran cb) := inferInstanceAs (Decidable (∃ r ∈ ran, _ ∧ _))

/-- The callbacks that are invoked. -/
def invoked (calls : List (MqttCall n κ)) : List κ :=
  calls.filterMap fun c =>
    match c with
    | .callback _ cb _ => some cb
    | _ => none

/-- A message after the last call of `mqtt_init` has returned invokes only callbacks that have been
registered since the call. -/
def OnlyRegistered (s : Sessions n κ) (g : Option (Since n κ)) (i : SessionInput κ)
    (calls : List (MqttCall n κ)) : Prop :=
  match i with
  | .event _ (.data _ _) =>
    s.start.isEmpty = true → ∀ since ∈ g, ∀ cb ∈ invoked calls, Registered n since.ran cb
  | _ => True

instance [DecidableEq κ] (s : Sessions n κ) (g : Option (Since n κ)) (i : SessionInput κ)
    (calls : List (MqttCall n κ)) : Decidable (OnlyRegistered s g i calls) := by
  unfold OnlyRegistered
  split <;> infer_instance

/-- The topic of such a message matches no endpoint, but for the first, that has a callback from
before the call, for which no callback has been registered since, unless the same callback has been
registered for another endpoint. -/
def NoneLeft (s : Sessions n κ) (g : Option (Since n κ)) : SessionInput κ → Prop
  | .event _ (.data topic _) =>
    s.start.isEmpty = true → ∀ since ∈ g, ∀ i : Fin n, i.val ≠ 0 → ∀ cb ∈ since.before i,
      (∀ r ∈ since.ran, r.enum_topic = i.val → r.sub_cb_fun = none) →
        Registered n since.ran cb ∨
          strncmp topic (s.w.my_endpoints i).topic topic.length ≠ some 0
  | _ => True

/-! ## The callback that is registered last -/

/-- The last callback that is registered for an endpoint. -/
def lastCallback (i : ℕ) : List (Registration κ) → Option κ
  | [] => none
  | r :: rs => lastCallback i rs <|> if r.enum_topic = i then r.sub_cb_fun else none

/-- The later registrations come first. -/
theorem lastCallback_append (i : ℕ) (rs qs : List (Registration κ)) :
    lastCallback i (rs ++ qs) = (lastCallback i qs <|> lastCallback i rs) := by
  induction rs with
  | nil => cases h : lastCallback i qs <;> simp [lastCallback, h]
  | cons r rs ih =>
    rw [List.cons_append, lastCallback, lastCallback, ih]
    cases lastCallback i qs <;> rfl

/-- The last callback is registered. -/
theorem registered_of_lastCallback {i : Fin n} {rs : List (Registration κ)} {cb : κ}
    (h : lastCallback i rs = some cb) : Registered n rs cb := by
  induction rs with
  | nil => cases h
  | cons r rs ih =>
    rw [lastCallback] at h
    cases hlast : lastCallback i.val rs with
    | some cb' =>
      rw [hlast] at h
      obtain ⟨q, hq, hcb⟩ := ih (hlast.trans h)
      exact ⟨q, List.mem_cons_of_mem _ hq, hcb⟩
    | none =>
      rw [hlast] at h
      by_cases hi : r.enum_topic = i.val
      · rw [if_pos hi] at h
        exact ⟨r, List.mem_cons_self, hi ▸ i.isLt, h⟩
      · rw [if_neg hi] at h
        cases h

/-- There is none if no registration for the endpoint has one. -/
theorem lastCallback_eq_none_iff {i : ℕ} {rs : List (Registration κ)} :
    lastCallback i rs = none ↔ ∀ r ∈ rs, r.enum_topic = i → r.sub_cb_fun = none := by
  induction rs with
  | nil => simp [lastCallback]
  | cons r rs ih =>
    rw [lastCallback, List.forall_mem_cons, ← ih]
    by_cases hi : r.enum_topic = i <;> cases lastCallback i rs <;> simp [hi]

/-- More registrations keep a callback registered. -/
theorem Registered.append {rs : List (Registration κ)} {cb : κ} (h : Registered n rs cb)
    (qs : List (Registration κ)) : Registered n (rs ++ qs) cb := by
  obtain ⟨r, hr, hcb⟩ := h
  exact ⟨r, List.mem_append_left _ hr, hcb⟩

/-- The callbacks after an endpoint is written. -/
theorem setNode_sub_callback (w : MyMqtt n κ) {i : ℕ} (hi : i < n) (node : MqttNode κ) (j : Fin n) :
    ((w.setNode ⟨i, hi⟩ node).my_endpoints j).sub_callback =
      if i = j.val then node.sub_callback else (w.my_endpoints j).sub_callback := by
  split_ifs with h
  · obtain rfl : j = ⟨i, hi⟩ := Fin.ext h.symm
    rw [setNode_self]
  · rw [setNode_of_ne w fun he => h (congrArg Fin.val he).symm]

/-- The callbacks after `register_mqtt_topic`. -/
theorem registerMqttTopic_callback {w w' : MyMqtt n κ} {r : Registration κ}
    {calls : List (MqttCall n κ)} (h : registerMqttTopic w r = some (w', calls)) (i : Fin n) :
    (w'.my_endpoints i).sub_callback =
      (lastCallback i [r] <|> (w.my_endpoints i).sub_callback) := by
  rw [lastCallback, lastCallback]
  unfold registerMqttTopic at h
  split_ifs at h with hn
  · obtain ⟨topic, -, h⟩ := Option.bind_eq_some_iff.mp h
    cases hcb : r.sub_cb_fun with
    | none =>
      rw [hcb] at h
      cases h
      rw [setNode_sub_callback]
      split_ifs with hi <;> simp [hi]
    | some cb =>
      rw [hcb] at h
      obtain ⟨t, -, he⟩ := Option.map_eq_some_iff.mp h
      cases he
      rw [setNode_sub_callback]
      split_ifs with hi <;> simp
  · -- The wrapper has no such endpoint.
    have hne : r.enum_topic ≠ i.val := fun he => hn (he ▸ i.isLt)
    cases h
    simp [hne]

/-- The callbacks after the setup function. -/
theorem runSetup_callback {rs : List (Registration κ)} {w w' : MyMqtt n κ}
    {calls : List (MqttCall n κ)} (h : runSetup rs w = some (w', calls)) (i : Fin n) :
    (w'.my_endpoints i).sub_callback =
      (lastCallback i rs <|> (w.my_endpoints i).sub_callback) := by
  induction rs generalizing w w' calls with
  | nil =>
    cases h
    rfl
  | cons r rs ih =>
    obtain ⟨⟨w₁, c₁⟩, h₁, h⟩ := Option.bind_eq_some_iff.mp h
    obtain ⟨⟨w₂, c₂⟩, h₂, he⟩ := Option.map_eq_some_iff.mp h
    cases he
    rw [ih h₂, registerMqttTopic_callback h₁, lastCallback, lastCallback, lastCallback]
    cases lastCallback i.val rs <;> simp

/-- The callbacks after an event. -/
theorem mqttEventHandler_callback {w w' : MyMqtt n κ} {client : ℕ} {e : MqttEvent}
    {calls : List (MqttCall n κ)} (h : mqttEventHandler w client e = some (w', calls)) (i : Fin n) :
    (w'.my_endpoints i).sub_callback =
      (lastCallback i (handlerRegistrations w e) <|> (w.my_endpoints i).sub_callback) := by
  have hc := client_of_handler h
  cases e with
  | connected =>
    cases hsetup : w.do_mqtt_init_from_top with
    | none =>
      rw [handler_connected_none hc hsetup] at h
      cases h
      simp [handlerRegistrations, hsetup, lastCallback]
    | some topics =>
      rw [handler_connected_some hc hsetup] at h
      obtain ⟨⟨w₂, c₂⟩, hrun, he⟩ := Option.map_eq_some_iff.mp h
      cases he
      simp only [handlerRegistrations, hsetup, if_true, Option.getD_some]
      exact runSetup_callback hrun i
  | disconnected =>
    rw [mqttEventHandler, if_pos hc] at h
    obtain ⟨calls', -, he⟩ := Option.map_eq_some_iff.mp h
    cases he
    rfl
  | data topic data =>
    rw [mqttEventHandler, if_pos hc] at h
    obtain ⟨calls', -, he⟩ := Option.map_eq_some_iff.mp h
    cases he
    rfl
  | other =>
    rw [mqttEventHandler, if_pos hc] at h
    cases h
    rfl

/-! ## The callbacks of a session -/

/-- What holds of the statics once `mqtt_init` was called: the first endpoint is cleared at the end
of the call at the latest, and the others have the callback that was registered last for them since
the call, or the one from before. -/
structure SessionInv (s : Sessions n κ × Option (Since n κ)) : Prop where
  start : ∀ x ∈ s.1.start, ∃ client, x.OfStart client
  first : ∀ since ∈ s.2, ∀ i : Fin n, i.val = 0 → (∃ j, .clearCallback j ∈ s.1.start) ∨
    ∀ cb ∈ (s.1.w.my_endpoints i).sub_callback, Registered n since.ran cb
  others : ∀ since ∈ s.2, ∀ i : Fin n, i.val ≠ 0 →
    (s.1.w.my_endpoints i).sub_callback = (lastCallback i since.ran <|> since.before i)

/-- Before the first call there is nothing to hold. -/
theorem sessionInv_init (w : MyMqtt n κ) : SessionInv (observedSessions w).init where
  start x hx := by cases hx
  first since hs := by cases hs
  others since hs := by cases hs

variable {s : Sessions n κ} {g : Option (Since n κ)}

/-- The call of `mqtt_init` starts a session. -/
theorem SessionInv.call (s : Sessions n κ) (f : Option (List (Registration κ))) (up : Bool)
    (client : ℕ) :
    SessionInv (⟨mqttInit s.w f up, startStmts n κ client⟩,
      some ⟨fun i => (s.w.my_endpoints i).sub_callback, []⟩) where
  start x hx := by
    refine ⟨client, ?_⟩
    simp only [startStmts, List.mem_append, List.mem_cons, List.mem_flatMap, List.not_mem_nil,
      or_false] at hx
    rcases hx with (rfl | rfl) | ⟨j, -, rfl | rfl⟩ <;> simp [Stmt.OfStart]
  first since hs i hi := .inl ⟨i, by simp [startStmts]⟩
  others since hs i hi := by
    cases hs
    rfl

/-- An event of a client. -/
theorem SessionInv.event (hs : SessionInv (s, g)) {w' : MyMqtt n κ} {client : ℕ} {e : MqttEvent}
    {calls : List (MqttCall n κ)} (h : mqttEventHandler s.w client e = some (w', calls)) :
    SessionInv (({ s with w := w' } : Sessions n κ), Since.note g s (.event client e)) where
  start := hs.start
  first since hsince i hi := by
    obtain ⟨since₀, hsince₀, rfl⟩ := Option.map_eq_some_iff.mp hsince
    refine (hs.first since₀ hsince₀ i hi).imp_right fun hold cb hcb => ?_
    rw [Option.mem_def, mqttEventHandler_callback h] at hcb
    cases hlast : lastCallback i.val (handlerRegistrations s.w e) with
    | none =>
      rw [hlast] at hcb
      exact (hold cb hcb).append _
    | some cb' =>
      rw [hlast] at hcb
      obtain ⟨r, hr, hreg⟩ := registered_of_lastCallback (hlast.trans hcb)
      exact ⟨r, List.mem_append_right _ hr, hreg⟩
  others since hsince i hi := by
    obtain ⟨since₀, hsince₀, rfl⟩ := Option.map_eq_some_iff.mp hsince
    rw [mqttEventHandler_callback h, hs.others since₀ hsince₀ i hi, lastCallback_append]
    cases lastCallback i.val (handlerRegistrations s.w e) <;> rfl

/-- A statement of `mqtt_init` leaves the callbacks, but for that of the first endpoint. -/
theorem SessionInv.start_step (hs : SessionInv (s, g)) {x : Stmt n κ} {xs : List (Stmt n κ)}
    (hstart : s.start = x :: xs) {w' : MyMqtt n κ} {calls : List (MqttCall n κ)}
    {next : List (Stmt n κ)} (hx : exec s.w x = .done w' calls next) :
    SessionInv (⟨w', next ++ xs⟩, g) := by
  have hxs : ∀ y ∈ xs, ∃ client, y.OfStart client := fun y hy =>
    hs.start y (hstart ▸ List.mem_cons_of_mem _ hy)
  obtain ⟨client, hof⟩ := hs.start x (hstart ▸ List.mem_cons_self)
  -- A statement that leaves the callbacks keeps the invariant, if it clears none.
  have hkeep : (∀ i, (w'.my_endpoints i).sub_callback = (s.w.my_endpoints i).sub_callback) →
      (∀ j, x ≠ .clearCallback j) → SessionInv (⟨w', xs⟩, g) := by
    intro hcb hne
    refine ⟨hxs, fun since hsince i hi => ?_, fun since hsince i hi => ?_⟩
    · rw [hcb i]
      refine (hs.first since hsince i hi).imp_left fun ⟨j, hj⟩ => ⟨j, ?_⟩
      rw [hstart] at hj
      exact (List.mem_cons.mp hj).resolve_left fun he => hne j he.symm
    · rw [hcb i]
      exact hs.others since hsince i hi
  cases x with
  | setClient c =>
    cases hx
    exact hkeep (fun _ => rfl) (by simp)
  | setRunning b =>
    cases hx
    exact hkeep (fun _ => rfl) (by simp)
  | createMutex j =>
    cases hx
    refine hkeep (fun i => ?_) (by simp)
    rw [setNode_sub_callback]
    split_ifs with hi
    · rw [Fin.ext hi]
    · rfl
  | clearCallback j =>
    cases hx
    refine ⟨hxs, fun since hsince i hi => .inr fun cb hcb => ?_, fun since hsince i hi => ?_⟩
    · rw [setNode_sub_callback, if_pos hi.symm] at hcb
      cases hcb
    · rw [setNode_sub_callback, if_neg (Ne.symm hi)]
      exact hs.others since hsince i hi
  | _ => exact hof.elim

/-! ## The callbacks that a message invokes -/

/-- A callback is invoked at an endpoint. -/
theorem mem_invoked {calls : List (MqttCall n κ)} {cb : κ} :
    cb ∈ invoked calls ↔ ∃ i data, .callback i cb data ∈ calls := by
  rw [invoked, List.mem_filterMap]
  constructor
  · rintro ⟨c, hc, he⟩
    cases c with
    | callback i cb' data =>
      cases he
      exact ⟨i, data, hc⟩
    | _ => cases he
  · rintro ⟨i, data, hc⟩
    exact ⟨_, hc, rfl⟩

/-- An endpoint's callback is invoked if the topic matches. -/
theorem parseEndpoint_callback {w : MyMqtt n κ} {topic data : List UInt8} {i : Fin n}
    {calls : List (MqttCall n κ)} (h : parseEndpoint w topic data i = some calls) {cb : κ} :
    (∃ j d, .callback j cb d ∈ calls) ↔
      strncmp topic (w.my_endpoints i).topic topic.length = some 0 ∧
        (w.my_endpoints i).sub_callback = some cb := by
  obtain ⟨c, hc, h⟩ := Option.bind_eq_some_iff.mp h
  rw [hc]
  by_cases hzero : c = 0
  · subst hzero
    cases hcb : (w.my_endpoints i).sub_callback with
    | none =>
      rw [if_pos rfl, hcb] at h
      cases h
      simp
    | some cb' =>
      rw [if_pos rfl, hcb] at h
      simp only at h
      split_ifs at h
      cases h
      simp [eq_comm]
  · rw [if_neg hzero] at h
    cases h
    simp [hzero]

/-- A message invokes the callbacks of the endpoints that its topic matches. -/
theorem mem_invoked_parseMqttTopic {w : MyMqtt n κ} {topic data : List UInt8}
    {calls : List (MqttCall n κ)} (h : parseMqttTopic w topic data = some calls) {cb : κ} :
    cb ∈ invoked calls ↔ ∃ i,
      strncmp topic (w.my_endpoints i).topic topic.length = some 0 ∧
        (w.my_endpoints i).sub_callback = some cb := by
  obtain ⟨g, hg, rfl⟩ := forEndpoints_eq_some h
  rw [mem_invoked]
  constructor
  · rintro ⟨j, d, hmem⟩
    obtain ⟨i, -, hi⟩ := List.mem_flatMap.mp hmem
    exact ⟨i, (parseEndpoint_callback (hg i)).mp ⟨j, d, hi⟩⟩
  · rintro ⟨i, hi⟩
    obtain ⟨j, d, hmem⟩ := (parseEndpoint_callback (hg i)).mpr hi
    exact ⟨j, d, List.mem_flatMap.mpr ⟨i, List.mem_finRange i, hmem⟩⟩

/-- A message invokes only registered callbacks if and only if it matches none that is left. -/
theorem SessionInv.data (hs : SessionInv (s, g)) {w' : MyMqtt n κ} {client : ℕ}
    {topic data : List UInt8} {calls : List (MqttCall n κ)}
    (h : mqttEventHandler s.w client (.data topic data) = some (w', calls)) :
    OnlyRegistered s g (.event client (.data topic data)) calls ↔
      NoneLeft s g (.event client (.data topic data)) := by
  have hparse : parseMqttTopic s.w topic data = some calls := by
    have hc := client_of_handler h
    rw [mqttEventHandler, if_pos hc] at h
    obtain ⟨calls', hcalls, he⟩ := Option.map_eq_some_iff.mp h
    cases he
    exact hcalls
  refine forall_congr' fun hend => forall_congr' fun since => forall_congr' fun hsince => ?_
  rw [List.isEmpty_iff] at hend
  constructor
  · intro hall i hi cb hbefore hnone
    by_cases hmatch : strncmp topic (s.w.my_endpoints i).topic topic.length = some 0
    · refine .inl (hall cb ((mem_invoked_parseMqttTopic hparse).mpr ⟨i, hmatch, ?_⟩))
      rw [hs.others since hsince i hi, lastCallback_eq_none_iff.mpr hnone]
      exact hbefore
    · exact .inr hmatch
  · intro hleft cb hcb
    obtain ⟨i, hmatch, hcb⟩ := (mem_invoked_parseMqttTopic hparse).mp hcb
    by_cases hi : i.val = 0
    · rcases hs.first since hsince i hi with ⟨j, hj⟩ | hreg
      · rw [hend] at hj
        cases hj
      · exact hreg cb hcb
    · rw [hs.others since hsince i hi] at hcb
      cases hlast : lastCallback i.val since.ran with
      | some cb' =>
        rw [hlast] at hcb
        exact registered_of_lastCallback (hlast.trans hcb)
      | none =>
        rw [hlast] at hcb
        exact (hleft i hi cb hcb (lastCallback_eq_none_iff.mp hlast)).resolve_right
          (not_not.mpr hmatch)

/-- A move keeps the invariant. It invokes only registered callbacks if and only if it matches none
that is left. -/
theorem sessionInv_step {w : MyMqtt n κ} {s s' : Sessions n κ × Option (Since n κ)}
    {i : SessionInput κ} {calls : List (MqttCall n κ)} (hs : SessionInv s)
    (hstep : (observedSessions w).step s i = some (s', calls)) :
    SessionInv s' ∧ (OnlyRegistered s.1 s.2 i calls ↔ NoneLeft s.1 s.2 i) := by
  obtain ⟨s, g⟩ := s
  obtain ⟨⟨s₁, calls₁⟩, hmove, he⟩ := Option.map_eq_some_iff.mp hstep
  cases he
  simp only [sessions] at hmove
  cases i with
  | init f up client =>
    simp only at hmove
    split_ifs at hmove
    cases hmove
    exact ⟨.call s f up client, Iff.rfl⟩
  | start =>
    simp only at hmove
    cases hstart : s.start with
    | nil => simp [hstart] at hmove
    | cons x xs =>
      simp only [hstart] at hmove
      split at hmove
      case h_1 w' calls' next hx =>
        cases hmove
        exact ⟨hs.start_step hstart hx, Iff.rfl⟩
      case h_2 => cases hmove
  | event client e =>
    obtain ⟨⟨w', calls'⟩, hhandler, he⟩ := Option.map_eq_some_iff.mp hmove
    cases he
    refine ⟨hs.event hhandler, ?_⟩
    cases e with
    | data topic data => exact hs.data hhandler
    | _ => exact Iff.rfl

/-- In every run, from any statics, messages after a call of `mqtt_init` invoke only callbacks that
have been registered since, if and only if each message after it matches no callback that is left
from before. -/
theorem only_registered_iff (w : MyMqtt n κ) (run : List (SessionInput κ)) :
    ((observedSessions w).AllSteps run fun _ s i _ calls => OnlyRegistered s.1 s.2 i calls) ↔
      (observedSessions w).AllSteps run fun _ s i _ _ => NoneLeft s.1 s.2 i :=
  Machine.allSteps_congr (fun _ => SessionInv) (sessionInv_init w)
    (fun _ _ _ _ _ hs hstep => (sessionInv_step hs hstep).1)
    fun _ _ _ _ _ hs hstep => (sessionInv_step hs hstep).2

/-- The moves of a session up to its connection. -/
def session (f : List (Registration ℕ)) (client : ℕ) : List (SessionInput ℕ) :=
  [.init (some f) false client] ++ List.replicate 6 .start ++ [.event client .connected]

/-- The first session registers the topic `led` for the second endpoint, and the second registers
only `fan`, for the first endpoint: a message with the topic `led` invokes the old callback. -/
theorem invokes_old_callback :
    ∃ run, ¬ (observedSessions (.boot 2 ℕ)).AllSteps run fun _ s i _ calls =>
      OnlyRegistered s.1 s.2 i calls :=
  ⟨session [⟨1, [108, 101, 100], 0, some 1⟩] 1 ++ [.event 1 .disconnected] ++
    session [⟨0, [102, 97, 110], 0, some 2⟩] 2 ++ [.event 2 (.data [108, 101, 100] [49])],
    by decide +kernel⟩

end PartLib.Mqtt
