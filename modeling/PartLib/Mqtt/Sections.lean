import PartLib.Mqtt.LockSteps
import Mathlib.Computability.Language

/-!
# What happens at an endpoint

The mutex of an endpoint is taken for one message or one callback, and given right after it by the same
task. So in every run of `locking`, with any tasks that publish and any callbacks that publish, also on
their own endpoint, the calls at an endpoint are uses one after another: a message is never sent on an
endpoint while its callback runs, or while another message is sent on it (`uses_serialized`). Nor does
any check fail, when the topics are strings, the handler is that of the client, and the topics that are
published on are those of the table (`no_check_fails`); tasks may only come to wait for each other.
-/

namespace PartLib.Mqtt

variable {n : ℕ} {κ τ : Type*}

/-! ## Uses -/

/-- A call at an endpoint. -/
inductive EndpointCall
  | take
  | publish
  | callback
  | give
  deriving DecidableEq, Repr

/-- What a call is at an endpoint. -/
def EndpointCall.of (i : Fin n) : MqttCall n κ → Option EndpointCall
  | .take j => if j = i then some .take else none
  | .publish j => if j = i then some .publish else none
  | .callback j _ _ => if j = i then some .callback else none
  | .give j => if j = i then some .give else none
  | _ => none

/-- What the calls of a task are at an endpoint. -/
def endpointCalls (i : Fin n) (calls : List (MqttCall n κ)) : List EndpointCall :=
  calls.filterMap (EndpointCall.of i)

/-- The calls at an endpoint, each with its task. -/
def callsAt (i : Fin n) (os : List (Task τ × MqttCall n κ)) : List (Task τ × EndpointCall) :=
  os.filterMap fun o => (EndpointCall.of i o.2).map (Prod.mk o.1)

@[simp]
theorem callsAt_append (i : Fin n) (os₁ os₂ : List (Task τ × MqttCall n κ)) :
    callsAt i (os₁ ++ os₂) = callsAt i os₁ ++ callsAt i os₂ := List.filterMap_append ..

/-- The calls of one task. -/
@[simp]
theorem callsAt_map (i : Fin n) (t : Task τ) (calls : List (MqttCall n κ)) :
    callsAt i (calls.map (Prod.mk t)) = (endpointCalls i calls).map (Prod.mk t) := by
  rw [callsAt, endpointCalls, List.filterMap_map, List.map_filterMap]
  rfl

/-- A message, or the callback. -/
def EndpointCall.IsUse (x : EndpointCall) : Prop := x = .publish ∨ x = .callback

/-- A use of an endpoint: a task takes its mutex, sends a message or runs the callback, and gives the
mutex. -/
def endpointUse (τ : Type*) : Language (Task τ × EndpointCall) :=
  {word | ∃ t x, EndpointCall.IsUse x ∧ word = [.take, x, .give].map (Prod.mk t)}

/-- Any number of uses, one after another. -/
def endpointUses (τ : Type*) : Language (Task τ × EndpointCall) := KStar.kstar (endpointUse τ)

/-- One more use. -/
theorem append_mem_endpointUses {word : List (Task τ × EndpointCall)} {x : EndpointCall}
    (hword : word ∈ endpointUses τ) (t : Task τ) (hx : x.IsUse) :
    word ++ [.take, x, .give].map (Prod.mk t) ∈ endpointUses τ := by
  have huse : [.take, x, .give].map (Prod.mk t) ∈ endpointUse τ := ⟨t, x, hx, rfl⟩
  exact kstar_mul_le_kstar (a := endpointUse τ) (Language.append_mem_mul hword huse)

/-- What a statement is at an endpoint whose mutex is taken. -/
def LockStmt.about (i : Fin n) : LockStmt n κ → Option EndpointCall
  | .stmt (.publish j) => if j = i then some .publish else none
  | .stmt (.callback j _) => if j = i then some .callback else none
  | .stmt (.give j) => if j = i then some .give else none
  | _ => none

/-- What is due at an endpoint. -/
def due (i : Fin n) (prog : List (LockStmt n κ)) : List EndpointCall :=
  prog.filterMap (LockStmt.about i)

@[simp]
theorem due_cons (i : Fin n) (x : LockStmt n κ) (prog : List (LockStmt n κ)) :
    due i (x :: prog) = (x.about i).toList ++ due i prog := by
  rw [due, List.filterMap_cons]
  cases x.about i <;> rfl

/-- What is due of a use that has begun: its end, or all but the take. -/
def Due (d : List EndpointCall) : Prop := d = [.give] ∨ ∃ x, EndpointCall.IsUse x ∧ d = [x, .give]

/-! ## Where a task is -/

/-- A statement of a task, but for a take of a mutex: a callback is called that there is, and the check
is one of the client. -/
def Plain (w : MyMqtt n κ) (client : ℕ) : LockStmt n κ → Prop
  | .lock | .unlock | .publishTopic _ => True
  | .stmt (.checkClient c) => c = client
  | .stmt (.matchTopic ..) => True
  | .stmt (.callback i _) => (w.my_endpoints i).sub_callback.isSome = true
  | .stmt (.publish _) | .stmt (.give _) => True
  | _ => False

/-- The statements of a task, and those of them that come after a use that it is about to begin. -/
inductive At (w : MyMqtt n κ) : List (LockStmt n κ) → List (LockStmt n κ) → Prop
  | within (rest : List (LockStmt n κ)) : At w rest rest
  | publishing (i : Fin n) (rest : List (LockStmt n κ)) : At w (publishing i ++ rest) rest
  | calling {i : Fin n} (hcb : (w.my_endpoints i).sub_callback.isSome = true) (data : List UInt8)
      (rest : List (LockStmt n κ)) :
      At w (.stmt (.take i) :: .stmt (.callback i data) :: .stmt (.give i) :: rest) rest

/-- The table is as it was, but for the mutexes. -/
structure SameTable (w w' : MyMqtt n κ) : Prop where
  client : w'.client = w.client
  topic : ∀ i, (w'.my_endpoints i).topic = (w.my_endpoints i).topic
  sub_callback : ∀ i, (w'.my_endpoints i).sub_callback = (w.my_endpoints i).sub_callback

theorem SameTable.refl (w : MyMqtt n κ) : SameTable w w := ⟨rfl, fun _ => rfl, fun _ => rfl⟩

/-- A mutex is taken or given. -/
theorem SameTable.setMutex {w w' : MyMqtt n κ} (h : SameTable w w') (i : Fin n) (b : Bool) :
    SameTable w (w'.setNode i { w'.my_endpoints i with mutex := some b }) := by
  refine ⟨h.client, fun j => ?_, fun j => ?_⟩
  · by_cases hj : j = i
    · subst hj
      rw [setNode_self]
      exact h.topic j
    · rw [setNode_of_ne _ hj]
      exact h.topic j
  · by_cases hj : j = i
    · subst hj
      rw [setNode_self]
      exact h.sub_callback j
    · rw [setNode_of_ne _ hj]
      exact h.sub_callback j

/-- Between two steps of the task `t`, which has the mutexes `held`: at their endpoints a use of this
task is due, and at the others nothing. -/
structure UseInv (w : MyMqtt n κ) (client : ℕ) (os : List (Task τ × MqttCall n κ)) (t : Task τ)
    (held : List (Fin n)) (prog rest : List (LockStmt n κ)) : Prop where
  place : At w prog rest
  plain : ∀ x ∈ rest, Plain w client x
  free : ∀ i, i ∉ held → due i rest = []
  due : ∀ i ∈ held, Due (due i rest) ∧ callsAt i os ++ (due i rest).map (Prod.mk t) ∈ endpointUses τ

/-- What a task has to do after its next statement. -/
theorem UseInv.plain_tail {w : MyMqtt n κ} {client : ℕ} {os : List (Task τ × MqttCall n κ)}
    {t : Task τ} {held : List (Fin n)} {prog rest : List (LockStmt n κ)} {x : LockStmt n κ}
    (h : UseInv w client os t held prog (x :: rest)) : ∀ z ∈ rest, Plain w client z :=
  fun z hz => h.plain z (List.mem_cons_of_mem x hz)

/-- Between two steps: every task is at some place, and the calls at an endpoint that no task has are
uses. -/
structure SectionsInv [DecidableEq τ] (w : MyMqtt n κ) (client : ℕ)
    (os : List (Task τ × MqttCall n κ)) (s : Locking n κ τ) : Prop where
  same : SameTable w s.w
  mutexes : Mutexes s.w s.held
  tasks : ∀ t, ∃ rest, UseInv w client os t (s.held t) (s.prog t) rest
  idle : ∀ i, (∀ t, i ∉ s.held t) → callsAt i os ∈ endpointUses τ

/-- What a step of a task is at an endpoint, whose mutex the task has before and after it or not: what
is due before and after, and the calls. -/
inductive EndpointMove (before after : Prop) :
    List EndpointCall → List EndpointCall → List EndpointCall → Prop
  | quiet {d : List EndpointCall} (h : after ↔ before) : EndpointMove before after d d []
  | take {x : EndpointCall} (hbefore : ¬ before) (hafter : after) (hx : x.IsUse) :
      EndpointMove before after [] [x, .give] [.take]
  | use {x : EndpointCall} (hbefore : before) (hafter : after) :
      EndpointMove before after [x, .give] [.give] [x]
  | give (hbefore : before) (hafter : ¬ after) : EndpointMove before after [.give] [] [.give]

section

variable {before after : Prop} {d d' c : List EndpointCall} {word : List (Task τ × EndpointCall)}
  {t : Task τ}

/-- After a step nothing is due where the task has no mutex. -/
theorem EndpointMove.free (hm : EndpointMove before after d d' c) (hd : ¬ before → d = [])
    (hafter : ¬ after) : d' = [] := by
  cases hm with
  | quiet h => exact hd fun hbefore => hafter (h.mpr hbefore)
  | take _ ha => exact absurd ha hafter
  | use _ ha => exact absurd ha hafter
  | give => rfl

/-- After a step a use is due where the task has the mutex. -/
theorem EndpointMove.due (hm : EndpointMove before after d d' c)
    (hidle : c = [.take] → word ∈ endpointUses τ)
    (hd : before → Due d ∧ word ++ d.map (Prod.mk t) ∈ endpointUses τ) (hafter : after) :
    Due d' ∧ word ++ c.map (Prod.mk t) ++ d'.map (Prod.mk t) ∈ endpointUses τ := by
  cases hm with
  | quiet h => simpa using hd (h.mp hafter)
  | @take x _ _ hx =>
    refine ⟨.inr ⟨x, hx, rfl⟩, ?_⟩
    rw [List.append_assoc]
    exact append_mem_endpointUses (hidle rfl) t hx
  | use hbefore =>
    refine ⟨.inl rfl, ?_⟩
    rw [List.append_assoc]
    exact (hd hbefore).2
  | give _ hnot => exact absurd hafter hnot

/-- After a step the calls are uses where the task has no mutex and no other had one. -/
theorem EndpointMove.idle (hm : EndpointMove before after d d' c)
    (hidle : ¬ before → word ∈ endpointUses τ)
    (hd : before → Due d ∧ word ++ d.map (Prod.mk t) ∈ endpointUses τ) (hafter : ¬ after) :
    word ++ c.map (Prod.mk t) ∈ endpointUses τ := by
  cases hm with
  | quiet h =>
    rw [List.map_nil, List.append_nil]
    exact hidle fun hbefore => hafter (h.mpr hbefore)
  | take _ ha => exact absurd ha hafter
  | use _ ha => exact absurd ha hafter
  | give hbefore => exact (hd hbefore).2

/-- A step makes calls only where the task has the mutex, but for a take. -/
theorem EndpointMove.calls_eq_nil (hm : EndpointMove before after d d' c) (hbefore : ¬ before)
    (hc : c ≠ [.take]) : c = [] := by
  cases hm with
  | quiet => rfl
  | take => exact absurd rfl hc
  | use hb => exact absurd hb hbefore
  | give hb => exact absurd hb hbefore

end

section

variable [DecidableEq τ] {w : MyMqtt n κ} {client : ℕ} {os : List (Task τ × MqttCall n κ)}
  {o : List (MqttCall n κ)} {s s' : Locking n κ τ} {t : Task τ} {held' : List (Fin n)} {i : Fin n}
  {prog' rest rest' : List (LockStmt n κ)} {publishes : List ℕ}

/-- A step of a task that is a move at each endpoint keeps the invariant. -/
theorem SectionsInv.move (hs : SectionsInv w client os s)
    (ht : UseInv w client os t (s.held t) (s.prog t) rest)
    (hprog : s'.prog = Function.update s.prog t prog')
    (hheld : s'.held = Function.update s.held t held') (hsame : SameTable w s'.w)
    (hmutexes : Mutexes s'.w s'.held) (hplace : At w prog' rest')
    (hplain : ∀ x ∈ rest', Plain w client x)
    (hmove : ∀ i, EndpointMove (i ∈ s.held t) (i ∈ held') (due i rest) (due i rest')
      (endpointCalls i o))
    (hfree : ∀ i, endpointCalls i o = [.take] → ∀ u, i ∉ s.held u) :
    SectionsInv w client (os ++ o.map (Prod.mk t)) s' := by
  refine ⟨hsame, hmutexes, fun u => ?_, fun i hnone => ?_⟩
  · by_cases hu : u = t
    · subst hu
      rw [hheld, hprog, Function.update_self, Function.update_self]
      refine ⟨rest', hplace, hplain, fun i => (hmove i).free (ht.free i), fun i hi => ?_⟩
      rw [callsAt_append, callsAt_map]
      exact (hmove i).due (fun htake => hs.idle i (hfree i htake)) (ht.due i) hi
    · -- The endpoints of another task are not those of the step.
      obtain ⟨rest₁, hrest₁⟩ := hs.tasks u
      rw [hheld, hprog, Function.update_of_ne hu, Function.update_of_ne hu]
      refine ⟨rest₁, hrest₁.place, hrest₁.plain, hrest₁.free, fun i hi => ?_⟩
      have hother : i ∉ s.held t := fun hown => hu (hs.mutexes.exclusive hi hown)
      rw [callsAt_append, callsAt_map,
        (hmove i).calls_eq_nil hother fun htake => hfree i htake u hi, List.map_nil, List.append_nil]
      exact hrest₁.due i hi
  · have hself : i ∉ held' := by
      have hself := hnone t
      rwa [hheld, Function.update_self] at hself
    rw [callsAt_append, callsAt_map]
    refine (hmove i).idle (fun hbefore => hs.idle i fun u => ?_) (ht.due i) hself
    by_cases hu : u = t
    · rwa [hu]
    · have hother := hnone u
      rwa [hheld, Function.update_of_ne hu] at hother

/-- A step without a call, which leaves the mutexes and what is due. -/
theorem SectionsInv.quiet (hs : SectionsInv w client os s)
    (ht : UseInv w client os t (s.held t) (s.prog t) rest)
    (hprog : s'.prog = Function.update s.prog t prog') (hheld : s'.held = s.held) (hw : s'.w = s.w)
    (hplace : At w prog' rest') (hplain : ∀ x ∈ rest', Plain w client x)
    (hdue : ∀ i, due i rest' = due i rest) :
    SectionsInv w client (os ++ List.map (Prod.mk t) []) s' := by
  have hheld' : s'.held = Function.update s.held t (s.held t) := by
    rw [Function.update_eq_self, hheld]
  refine hs.move ht hprog hheld' ?_ ?_ hplace hplain (fun i => ?_) ?_
  · rw [hw]
    exact hs.same
  · rw [hw, hheld]
    exact hs.mutexes
  · rw [hdue i]
    exact .quiet Iff.rfl
  · intro i htake
    cases htake

/-- A release of the client's lock changes nothing else. -/
theorem give_frame (h : s.give t = some s') : ∃ lock', s' = { s with lock := lock' } := by
  unfold Locking.give at h
  split at h
  · cases h
  · split_ifs at h
    all_goals
      cases h
      exact ⟨_, rfl⟩

/-- A program that is stopped goes no further. -/
theorem SectionsInv.abort (hs : SectionsInv w client os s) :
    SectionsInv w client (os ++ List.map (Prod.mk t) []) { s with aborted := true } := by
  rw [List.map_nil, List.append_nil]
  exact ⟨hs.same, hs.mutexes, hs.tasks, hs.idle⟩

/-- A task gives a mutex that it has. -/
theorem Mutexes.give_mem {held : Task τ → List (Fin n)} {w : MyMqtt n κ} (hs : Mutexes w held)
    (hmem : i ∈ held t) :
    Mutexes (w.setNode i { w.my_endpoints i with mutex := some false })
      (Function.update held t ((held t).erase i)) := by
  have hiff : ∀ {u j}, j ∈ Function.update held t ((held t).erase i) u ↔ j ≠ i ∧ j ∈ held u := by
    intro u j
    by_cases hu : u = t
    · subst hu
      rw [Function.update_self, (hs.nodup u).mem_erase_iff]
    · rw [Function.update_of_ne hu]
      exact ⟨fun hj => ⟨fun he => hu (hs.exclusive (he ▸ hj) hmem), hj⟩, And.right⟩
  refine ⟨fun j => ?_, fun {j u v} hu hv => ?_, fun u => ?_⟩
  · by_cases hj : j = i
    · subst hj
      exact ⟨false, by simp, by simp [hiff]⟩
    · obtain ⟨b, hb, htaken⟩ := hs.mutex j
      exact ⟨b, by rw [setNode_of_ne w hj, hb], by simp [hiff, hj, htaken]⟩
  · exact hs.exclusive (hiff.mp hu).2 (hiff.mp hv).2
  · by_cases hu : u = t
    · subst hu
      rw [Function.update_self]
      exact (hs.nodup u).erase i
    · rw [Function.update_of_ne hu]
      exact hs.nodup u

/-- A task begins a use. -/
theorem SectionsInv.take_step {tail : List (LockStmt n κ)} {x : EndpointCall}
    (hs : SectionsInv w client os s) (ht : UseInv w client os t (s.held t) (s.prog t) rest)
    (hprog : s.prog t = .stmt (.take i) :: tail) (hplain : ∀ x ∈ tail, Plain w client x)
    (hx : x.IsUse) (hdue : due i tail = x :: .give :: due i rest)
    (hother : ∀ j, j ≠ i → due j tail = due j rest) (hmove : s.move t publishes = some (s', o)) :
    SectionsInv w client (os ++ o.map (Prod.mk t)) s' ∧ s'.aborted = s.aborted := by
  obtain ⟨b, hb, hheld⟩ := hs.mutexes.mutex i
  simp only [Locking.move, hprog, exec, hb] at hmove
  cases b with
  | true => cases hmove
  | false =>
    cases hmove
    have hnone : ∀ u, i ∉ s.held u := by simpa using hheld
    refine ⟨hs.move ht rfl rfl (hs.same.setMutex i true) (hs.mutexes.take hb) (.within tail) hplain
      (fun j => ?_) fun j htake => ?_, rfl⟩
    · by_cases hj : j = i
      · subst hj
        rw [hdue, ht.free j (hnone t)]
        have hcalls : endpointCalls j [(MqttCall.take j : MqttCall n κ)] = [.take] := by
          simp [endpointCalls, EndpointCall.of]
        rw [hcalls]
        exact .take (hnone t) List.mem_cons_self hx
      · have hcalls : endpointCalls j [(MqttCall.take i : MqttCall n κ)] = [] := by
          simp [endpointCalls, EndpointCall.of, Ne.symm hj]
        rw [hother j hj, hcalls]
        exact .quiet (by simp [heldAfter, hj])
    · by_cases hj : j = i
      · rw [hj]
        exact hnone
      · simp [endpointCalls, EndpointCall.of, Ne.symm hj] at htake

/-- A task with a mutex sends its message, or runs the callback. -/
theorem SectionsInv.use_step {y : Stmt n κ} {x : EndpointCall} {calls : List (MqttCall n κ)}
    (hs : SectionsInv w client os s)
    (ht : UseInv w client os t (s.held t) (s.prog t) (.stmt y :: rest)) (hx : x.IsUse)
    (hprog : s.prog t = .stmt y :: rest) (hexec : exec s.w y = .done s.w calls [])
    (hheld : heldAfter (s.held t) y = s.held t)
    (habout : ∀ j, LockStmt.about j (.stmt y : LockStmt n κ) = if i = j then some x else none)
    (hcalls : ∀ j, endpointCalls j calls = if i = j then [x] else [])
    (hmove : s.move t publishes = some (s', o)) :
    SectionsInv w client (os ++ o.map (Prod.mk t)) s' ∧ s'.aborted = s.aborted := by
  have hdue : ∀ j, due j (.stmt y :: rest) = if i = j then x :: due j rest else due j rest := by
    intro j
    rw [due_cons, habout j]
    split_ifs <;> rfl
  have hpublishes : ∀ z ∈ publishesOf publishes y, ∃ j, z = .publishTopic j := by
    intro z hz
    cases y with
    | callback =>
      obtain ⟨j, -, rfl⟩ := List.mem_map.mp hz
      exact ⟨j, rfl⟩
    | _ => cases hz
  have hnew : ∀ j, due j (publishesOf publishes y ++ rest) = due j rest := by
    intro j
    have hnil : (publishesOf publishes y).filterMap (LockStmt.about j) = [] := by
      refine List.filterMap_eq_nil_iff.mpr fun z hz => ?_
      obtain ⟨k, rfl⟩ := hpublishes z hz
      rfl
    rw [due, List.filterMap_append, hnil]
    rfl
  have hmem : i ∈ s.held t := by
    by_contra hnot
    have hnil := ht.free i hnot
    rw [hdue i, if_pos rfl] at hnil
    cases hnil
  have hend : due i rest = [.give] := by
    have hstart := (ht.due i hmem).1
    rw [hdue i, if_pos rfl] at hstart
    rcases hstart with hgive | ⟨x', -, heq⟩
    · rcases hx with rfl | rfl <;> cases hgive
    · exact (List.cons.inj heq).2
  simp only [Locking.move, hprog, hexec, hheld] at hmove
  cases hmove
  refine ⟨hs.move ht rfl rfl hs.same (by rw [Function.update_eq_self]; exact hs.mutexes) (.within _)
    (fun z hz => ?_) (fun j => ?_) fun j htake => ?_, rfl⟩
  · simp only [List.map_nil, List.nil_append] at hz
    rcases List.mem_append.mp hz with hz | hz
    · obtain ⟨k, rfl⟩ := hpublishes z hz
      trivial
    · exact ht.plain_tail z hz
  · simp only [List.map_nil, List.nil_append]
    rw [hnew j, hdue j, hcalls j]
    by_cases hj : i = j
    · subst hj
      rw [if_pos rfl, if_pos rfl, hend]
      exact .use hmem hmem
    · rw [if_neg hj, if_neg hj]
      exact .quiet Iff.rfl
  · rw [hcalls j] at htake
    split_ifs at htake
    rcases hx with rfl | rfl <;> cases htake

/-- A task ends a use. -/
theorem SectionsInv.give_step (hs : SectionsInv w client os s)
    (ht : UseInv w client os t (s.held t) (s.prog t) (.stmt (.give i) :: rest))
    (hprog : s.prog t = .stmt (.give i) :: rest) (hmove : s.move t publishes = some (s', o)) :
    SectionsInv w client (os ++ o.map (Prod.mk t)) s' ∧ s'.aborted = s.aborted := by
  have hdue : ∀ j, due j (.stmt (.give i) :: rest) =
      if i = j then .give :: due j rest else due j rest := by
    intro j
    rw [due_cons, LockStmt.about]
    split_ifs <;> rfl
  have hmem : i ∈ s.held t := by
    by_contra hnot
    have hnil := ht.free i hnot
    rw [hdue i, if_pos rfl] at hnil
    cases hnil
  have hend : due i rest = [] := by
    have hstart := (ht.due i hmem).1
    rw [hdue i, if_pos rfl] at hstart
    rcases hstart with hgive | ⟨x, hx, heq⟩
    · exact (List.cons.inj hgive).2
    · rcases hx with rfl | rfl <;> cases heq
  obtain ⟨b, hb, hheld⟩ := hs.mutexes.mutex i
  obtain rfl : b = true := hheld.mpr ⟨t, hmem⟩
  simp only [Locking.move, hprog, exec, if_pos hb] at hmove
  cases hmove
  have hcalls : ∀ j, endpointCalls j [(MqttCall.give i : MqttCall n κ)] =
      if i = j then [.give] else [] := by
    intro j
    simp only [endpointCalls, List.filterMap_cons, EndpointCall.of]
    split_ifs <;> rfl
  refine ⟨hs.move ht rfl rfl (hs.same.setMutex i false) (hs.mutexes.give_mem hmem) (.within _)
    ht.plain_tail (fun j => ?_) fun j htake => ?_, rfl⟩
  · rw [hdue j, hcalls j]
    by_cases hj : i = j
    · subst hj
      rw [if_pos rfl, if_pos rfl]
      simp only [publishesOf, List.map_nil, List.nil_append, hend]
      exact .give hmem (hs.mutexes.nodup t).not_mem_erase
    · rw [if_neg hj, if_neg hj]
      exact .quiet (List.mem_erase_of_ne (Ne.symm hj))
  · rw [hcalls j] at htake
    split_ifs at htake
    cases htake

/-- The client of the handler is that of the wrapper, and the topics can be compared. -/
structure ChecksOk (w : MyMqtt n κ) (client : ℕ) : Prop where
  client : w.client = some client
  topic : ∀ i topic, strncmp topic (w.my_endpoints i).topic topic.length ≠ none

/-- The topics that are still to be published on are those of the table. -/
def Locking.InTable (s : Locking n κ τ) : Prop := ∀ t topic, .publishTopic topic ∈ s.prog t → topic < n

/-- A statement of a task keeps the invariant, and fails no check. -/
theorem SectionsInv.move_step (hs : SectionsInv w client os s)
    (hmove : s.move t publishes = some (s', o)) :
    SectionsInv w client (os ++ o.map (Prod.mk t)) s' ∧
      (ChecksOk w client → s.InTable → s'.aborted = s.aborted) := by
  obtain ⟨rest, ht⟩ := hs.tasks t
  have hplace := ht.place
  generalize hprog : s.prog t = prog at hplace
  cases hplace with
  | publishing i =>
    have htake := hs.take_step (i := i) (x := .publish) ht hprog ?_ (.inl rfl) ?_ ?_ hmove
    · exact ⟨htake.1, fun _ _ => htake.2⟩
    · simpa [Plain] using ht.plain
    · simp [LockStmt.about]
    · intro j hj
      simp [LockStmt.about, Ne.symm hj]
  | @calling i hcb data rest =>
    have htake := hs.take_step (i := i) (x := .callback) ht hprog ?_ (.inr rfl) ?_ ?_ hmove
    · exact ⟨htake.1, fun _ _ => htake.2⟩
    · simpa [Plain, hcb] using ht.plain
    · simp [LockStmt.about]
    · intro j hj
      simp [LockStmt.about, Ne.symm hj]
  | within =>
    match rest with
    | [] => simp [Locking.move, hprog] at hmove
    | .lock :: rest =>
      simp only [Locking.move, hprog] at hmove
      obtain ⟨s₁, htake, heq⟩ := Option.map_eq_some_iff.mp hmove
      cases heq
      obtain ⟨lock', rfl, -⟩ := take_spec htake
      exact ⟨hs.quiet ht rfl rfl rfl (.within rest) ht.plain_tail fun _ => rfl, fun _ _ => rfl⟩
    | .unlock :: rest =>
      simp only [Locking.move, hprog] at hmove
      obtain ⟨s₁, hgive, heq⟩ := Option.map_eq_some_iff.mp hmove
      cases heq
      obtain ⟨lock', rfl⟩ := give_frame hgive
      exact ⟨hs.quiet ht rfl rfl rfl (.within rest) ht.plain_tail fun _ => rfl, fun _ _ => rfl⟩
    | .publishTopic topic :: rest =>
      simp only [Locking.move, hprog] at hmove
      split_ifs at hmove with hrunning htopic <;> cases hmove
      · exact ⟨hs.quiet ht rfl rfl rfl (.publishing ⟨topic, htopic⟩ rest) ht.plain_tail fun _ => rfl,
          fun _ _ => rfl⟩
      · refine ⟨hs.abort, fun _ hin => absurd (hin t topic ?_) htopic⟩
        rw [hprog]
        exact List.mem_cons_self
      · exact ⟨hs.quiet ht rfl rfl rfl (.within rest) ht.plain_tail fun _ => rfl, fun _ _ => rfl⟩
    | .stmt x :: rest =>
      have hx := ht.plain _ List.mem_cons_self
      cases x with
      | publish i =>
        have huse := hs.use_step (i := i) (x := .publish) ht (.inl rfl) hprog rfl rfl
          (fun _ => rfl) ?_ hmove
        · exact ⟨huse.1, fun _ _ => huse.2⟩
        · intro j
          simp only [endpointCalls, List.filterMap_cons, EndpointCall.of]
          split_ifs <;> rfl
      | callback i data =>
        have hcb : (s.w.my_endpoints i).sub_callback.isSome = true := by
          rw [hs.same.sub_callback i]
          exact hx
        obtain ⟨cb, hcb⟩ := Option.isSome_iff_exists.mp hcb
        have hexec : exec s.w (.callback i data) = .done s.w [.callback i cb data] [] := by
          simp only [exec, hcb]
        have huse := hs.use_step (i := i) (x := .callback) ht (.inr rfl) hprog hexec rfl
          (fun _ => rfl) ?_ hmove
        · exact ⟨huse.1, fun _ _ => huse.2⟩
        · intro j
          simp only [endpointCalls, List.filterMap_cons, EndpointCall.of]
          split_ifs <;> rfl
      | give i =>
        have hgive := hs.give_step ht hprog hmove
        exact ⟨hgive.1, fun _ _ => hgive.2⟩
      | checkClient c =>
        obtain rfl : c = client := hx
        by_cases hc : s.w.client = some c
        · simp only [Locking.move, hprog, exec, if_pos hc] at hmove
          cases hmove
          refine ⟨hs.quiet ht rfl ?_ rfl (.within rest) ht.plain_tail fun _ => rfl, fun _ _ => rfl⟩
          exact Function.update_eq_self ..
        · simp only [Locking.move, hprog, exec, if_neg hc] at hmove
          cases hmove
          exact ⟨hs.abort, fun hok _ => absurd (hs.same.client.trans hok.client) hc⟩
      | matchTopic i topic data =>
        cases hcmp : strncmp topic (s.w.my_endpoints i).topic topic.length with
        | none =>
          simp only [Locking.move, hprog, exec, hcmp] at hmove
          cases hmove
          refine ⟨hs.abort, fun hok _ => absurd ?_ (hok.topic i topic)⟩
          rwa [hs.same.topic i] at hcmp
        | some c =>
          by_cases hhit : c = 0 ∧ (s.w.my_endpoints i).sub_callback.isSome = true
          · simp only [Locking.move, hprog, exec, hcmp, if_pos hhit] at hmove
            cases hmove
            have hcb := hhit.2
            rw [hs.same.sub_callback i] at hcb
            refine ⟨hs.quiet ht rfl ?_ rfl (.calling hcb data rest) ht.plain_tail fun _ => rfl,
              fun _ _ => rfl⟩
            exact Function.update_eq_self ..
          · simp only [Locking.move, hprog, exec, hcmp, if_neg hhit] at hmove
            cases hmove
            refine ⟨hs.quiet ht rfl ?_ rfl (.within rest) ht.plain_tail fun _ => rfl, fun _ _ => rfl⟩
            exact Function.update_eq_self ..
      | _ => exact absurd hx id

/-- A task that has nothing to do gets something to do. -/
theorem SectionsInv.call_step (hs : SectionsInv w client os s) (hidle : s.prog t = [])
    (hplain : ∀ x ∈ prog', Plain w client x) (hdue : ∀ i, due i prog' = []) :
    SectionsInv w client (os ++ List.map (Prod.mk t) []) (s.setProg t prog') := by
  obtain ⟨rest, ht⟩ := hs.tasks t
  have hplace := ht.place
  rw [hidle] at hplace
  cases hplace
  exact hs.quiet ht rfl rfl rfl (.within prog') hplain hdue

omit [DecidableEq τ] in
/-- The statements that handle a message. -/
theorem mem_handling {topic data : List UInt8} {x : LockStmt n κ} (hx : x ∈ handling client topic data) :
    x = .lock ∨ x = .stmt (.checkClient client) ∨ (∃ i, x = .stmt (.matchTopic i topic data)) ∨
      x = .unlock := by
  simp only [handling, handlerStmts, List.cons_append, List.map_cons, List.mem_cons, List.mem_append,
    List.mem_map, List.not_mem_nil, or_false, List.nil_append] at hx
  rcases hx with rfl | rfl | ⟨y, ⟨i, -, rfl⟩, rfl⟩ | rfl
  · exact .inl rfl
  · exact .inr (.inl rfl)
  · exact .inr (.inr (.inl ⟨i, rfl⟩))
  · exact .inr (.inr (.inr rfl))

/-- A step keeps the invariant, and fails no check. -/
theorem SectionsInv.step {input : LockingInput τ} {o : List (Task τ × MqttCall n κ)}
    (hs : SectionsInv w client os s) (hstep : (locking w client).step s input = some (s', o)) :
    SectionsInv w client (os ++ o) s' ∧ (ChecksOk w client → s.InTable → s'.aborted = s.aborted) := by
  obtain ⟨topic, data, rfl, hidle, rfl, rfl⟩ | ⟨p, topic, rfl, hidle, rfl, rfl⟩ |
    ⟨t, publishes, calls, rfl, hmove, rfl⟩ := locking_step hstep
  · refine ⟨hs.call_step hidle (fun x hx => ?_) fun i => ?_, fun _ _ => rfl⟩
    · rcases mem_handling hx with rfl | rfl | ⟨i, rfl⟩ | rfl
      · trivial
      · rfl
      · trivial
      · trivial
    · refine List.filterMap_eq_nil_iff.mpr fun x hx => ?_
      rcases mem_handling hx with rfl | rfl | ⟨j, rfl⟩ | rfl <;> rfl
  · refine ⟨hs.call_step hidle (fun x hx => ?_) fun i => rfl, fun _ _ => rfl⟩
    rw [List.mem_singleton.mp hx]
    trivial
  · exact hs.move_step hmove

/-- The tasks after `mqtt_app_start` do nothing. -/
theorem sectionsInv_init (w : MyMqtt n κ) (client : ℕ) :
    SectionsInv w client [] (locking w client : Machine (Locking n κ τ) _ _).init where
  same := ⟨rfl, fun _ => rfl, fun _ => rfl⟩
  mutexes := ⟨fun i => ⟨false, rfl, by simp [locking]⟩, by simp [locking], by simp [locking]⟩
  tasks t := ⟨[], .within [], by simp, fun _ _ => rfl, by simp [locking]⟩
  idle i _ := Language.nil_mem_kstar _

end

/-! ## Topics -/

/-- The topics that an input publishes on are those of the table. -/
def LockingInput.InTable (n : ℕ) : LockingInput τ → Prop
  | .dispatch _ _ => True
  | .publish _ topic => topic < n
  | .move _ publishes => ∀ topic ∈ publishes, topic < n

instance : DecidablePred (LockingInput.InTable n : LockingInput τ → Prop)
  | .dispatch _ _ => .isTrue trivial
  | .publish _ _ => inferInstanceAs (Decidable (_ < _))
  | .move _ publishes => List.decidableBAll _ publishes

section

variable [DecidableEq τ] {w : MyMqtt n κ} {client : ℕ} {s s' : Locking n κ τ} {t u : Task τ}

/-- What a task has still to do after the program of one task has been replaced. -/
theorem mem_prog_setProg {prog : List (LockStmt n κ)} {x : LockStmt n κ}
    (hmem : x ∈ (s.setProg t prog).prog u) : (u = t ∧ x ∈ prog) ∨ x ∈ s.prog u := by
  by_cases hu : u = t
  · subst hu
    have hself : (s.setProg u prog).prog u = prog := Function.update_self ..
    exact .inl ⟨rfl, hself ▸ hmem⟩
  · have hother : (s.setProg t prog).prog u = s.prog u := Function.update_of_ne hu ..
    exact .inr (hother ▸ hmem)

/-- A call of a statement that is run is one of the callback. -/
theorem mem_of_mem_publishesOf {publishes : List ℕ} {x : Stmt n κ} {topic : ℕ}
    (hmem : .publishTopic topic ∈ publishesOf publishes x) : topic ∈ publishes := by
  cases x with
  | callback i data => simpa [publishesOf] using hmem
  | _ => cases hmem

/-- A call that a task has still to make after a statement is one that it had to make before it, or one
of the callback. -/
theorem mem_prog_of_move {publishes : List ℕ} {o : List (MqttCall n κ)} {topic : ℕ}
    (hmove : s.move t publishes = some (s', o)) (hmem : .publishTopic topic ∈ s'.prog u) :
    .publishTopic topic ∈ s.prog u ∨ topic ∈ publishes := by
  have hset : ∀ {s₁ : Locking n κ τ} {prog : List (LockStmt n κ)}, s' = s₁.setProg t prog →
      s₁.prog = s.prog → (.publishTopic topic ∈ prog → .publishTopic topic ∈ s.prog t ∨
        topic ∈ publishes) → .publishTopic topic ∈ s.prog u ∨ topic ∈ publishes := by
    intro s₁ prog heq hsame hprog
    rw [heq] at hmem
    rcases mem_prog_setProg hmem with ⟨rfl, hnew⟩ | hold
    · exact hprog hnew
    · rw [hsame] at hold
      exact .inl hold
  unfold Locking.move at hmove
  split at hmove
  case h_1 => cases hmove
  case h_2 rest hprog =>
    obtain ⟨s₁, htake, heq⟩ := Option.map_eq_some_iff.mp hmove
    cases heq
    obtain ⟨lock', rfl, -⟩ := take_spec htake
    exact hset rfl rfl fun hrest => .inl (hprog ▸ List.mem_cons_of_mem _ hrest)
  case h_3 rest hprog =>
    obtain ⟨s₁, hgive, heq⟩ := Option.map_eq_some_iff.mp hmove
    cases heq
    obtain ⟨lock', rfl⟩ := give_frame hgive
    exact hset rfl rfl fun hrest => .inl (hprog ▸ List.mem_cons_of_mem _ hrest)
  case h_4 topic' rest hprog =>
    split_ifs at hmove <;> cases hmove
    · refine hset rfl rfl fun hrest => .inl (hprog ▸ List.mem_cons_of_mem _ ?_)
      simpa [publishing] using hrest
    · exact .inl hmem
    · exact hset rfl rfl fun hrest => .inl (hprog ▸ List.mem_cons_of_mem _ hrest)
  case h_5 x rest hprog =>
    split at hmove <;> cases hmove
    · refine hset rfl rfl fun hnext => ?_
      simp only [List.mem_append, List.mem_map, reduceCtorEq, and_false, exists_false, false_or]
        at hnext
      rcases hnext with hcall | hrest
      · exact .inr (mem_of_mem_publishesOf hcall)
      · exact .inl (hprog ▸ List.mem_cons_of_mem _ hrest)
    · exact .inl hmem

/-- A step whose topics are those of the table keeps those that are still to be published on in it. -/
theorem Locking.InTable.step {input : LockingInput τ} {o : List (Task τ × MqttCall n κ)}
    (hs : s.InTable) (hin : input.InTable n)
    (hstep : (locking w client).step s input = some (s', o)) : s'.InTable := by
  have hset : ∀ {v : Task τ} {prog : List (LockStmt n κ)},
      (∀ topic, .publishTopic topic ∈ prog → topic < n) → (s.setProg v prog).InTable := by
    intro v prog hprog t topic hmem
    rcases mem_prog_setProg hmem with ⟨-, hnew⟩ | hold
    · exact hprog topic hnew
    · exact hs t topic hold
  obtain ⟨topic, data, rfl, -, rfl, -⟩ | ⟨p, topic, rfl, -, rfl, -⟩ |
    ⟨t, publishes, calls, rfl, hmove, -⟩ := locking_step hstep
  · refine hset fun topic' hmem => ?_
    rcases mem_handling hmem with heq | heq | ⟨i, heq⟩ | heq <;> cases heq
  · refine hset fun topic' hmem => ?_
    cases List.mem_singleton.mp hmem
    exact hin
  · intro u topic hmem
    exact (mem_prog_of_move hmove hmem).elim (hs u topic) (hin topic)

end

/-! ## Every run -/

section

variable [DecidableEq τ] {w : MyMqtt n κ} {client : ℕ} {inputs : List (LockingInput τ)}
  {s : Locking n κ τ} {os : List (Task τ × MqttCall n κ)}

/-- In every run, with any number of tasks that publish and any topics on which the callbacks publish,
the calls at each endpoint are uses one after another, each of one task, of which the last may not be
over. -/
theorem uses_serialized
    (hrun : (locking w client).run (locking w client).init inputs = some (s, os)) (i : Fin n) :
    ∃ word ∈ endpointUses τ, callsAt i os <+: word := by
  have hs := Machine.run_inv (SectionsInv w client) (sectionsInv_init w client)
    (fun _ _ _ _ _ hs hstep => (hs.step hstep).1) hrun
  by_cases hfree : ∀ t, i ∉ s.held t
  · exact ⟨_, hs.idle i hfree, List.prefix_refl _⟩
  · push Not at hfree
    obtain ⟨t, hmem⟩ := hfree
    obtain ⟨rest, ht⟩ := hs.tasks t
    exact ⟨_, (ht.due i hmem).2, List.prefix_append _ _⟩

/-- Two endpoints, of which the first has a callback, of the client 1, which is running. -/
def twoEndpoints : MyMqtt 2 Unit where
  running := true
  client := some 1
  if_updown := false
  my_endpoints i :=
    if i = 0 then ⟨some false, 0, 97 :: List.replicate 127 0, some ()⟩
    else ⟨some false, 0, 98 :: List.replicate 127 0, none⟩
  do_mqtt_init_from_top := none

/-- A task is about to publish on the first endpoint when a message for it arrives, whose callback
publishes on the second one. -/
def callbackPublishes : List (LockingInput Unit) :=
  [.publish () 0, .move (.publisher ()) [], .dispatch [97] []] ++
    List.replicate 14 (.move .client [1]) ++ List.replicate 5 (.move (.publisher ()) [])

/-- The callback and the message are two uses of the first endpoint. -/
theorem uses_serialized_callback_publishes :
    ∃ s os, (locking twoEndpoints 1).run (locking twoEndpoints 1).init callbackPublishes =
        some (s, os) ∧
      callsAt 0 os = [.take, .callback, .give].map (Prod.mk .client) ++
        [.take, .publish, .give].map (Prod.mk (.publisher ())) ∧
      s.aborted = false ∧ ∃ word ∈ endpointUses Unit, callsAt 0 os <+: word :=
  ⟨_, _, rfl, by decide, by decide, @uses_serialized _ _ _ _ twoEndpoints 1 callbackPublishes _ _ rfl 0⟩

/-- In every such run no check fails, when the topics are strings, and those that are published on are
in the table: a task may wait, but never stops the program. -/
theorem no_check_fails (hclient : w.client = some client)
    (htopic : ∀ i, (cstr (w.my_endpoints i).topic).isSome = true)
    (hin : ∀ input ∈ inputs, input.InTable n)
    (hrun : (locking w client).run (locking w client).init inputs = some (s, os)) :
    s.aborted = false := by
  have hok : ChecksOk w client := by
    refine ⟨hclient, fun i topic hnone => ?_⟩
    obtain ⟨t, ht⟩ := Option.isSome_iff_exists.mp (htopic i)
    obtain ⟨c, hc, -⟩ := strncmp_spec ht topic
    rw [hnone] at hc
    cases hc
  have hsteps : (locking w client).AllSteps inputs fun _ _ input _ _ => input.InTable n := by
    rintro h s input s' o ⟨hp, -⟩
    exact hin input (hp.subset (List.mem_append_right h List.mem_cons_self))
  refine (hsteps.inv_outputs
    (I := fun _ os s => SectionsInv w client os s ∧ s.InTable ∧ s.aborted = false)
    ⟨sectionsInv_init w client, nofun, rfl⟩ (fun _ _ _ _ _ _ hs hinput hstep => ?_)
    List.prefix_rfl hrun).2.2
  obtain ⟨hnext, haborted⟩ := hs.1.step hstep
  exact ⟨hnext, hs.2.1.step hinput hstep, (haborted hok hs.2.1).trans hs.2.2⟩

end

/-- The task and the callback go on to their ends. -/
theorem no_check_fails_callback_publishes :
    ∃ s os, (locking twoEndpoints 1).run (locking twoEndpoints 1).init callbackPublishes =
        some (s, os) ∧ s.prog .client = [] ∧ s.aborted = false :=
  ⟨_, _, rfl, rfl, @no_check_fails _ _ _ _ twoEndpoints 1 callbackPublishes _ _ rfl (by decide)
    (by decide) rfl⟩

end PartLib.Mqtt
