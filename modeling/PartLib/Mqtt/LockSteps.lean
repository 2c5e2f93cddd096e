import PartLib.Mqtt.Locks

/-!
# What a step does with the locks

A mutex is taken exactly when one task has it, and the client's lock is taken as many times as the
task that has it has taken it and not released it (`LocksOk`). A statement of a task changes only what
this task has still to do and the locks that it has (`Changed`).

The client's task gives the mutexes in the opposite order in which it has taken them and releases its
lock last (`Nested`, `ClientAt`); a task that publishes is at one of the statements of
`publish_mqtt_topic` (`PublisherAt`).
-/

namespace PartLib.Mqtt

variable {n : ℕ} {κ τ : Type*}

/-! ## The mutexes -/

/-- A mutex is taken exactly when one task has it. -/
structure Mutexes (w : MyMqtt n κ) (held : Task τ → List (Fin n)) : Prop where
  mutex : ∀ i, ∃ b, (w.my_endpoints i).mutex = some b ∧ (b = true ↔ ∃ t, i ∈ held t)
  exclusive : ∀ {i t u}, i ∈ held t → i ∈ held u → t = u
  nodup : ∀ t, (held t).Nodup

section

variable [DecidableEq τ] {w : MyMqtt n κ} {held : Task τ → List (Fin n)} {t : Task τ} {i : Fin n}

/-- A task takes a mutex that is free. -/
theorem Mutexes.take (hs : Mutexes w held) (hfree : (w.my_endpoints i).mutex = some false) :
    Mutexes (w.setNode i { w.my_endpoints i with mutex := some true })
      (Function.update held t (i :: held t)) := by
  have hnone : ∀ u, i ∉ held u := by
    intro u hu
    obtain ⟨b, hb, hiff⟩ := hs.mutex i
    rw [hfree] at hb
    cases hb
    simpa using hiff.mpr ⟨u, hu⟩
  have hmem : ∀ {u j}, j ∈ Function.update held t (i :: held t) u ↔
      (u = t ∧ j = i) ∨ j ∈ held u := by
    intro u j
    by_cases hu : u = t
    · subst hu
      simp
    · simp [hu]
  refine ⟨fun j => ?_, fun {j u v} hu hv => ?_, fun u => ?_⟩
  · by_cases hj : j = i
    · subst hj
      exact ⟨true, by simp, by simp [hmem]⟩
    · obtain ⟨b, hb, hiff⟩ := hs.mutex j
      exact ⟨b, by rw [setNode_of_ne w hj, hb], by simp [hmem, hj, hiff]⟩
  · rw [hmem] at hu hv
    rcases hu with ⟨rfl, rfl⟩ | hu
    · rcases hv with ⟨rfl, -⟩ | hv
      · rfl
      · exact absurd hv (hnone v)
    · rcases hv with ⟨rfl, rfl⟩ | hv
      · exact absurd hu (hnone u)
      · exact hs.exclusive hu hv
  · by_cases hu : u = t
    · subst hu
      simpa using ⟨hnone u, hs.nodup u⟩
    · rw [Function.update_of_ne hu]
      exact hs.nodup u

/-- A task gives the mutex that it has taken last. -/
theorem Mutexes.give {rest : List (Fin n)} (hs : Mutexes w held) (hheld : held t = i :: rest) :
    Mutexes (w.setNode i { w.my_endpoints i with mutex := some false })
      (Function.update held t rest) := by
  have hown : i ∈ held t := by simp [hheld]
  have hnodup := hs.nodup t
  rw [hheld, List.nodup_cons] at hnodup
  have hmem : ∀ {u j}, j ∈ Function.update held t rest u ↔ j ≠ i ∧ j ∈ held u := by
    intro u j
    by_cases hu : u = t
    · subst hu
      rw [Function.update_self, hheld, List.mem_cons]
      constructor
      · intro hj
        exact ⟨fun h => hnodup.1 (h ▸ hj), .inr hj⟩
      · rintro ⟨hne, h⟩
        exact h.resolve_left hne
    · rw [Function.update_of_ne hu]
      exact ⟨fun hj => ⟨fun h => hu (hs.exclusive (h ▸ hj) hown), hj⟩, And.right⟩
  refine ⟨fun j => ?_, fun {j u v} hu hv => ?_, fun u => ?_⟩
  · by_cases hj : j = i
    · subst hj
      exact ⟨false, by simp, by simp [hmem]⟩
    · obtain ⟨b, hb, hiff⟩ := hs.mutex j
      exact ⟨b, by rw [setNode_of_ne w hj, hb], by simp [hmem, hj, hiff]⟩
  · exact hs.exclusive (hmem.mp hu).2 (hmem.mp hv).2
  · by_cases hu : u = t
    · subst hu
      rw [Function.update_self]
      exact hnodup.2
    · rw [Function.update_of_ne hu]
      exact hs.nodup u

/-! ## The client's lock -/

/-- How many times a task has taken the client's lock. -/
def depthIn (lock : Option (Task τ × ℕ)) (t : Task τ) : ℕ :=
  match lock with
  | none => 0
  | some (u, d) => if u = t then d else 0

/-- A task that has taken the client's lock is the one that has it. -/
theorem lock_of_depthIn {lock : Option (Task τ × ℕ)} (h : 0 < depthIn lock t) :
    lock = some (t, depthIn lock t) := by
  cases lock with
  | none => simp [depthIn] at h
  | some r =>
    obtain ⟨u, d⟩ := r
    by_cases hu : u = t
    · simp [depthIn, hu]
    · simp [depthIn, hu] at h

/-- The lock is taken, or taken once less, so that `t` has it `d` times, and the others as before. -/
structure LockStep (lock lock' : Option (Task τ × ℕ)) (t : Task τ) (d : ℕ) : Prop where
  self : depthIn lock' t = d
  other : ∀ u, u ≠ t → depthIn lock' u = depthIn lock u
  pos : ∀ u d, lock' = some (u, d) → 0 < d

/-- A take of the client's lock. -/
theorem take_spec {s s' : Locking n κ τ} (h : s.take t = some s') :
    ∃ lock', s' = { s with lock := lock' } ∧
      LockStep s.lock lock' t (depthIn s.lock t + 1) := by
  rw [Locking.take] at h
  split at h
  case h_1 hlock =>
    cases h
    refine ⟨_, rfl, by simp [depthIn, hlock], fun u hu => ?_, by simp⟩
    simp [depthIn, hlock, Ne.symm hu]
  case h_2 u d hlock =>
    by_cases hu : u = t
    · subst hu
      rw [if_pos rfl] at h
      cases h
      refine ⟨_, rfl, by simp [depthIn, hlock], fun v hv => ?_, by simp⟩
      simp [depthIn, hlock, Ne.symm hv]
    · rw [if_neg hu] at h
      cases h

/-- A release of the client's lock. -/
theorem give_spec {s s' : Locking n κ τ} (hpos : ∀ u d, s.lock = some (u, d) → 0 < d)
    (h : s.give t = some s') :
    ∃ lock', s' = { s with lock := lock' } ∧
      LockStep s.lock lock' t (depthIn s.lock t - 1) := by
  rw [Locking.give] at h
  split at h
  case h_1 => cases h
  case h_2 u d hlock =>
    by_cases hu : u = t
    · subst hu
      rw [if_pos rfl] at h
      cases h
      have hd := hpos u d hlock
      by_cases h1 : d = 1
      · refine ⟨_, rfl, by simp [depthIn, hlock, h1], fun v hv => ?_, by simp [h1]⟩
        simp [depthIn, hlock, h1, Ne.symm hv]
      · refine ⟨_, rfl, by simp [depthIn, hlock, h1], fun v hv => ?_, ?_⟩
        · simp [depthIn, hlock, h1, Ne.symm hv]
        · rw [if_neg h1]
          rintro _ _ ⟨⟩
          omega
    · rw [if_neg hu] at h
      cases h

end

/-! ## The programs -/

/-- The statements that the client's task has still to do, when it has the mutexes `held` and has
taken its lock `d` times: it gives the mutexes, the last one first, and releases the lock; it is not
about to take a mutex; and it has the lock whenever it may come to take one. -/
def Nested : List (Fin n) → ℕ → List (LockStmt n κ) → Prop
  | held, d, [] => held = [] ∧ d = 0
  | held, d, .lock :: rest => Nested held (d + 1) rest
  | held, d, .unlock :: rest => 0 < d ∧ Nested held (d - 1) rest
  | held, d, .publishTopic _ :: rest => 0 < d ∧ Nested held d rest
  | held, d, .stmt (.give i) :: rest => ∃ held', held = i :: held' ∧ Nested held' d rest
  | held, d, .stmt (.matchTopic _ _ _) :: rest => 0 < d ∧ held = [] ∧ Nested held d rest
  | held, d, .stmt (.callback _ _) :: rest => 0 < d ∧ Nested held d rest
  | held, d, .stmt (.checkClient _) :: rest => Nested held d rest
  | held, d, .stmt (.publish _) :: rest => Nested held d rest
  | _, _, _ => False

/-- The client's task: it is about to take a mutex that it does not have, with its lock held, or not
about to take one. -/
inductive ClientAt : List (Fin n) → ℕ → List (LockStmt n κ) → Prop
  | nested {held : List (Fin n)} {d : ℕ} {prog : List (LockStmt n κ)} (h : Nested held d prog) :
      ClientAt held d prog
  | taking {held : List (Fin n)} {d : ℕ} {i : Fin n} {rest : List (LockStmt n κ)} (hd : 0 < d)
      (hi : i ∉ held) (h : Nested (i :: held) d rest) : ClientAt held d (.stmt (.take i) :: rest)

/-- A task that publishes: where it is in `publish_mqtt_topic`, the mutexes that it has, and how many
times it has taken the client's lock. -/
inductive PublisherAt : List (Fin n) → ℕ → List (LockStmt n κ) → Prop
  | idle : PublisherAt [] 0 []
  | called (topic : ℕ) : PublisherAt [] 0 [.publishTopic topic]
  | taking (i : Fin n) : PublisherAt [] 0 (publishing i)
  | locking (i : Fin n) :
      PublisherAt [i] 0 [.lock, .stmt (.publish i), .unlock, .stmt (.give i)]
  | sending (i : Fin n) : PublisherAt [i] 1 [.stmt (.publish i), .unlock, .stmt (.give i)]
  | unlocking (i : Fin n) : PublisherAt [i] 1 [.unlock, .stmt (.give i)]
  | giving (i : Fin n) : PublisherAt [i] 0 [.stmt (.give i)]

section

variable {held : List (Fin n)} {d : ℕ} {prog rest : List (LockStmt n κ)} {i : Fin n}

/-- The client's task is not about to take a mutex. -/
theorem Nested.wantedBy_ne (h : Nested held d prog) : wantedBy prog ≠ some (some i) := by
  unfold wantedBy
  split
  · simp
  · simp [Nested] at h
  · simp

/-- The client's task is about to take a mutex only with its lock held, and when it does not have
it. -/
theorem ClientAt.wants (h : ClientAt held d prog) (hw : wantedBy prog = some (some i)) :
    0 < d ∧ i ∉ held := by
  cases h with
  | nested h => exact absurd hw h.wantedBy_ne
  | taking hd hi h =>
    cases hw
    exact ⟨hd, hi⟩

/-- A message is handled with the lock taken once. -/
theorem nested_handling (client : ℕ) (topic data : List UInt8) :
    Nested [] 0 (handling client topic data : List (LockStmt n κ)) := by
  have hmatch : ∀ is : List (Fin n), Nested [] 1
      ((is.map fun i => (LockStmt.stmt (.matchTopic i topic data) : LockStmt n κ)) ++
        [.unlock]) := by
    intro is
    induction is with
    | nil => simp [Nested]
    | cons i is ih => exact ⟨Nat.one_pos, rfl, ih⟩
  simpa [handling, handlerStmts, Nested, Function.comp_def] using hmatch (List.finRange n)

/-- The calls of a callback come before the rest of the program. -/
theorem Nested.publishes (hd : 0 < d) (h : Nested held d rest) (publishes : List ℕ) :
    Nested held d (publishes.map .publishTopic ++ rest) := by
  induction publishes with
  | nil => exact h
  | cons i is ih => exact ⟨hd, ih⟩

/-- A call of `publish_mqtt_topic` on an endpoint whose mutex the client's task does not have. -/
theorem ClientAt.publishing (hd : 0 < d) (hi : i ∉ held) (h : Nested held d rest) :
    ClientAt held d (publishing i ++ rest) := by
  refine .taking hd hi ?_
  simpa [Nested] using h

/-- A task that has the mutex of an endpoint to publish is not about to take another one. -/
theorem PublisherAt.wantedBy_of_mem (h : PublisherAt held d prog) (hi : i ∈ held) :
    wantedBy prog = some none ∨ wantedBy prog = none := by
  cases h <;> simp [wantedBy] at hi ⊢

/-- A task that has the client's lock to publish waits for nothing. -/
theorem PublisherAt.wantedBy_of_pos (h : PublisherAt held d prog) (hd : 0 < d) :
    wantedBy prog = none := by
  cases h <;> simp [wantedBy] at hd ⊢

end

/-! ## One step -/

/-- Every mutex that is taken is that of the task that has it, and the client's lock is taken at least
once when it is taken. -/
structure LocksOk (s : Locking n κ τ) : Prop where
  mutexes : Mutexes s.w s.held
  pos : ∀ t d, s.lock = some (t, d) → 0 < d

/-- A step of `t` leaves it with the mutexes `held`, the client's lock `d` times, and the statements
`prog`; of the other tasks it changes nothing. -/
structure Changed [DecidableEq τ] (s s' : Locking n κ τ) (t : Task τ) (held : List (Fin n)) (d : ℕ)
    (prog : List (LockStmt n κ)) : Prop where
  prog : s'.prog = Function.update s.prog t prog
  held : s'.held = Function.update s.held t held
  lock : LockStep s.lock s'.lock t d
  mutexes : Mutexes s'.w s'.held

section

variable [DecidableEq τ] {s s' : Locking n κ τ} {t : Task τ} {held : List (Fin n)} {d : ℕ}
  {prog rest : List (LockStmt n κ)} {i : Fin n} {publishes : List ℕ} {o : List (MqttCall n κ)}

/-- The task has the statements that its step leaves. -/
theorem Changed.prog_self (h : Changed s s' t held d prog) : s'.prog t = prog := by
  rw [h.prog, Function.update_self]

/-- The task has the mutexes that its step leaves. -/
theorem Changed.held_self (h : Changed s s' t held d prog) : s'.held t = held := by
  rw [h.held, Function.update_self]

/-- Another task has the statements that it had. -/
theorem Changed.prog_of_ne {u : Task τ} (h : Changed s s' t held d prog) (hu : u ≠ t) :
    s'.prog u = s.prog u := by
  rw [h.prog, Function.update_of_ne hu]

/-- Another task has the mutexes that it had. -/
theorem Changed.held_of_ne {u : Task τ} (h : Changed s s' t held d prog) (hu : u ≠ t) :
    s'.held u = s.held u := by
  rw [h.held, Function.update_of_ne hu]

/-- The lock stays as it is. -/
theorem LocksOk.lockStep (hs : LocksOk s) :
    LockStep s.lock s.lock t (depthIn s.lock t) := ⟨rfl, fun _ _ => rfl, hs.pos⟩

/-- The next statements of a task are replaced. -/
theorem LocksOk.setProg (hs : LocksOk s) :
    Changed s (s.setProg t prog) t (s.held t) (depthIn s.lock t) prog :=
  ⟨rfl, (Function.update_eq_self _ _).symm, hs.lockStep, hs.mutexes⟩

/-- A take of the client's lock. -/
theorem LocksOk.move_lock (hs : LocksOk s) (hprog : s.prog t = .lock :: rest)
    (h : s.move t publishes = some (s', o)) :
    Changed s s' t (s.held t) (depthIn s.lock t + 1) rest := by
  simp only [Locking.move, hprog] at h
  obtain ⟨s₁, htake, heq⟩ := Option.map_eq_some_iff.mp h
  cases heq
  obtain ⟨lock', rfl, hlock⟩ := take_spec htake
  exact ⟨rfl, (Function.update_eq_self _ _).symm, hlock, hs.mutexes⟩

/-- A release of the client's lock. -/
theorem LocksOk.move_unlock (hs : LocksOk s) (hprog : s.prog t = .unlock :: rest)
    (h : s.move t publishes = some (s', o)) :
    Changed s s' t (s.held t) (depthIn s.lock t - 1) rest := by
  simp only [Locking.move, hprog] at h
  obtain ⟨s₁, hgive, heq⟩ := Option.map_eq_some_iff.mp h
  cases heq
  obtain ⟨lock', rfl, hlock⟩ := give_spec hs.pos hgive
  exact ⟨rfl, (Function.update_eq_self _ _).symm, hlock, hs.mutexes⟩

/-- A call of `publish_mqtt_topic`: the task goes on with an endpoint while the client is running, or
returns, or the check of the topic fails. -/
theorem LocksOk.move_publishTopic {topic : ℕ} (hs : LocksOk s)
    (hprog : s.prog t = .publishTopic topic :: rest) (h : s.move t publishes = some (s', o)) :
    (∃ i : Fin n, i.val = topic ∧ s.w.running = true ∧
        Changed s s' t (s.held t) (depthIn s.lock t) (publishing i ++ rest)) ∨
      (s.w.running = false ∧ Changed s s' t (s.held t) (depthIn s.lock t) rest) ∨
      (n ≤ topic ∧ s' = { s with aborted := true }) := by
  simp only [Locking.move, hprog] at h
  split_ifs at h with hrunning htopic <;> cases h
  · exact .inl ⟨⟨topic, htopic⟩, rfl, hrunning, hs.setProg⟩
  · exact .inr (.inr ⟨not_lt.mp htopic, rfl⟩)
  · exact .inr (.inl ⟨Bool.eq_false_of_not_eq_true hrunning, hs.setProg⟩)

/-- A take of a mutex, which is free. -/
theorem LocksOk.move_take (hs : LocksOk s) (hprog : s.prog t = .stmt (.take i) :: rest)
    (h : s.move t publishes = some (s', o)) :
    Changed s s' t (i :: s.held t) (depthIn s.lock t) rest := by
  simp only [Locking.move, hprog, exec] at h
  obtain ⟨b, hb, -⟩ := hs.mutexes.mutex i
  rw [hb] at h
  cases b with
  | true => cases h
  | false =>
    cases h
    exact ⟨rfl, rfl, hs.lockStep, hs.mutexes.take hb⟩

/-- A give of the mutex that was taken last. -/
theorem LocksOk.move_give (hs : LocksOk s) (hprog : s.prog t = .stmt (.give i) :: rest)
    (hheld : s.held t = i :: held) (h : s.move t publishes = some (s', o)) :
    Changed s s' t held (depthIn s.lock t) rest := by
  have hgive : heldAfter (s.held t) (.give i : Stmt n κ) = held := by
    rw [heldAfter, hheld, List.erase_cons_head]
  simp only [Locking.move, hprog, exec, hgive] at h
  obtain ⟨b, hb, hiff⟩ := hs.mutexes.mutex i
  have htaken : b = true := hiff.mpr ⟨t, by simp [hheld]⟩
  rw [hb, htaken, if_pos rfl] at h
  cases h
  exact ⟨rfl, rfl, hs.lockStep, hs.mutexes.give hheld⟩

/-- A statement that leaves the statics and the mutexes. -/
theorem LocksOk.move_stmt {x : Stmt n κ} {calls : List (MqttCall n κ)} {next : List (Stmt n κ)}
    (hs : LocksOk s) (hprog : s.prog t = .stmt x :: rest)
    (hx : exec s.w x = .done s.w calls next) (hheld : heldAfter (s.held t) x = s.held t)
    (h : s.move t publishes = some (s', o)) :
    Changed s s' t (s.held t) (depthIn s.lock t)
      (next.map .stmt ++ publishesOf publishes x ++ rest) := by
  simp only [Locking.move, hprog, hx, hheld] at h
  cases h
  exact ⟨rfl, rfl, hs.lockStep, by rw [Function.update_eq_self]; exact hs.mutexes⟩

/-- A step is a message for a client's task that has nothing to do, a call of `publish_mqtt_topic` by a
task that has nothing to do, or the next statement of a task. -/
theorem locking_step {w : MyMqtt n κ} {client : ℕ} {i : LockingInput τ}
    {o : List (Task τ × MqttCall n κ)} (h : (locking w client).step s i = some (s', o)) :
    (∃ topic data, i = .dispatch topic data ∧ s.prog .client = [] ∧
        s' = s.setProg .client (handling client topic data) ∧ o = []) ∨
      (∃ p j, i = .publish p j ∧ s.prog (.publisher p) = [] ∧
        s' = s.setProg (.publisher p) [.publishTopic j] ∧ o = []) ∨
      ∃ t publishes calls, i = .move t publishes ∧ s.move t publishes = some (s', calls) ∧
        o = calls.map (Prod.mk t) := by
  simp only [locking] at h
  by_cases ha : s.aborted
  · rw [if_pos ha] at h
    cases h
  rw [if_neg ha] at h
  cases i with
  | dispatch topic data =>
    dsimp only at h
    split_ifs at h with hidle
    cases h
    exact .inl ⟨topic, data, rfl, List.isEmpty_iff.mp hidle, rfl, rfl⟩
  | publish p j =>
    dsimp only at h
    split_ifs at h with hidle
    cases h
    exact .inr (.inl ⟨p, j, rfl, List.isEmpty_iff.mp hidle, rfl, rfl⟩)
  | move t publishes =>
    obtain ⟨⟨s₁, calls⟩, hmove, heq⟩ := Option.map_eq_some_iff.mp h
    cases heq
    exact .inr (.inr ⟨t, publishes, calls, rfl, hmove, rfl⟩)

end

end PartLib.Mqtt
