import PartLib.Mqtt.LockSteps

/-!
# Cyclic waits between publishers and the client's task

A task in `publish_mqtt_topic` has the mutex of an endpoint while it waits for the client's lock; the
client's task has its lock while it waits for the mutex of an endpoint, in `parse_mqtt_topic` and in a
callback that publishes. When both are about the same endpoint, neither goes on; and a callback that
publishes on its own endpoint waits for itself.

There is no other way to a cyclic wait. A run never comes to one if and only if at each of its steps
the two stay apart (`no_cyclicWait_iff`).
-/

namespace PartLib.Mqtt

variable {n : ℕ} {κ τ : Type*}

/-- The task `p` has taken the mutex of the endpoint, and not yet the client's lock. -/
def Locking.Between (s : Locking n κ τ) (p : τ) (i : Fin n) : Prop :=
  i ∈ s.held (.publisher p) ∧ wantedBy (s.prog (.publisher p)) = some none

/-- `parse_mqtt_topic` takes the mutex of the endpoint: the topics agree, and it has a callback. -/
def Hits (w : MyMqtt n κ) (i : Fin n) (topic : List UInt8) : Prop :=
  strncmp topic (w.my_endpoints i).topic topic.length = some 0 ∧
    (w.my_endpoints i).sub_callback.isSome = true

/-- No task takes the mutex of an endpoint to publish while the client's task, which has its lock, is
about to take it. The client's task does not come to take the mutex of an endpoint, for a message or
to publish in a callback, while another task has taken it and not yet the client's lock; and no
callback publishes on its own endpoint. -/
def Apart (s : Locking n κ τ) : LockingInput τ → Prop
  | .move (.publisher p) _ =>
    ∀ i, wantedBy (s.prog (.publisher p)) = some (some i) →
      wantedBy (s.prog .client) ≠ some (some i)
  | .move .client _ =>
    match s.prog .client with
    | .stmt (.matchTopic i topic _) :: _ => Hits s.w i topic → ∀ p, ¬ s.Between p i
    | .publishTopic topic :: _ =>
      s.w.running = true → ∀ i : Fin n, i.val = topic → i ∉ s.held .client ∧ ∀ p, ¬ s.Between p i
    | _ => True
  | _ => True

/-! ## One step -/

/-- The locks are those of the tasks that have them, every task is somewhere in its functions, and no
task is between the mutex that the client's task is about to take and the client's lock. -/
structure LockingInv [DecidableEq τ] (s : Locking n κ τ) : Prop extends LocksOk s where
  client : ClientAt (s.held .client) (depthIn s.lock .client) (s.prog .client)
  publisher : ∀ p, PublisherAt (s.held (.publisher p)) (depthIn s.lock (.publisher p))
    (s.prog (.publisher p))
  apart : ∀ p i, wantedBy (s.prog .client) = some (some i) → ¬ s.Between p i

section

variable [DecidableEq τ] {s s' : Locking n κ τ} {t : Task τ} {held : List (Fin n)} {d : ℕ}
  {prog rest : List (LockStmt n κ)} {i : Fin n} {publishes : List ℕ} {o : List (MqttCall n κ)}

/-- A step of the client's task leaves the tasks that publish where they are. -/
theorem Changed.between_iff {p : τ} (h : Changed s s' .client held d prog) :
    s'.Between p i ↔ s.Between p i := by
  rw [Locking.Between, Locking.Between, h.prog_of_ne (by simp), h.held_of_ne (by simp)]

/-- A step of the client's task, which leaves it somewhere in its functions, not about to take a mutex
that another task is between. -/
theorem LockingInv.changed_client (hs : LockingInv s) (h : Changed s s' .client held d prog)
    (hclient : ClientAt held d prog)
    (hapart : ∀ p i, wantedBy prog = some (some i) → ¬ s.Between p i) : LockingInv s' := by
  refine ⟨⟨h.mutexes, h.lock.pos⟩, ?_, fun p => ?_, fun p i hw hb => ?_⟩
  · rw [h.prog_self, h.held_self, h.lock.self]
    exact hclient
  · rw [h.prog_of_ne (by simp), h.held_of_ne (by simp), h.lock.other _ (by simp)]
    exact hs.publisher p
  · rw [h.prog_self] at hw
    exact hapart p i hw (h.between_iff.mp hb)

/-- A step of a task that publishes, which leaves it in `publish_mqtt_topic`, and not between a mutex
that the client's task is about to take and the client's lock. -/
theorem LockingInv.changed_publisher {p : τ} (hs : LockingInv s)
    (h : Changed s s' (.publisher p) held d prog) (hpublisher : PublisherAt held d prog)
    (hapart : ∀ i, i ∈ held → wantedBy prog = some none →
      wantedBy (s.prog .client) ≠ some (some i)) : LockingInv s' := by
  have hclient : s'.prog .client = s.prog .client := h.prog_of_ne (by simp)
  refine ⟨⟨h.mutexes, h.lock.pos⟩, ?_, fun q => ?_, fun q i hw hb => ?_⟩
  · rw [hclient, h.held_of_ne (by simp), h.lock.other _ (by simp)]
    exact hs.client
  · by_cases hq : q = p
    · subst hq
      rw [h.prog_self, h.held_self, h.lock.self]
      exact hpublisher
    · have hne : Task.publisher q ≠ .publisher p := fun he => hq (Task.publisher.inj he)
      rw [h.prog_of_ne hne, h.held_of_ne hne, h.lock.other _ hne]
      exact hs.publisher q
  · rw [hclient] at hw
    by_cases hq : q = p
    · subst hq
      rw [Locking.Between, h.prog_self, h.held_self] at hb
      exact hapart i hb.1 hb.2 hw
    · have hne : Task.publisher q ≠ .publisher p := fun he => hq (Task.publisher.inj he)
      rw [Locking.Between, h.prog_of_ne hne, h.held_of_ne hne] at hb
      exact hs.apart q i hw hb

/-- A failed check changes nothing else. -/
theorem LockingInv.abort (hs : LockingInv s) : LockingInv { s with aborted := true } :=
  ⟨⟨hs.mutexes, hs.pos⟩, hs.client, hs.publisher, hs.apart⟩

/-- A statement that aborts the program changes nothing else. -/
theorem LockingInv.move_aborts {x : Stmt n κ} (hs : LockingInv s) (hprog : s.prog t = .stmt x :: rest)
    (hx : exec s.w x = .aborts) (h : s.move t publishes = some (s', o)) : LockingInv s' := by
  simp only [Locking.move, hprog, hx] at h
  cases h
  exact hs.abort

/-- The client's task after a step is not about to take a mutex. -/
theorem LockingInv.nested (hs : LockingInv s) (h : Changed s s' .client held d prog)
    (hnested : Nested held d prog) : LockingInv s' :=
  hs.changed_client h (.nested hnested) fun _ _ hw => absurd hw hnested.wantedBy_ne

/-- The client's task goes on by a statement. -/
theorem LockingInv.move_client (hs : LockingInv s) (hc : Apart s (.move .client publishes))
    (h : s.move .client publishes = some (s', o)) : LockingInv s' := by
  have hclient := hs.client
  simp only [Apart] at hc
  generalize hprog : s.prog .client = prog at hclient hc
  cases hclient with
  | taking hd hi hn => exact hs.nested (hs.move_take hprog h) hn
  | nested hn =>
    match prog with
    | [] => simp [Locking.move, hprog] at h
    | .lock :: rest => exact hs.nested (hs.move_lock hprog h) hn
    | .unlock :: rest => exact hs.nested (hs.move_unlock hprog h) hn.2
    | .publishTopic topic :: rest =>
      obtain ⟨i, hi, hrunning, hch⟩ | ⟨-, hch⟩ | ⟨-, rfl⟩ := hs.move_publishTopic hprog h
      · obtain ⟨hown, hbetween⟩ := hc hrunning i hi
        refine hs.changed_client hch (.publishing hn.1 hown hn.2) fun p j hw => ?_
        cases hw
        exact hbetween p
      · exact hs.nested hch hn.2
      · exact hs.abort
    | .stmt (.give i) :: rest =>
      obtain ⟨held', hheld, hn⟩ := hn
      exact hs.nested (hs.move_give hprog hheld h) hn
    | .stmt (.publish i) :: rest => exact hs.nested (hs.move_stmt hprog rfl rfl h) hn
    | .stmt (.checkClient c) :: rest =>
      by_cases hclient : s.w.client = some c
      · have hx : exec s.w (.checkClient c) = .done s.w [] [] := by rw [exec, if_pos hclient]
        exact hs.nested (hs.move_stmt hprog hx rfl h) hn
      · exact hs.move_aborts hprog (by rw [exec, if_neg hclient]) h
    | .stmt (.callback i data) :: rest =>
      cases hcb : (s.w.my_endpoints i).sub_callback with
      | none => exact hs.move_aborts hprog (by simp only [exec, hcb]) h
      | some cb =>
        have hx : exec s.w (.callback i data) = .done s.w [.callback i cb data] [] := by
          simp only [exec, hcb]
        exact hs.nested (hs.move_stmt hprog hx rfl h) (hn.2.publishes hn.1 publishes)
    | .stmt (.matchTopic i topic data) :: rest =>
      obtain ⟨hd, hheld, hn⟩ := hn
      cases hcmp : strncmp topic (s.w.my_endpoints i).topic topic.length with
      | none => exact hs.move_aborts hprog (by simp only [exec, hcmp]) h
      | some c =>
        by_cases hhit : c = 0 ∧ (s.w.my_endpoints i).sub_callback.isSome = true
        · have hx : exec s.w (.matchTopic i topic data) =
              .done s.w [] [.take i, .callback i data, .give i] := by
            simp only [exec, hcmp, if_pos hhit]
          have hch := hs.move_stmt hprog hx rfl h
          refine hs.changed_client hch (.taking hd (by simp [hheld]) ?_) fun p j hw => ?_
          · exact ⟨hd, s.held .client, rfl, hn⟩
          · cases hw
            exact hc ⟨by rw [hcmp, hhit.1], hhit.2⟩ p
        · have hx : exec s.w (.matchTopic i topic data) = .done s.w [] [] := by
            simp only [exec, hcmp, if_neg hhit]
          exact hs.nested (hs.move_stmt hprog hx rfl h) hn

/-- A task that publishes goes on by a statement. -/
theorem LockingInv.move_publisher {p : τ} (hs : LockingInv s)
    (hc : Apart s (.move (.publisher p) publishes))
    (h : s.move (.publisher p) publishes = some (s', o)) : LockingInv s' := by
  have hpublisher := hs.publisher p
  simp only [Apart] at hc
  generalize hprog : s.prog (.publisher p) = prog at hpublisher hc
  generalize hheld : s.held (.publisher p) = held at hpublisher
  generalize hdepth : depthIn s.lock (.publisher p) = d at hpublisher
  cases hpublisher with
  | idle => simp [Locking.move, hprog] at h
  | called topic =>
    have hcall := hs.move_publishTopic hprog h
    rw [hheld, hdepth] at hcall
    obtain ⟨i, -, -, hch⟩ | ⟨-, hch⟩ | ⟨-, rfl⟩ := hcall
    · rw [List.append_nil] at hch
      exact hs.changed_publisher hch (.taking i) (by simp)
    · exact hs.changed_publisher hch .idle (by simp)
    · exact hs.abort
  | taking i =>
    have hch := hs.move_take hprog h
    rw [hheld, hdepth] at hch
    refine hs.changed_publisher hch (.locking i) fun j hj _ => ?_
    rw [List.mem_singleton.mp hj]
    exact hc i rfl
  | locking i =>
    have hch := hs.move_lock hprog h
    rw [hheld, hdepth] at hch
    exact hs.changed_publisher hch (.sending i) (by simp [wantedBy])
  | sending i =>
    have hch := hs.move_stmt hprog rfl rfl h
    rw [hheld, hdepth] at hch
    exact hs.changed_publisher hch (.unlocking i) (by simp [publishesOf, wantedBy])
  | unlocking i =>
    have hch := hs.move_unlock hprog h
    rw [hheld, hdepth] at hch
    exact hs.changed_publisher hch (.giving i) (by simp [wantedBy])
  | giving i =>
    have hch := hs.move_give hprog hheld h
    rw [hdepth] at hch
    exact hs.changed_publisher hch .idle (by simp)

/-! ## No other cyclic wait -/

/-- Every task waits for tasks of a higher rank: one that is about to take a mutex to publish, for the
client's task or for one that publishes and has the mutex; one that is about to take the client's lock
to publish, for the client's task or for one that has the lock; and the client's task, for one that
waits for nothing. -/
def waitRank : Task τ → Option (Option (Fin n)) → ℕ
  | _, none => 3
  | .client, some _ => 2
  | .publisher _, some none => 1
  | .publisher _, some (some _) => 0

omit [DecidableEq τ] in
/-- The rank of a task that waits to publish is below that of the client's task. -/
theorem waitRank_publisher_lt {p : τ} (l : Option (Fin n)) (l' : Option (Option (Fin n))) :
    waitRank (.publisher p) (some l) < waitRank (.client : Task τ) l' := by
  cases l <;> cases l' <;> simp [waitRank]

/-- A task that has the client's lock has taken it. -/
theorem LockingInv.depth_pos (hs : LockingInv s) (h : s.graph.holds t none) :
    0 < depthIn s.lock t := by
  obtain ⟨d, hlock⟩ := h
  simpa [depthIn, hlock] using hs.pos t d hlock

/-- In a state in which the invariant holds there is no cyclic wait. -/
theorem LockingInv.no_cyclicWait (hs : LockingInv s) : ¬ s.graph.CyclicWait := by
  refine LockGraph.not_cyclicWait_of_rank (fun t => waitRank t (wantedBy (s.prog t))) ?_
  rintro t u ⟨l, hw, hh, hne⟩
  have hw : wantedBy (s.prog t) = some l := hw
  rw [hw]
  cases t with
  | publisher p =>
    cases u with
    | client => exact waitRank_publisher_lt l _
    | publisher q =>
      cases l with
      | none =>
        rw [(hs.publisher q).wantedBy_of_pos (hs.depth_pos hh)]
        simp [waitRank]
      | some i => rcases (hs.publisher q).wantedBy_of_mem hh with hq | hq <;> simp [waitRank, hq]
  | client =>
    cases u with
    | client =>
      -- The client's lock may be taken again, and the mutex is not one that the task has.
      cases l with
      | none => exact absurd rfl (hne rfl)
      | some i => exact absurd hh (hs.client.wants hw).2
    | publisher q =>
      have hq : wantedBy (s.prog (.publisher q)) = none := by
        cases l with
        | none => exact (hs.publisher q).wantedBy_of_pos (hs.depth_pos hh)
        | some i =>
          refine ((hs.publisher q).wantedBy_of_mem hh).resolve_left fun hlock => ?_
          exact hs.apart q i hw ⟨hh, hlock⟩
      rw [hq]
      simp [waitRank]

/-- The client's task, about to take the mutex of an endpoint that another task is between, waits for
this task, which waits for it. -/
theorem Locking.Between.cyclicWait {p : τ} (h : s.Between p i)
    (hw : wantedBy (s.prog .client) = some (some i)) (hd : 0 < depthIn s.lock .client) :
    s.graph.CyclicWait :=
  LockGraph.cyclicWait_pair (by simp) hw h.1 h.2 ⟨_, lock_of_depthIn hd⟩

/-- A task that waits for another one, or for itself, does not go on. -/
theorem Mutexes.move_eq_none {u : Task τ} (hs : Mutexes s.w s.held) (h : s.graph.WaitsFor t u) :
    s.move t publishes = none := by
  obtain ⟨l, hw, hh, hne⟩ := h
  have hw : wantedBy (s.prog t) = some l := hw
  unfold wantedBy at hw
  split at hw
  case h_1 rest hprog =>
    cases hw
    obtain ⟨d, hlock⟩ := hh
    simp [Locking.move, hprog, Locking.take, hlock, Ne.symm (hne rfl)]
  case h_2 i rest hprog =>
    cases hw
    obtain ⟨b, hb, hiff⟩ := hs.mutex i
    rw [hiff.mpr ⟨u, hh⟩] at hb
    simp [Locking.move, hprog, exec, hb]
  case h_3 => cases hw

/-- When a task takes a mutex to publish that the client's task is about to take, the two wait for each
other. -/
theorem LockingInv.cyclicWait_publisher {p : τ} (hs : LockingInv s)
    (hc : ¬ Apart s (.move (.publisher p) publishes))
    (h : s.move (.publisher p) publishes = some (s', o)) : s'.graph.CyclicWait := by
  simp only [Apart, not_forall, not_not] at hc
  obtain ⟨i, hp, hclient⟩ := hc
  have hpublisher := hs.publisher p
  generalize hprog : s.prog (.publisher p) = prog at hpublisher hp
  generalize hheld : s.held (.publisher p) = held at hpublisher
  generalize depthIn s.lock (.publisher p) = d at hpublisher
  cases hpublisher <;> cases hp
  have hch := hs.move_take hprog h
  have hbetween : s'.Between p i := by
    rw [Locking.Between, hch.prog_self, hch.held_self]
    exact ⟨List.mem_cons_self, rfl⟩
  refine hbetween.cyclicWait (by rw [hch.prog_of_ne (by simp), hclient]) ?_
  rw [hch.lock.other _ (by simp)]
  exact (hs.client.wants hclient).1

/-- When the client's task comes to take a mutex that another task is between, the two wait for each
other. -/
theorem Changed.cyclicWait {p : τ} (h : Changed s s' .client held d (.stmt (.take i) :: rest))
    (hd : 0 < d) (hb : s.Between p i) : s'.graph.CyclicWait := by
  refine (h.between_iff.mpr hb).cyclicWait ?_ (by rw [h.lock.self]; exact hd)
  rw [h.prog_self]
  rfl

/-- When the client's task comes to take a mutex that another task is between, or that it has itself,
there is a cyclic wait. -/
theorem LockingInv.cyclicWait_client (hs : LockingInv s) (hc : ¬ Apart s (.move .client publishes))
    (h : s.move .client publishes = some (s', o)) : s'.graph.CyclicWait := by
  have hclient := hs.client
  simp only [Apart] at hc
  generalize hprog : s.prog .client = prog at hclient hc
  split at hc
  case h_1 i topic data rest =>
    simp only [not_forall, not_not] at hc
    obtain ⟨⟨hcmp, hcb⟩, p, hb⟩ := hc
    have hx : exec s.w (.matchTopic i topic data) =
        .done s.w [] [.take i, .callback i data, .give i] := by
      simp only [exec, hcmp, hcb, and_self, if_true]
    cases hclient with
    | nested hn => exact (hs.move_stmt hprog hx rfl h).cyclicWait hn.1 hb
  case h_2 topic rest =>
    cases hclient with
    | nested hn =>
      simp only [Classical.not_imp, not_and_or, not_not, not_forall] at hc
      obtain ⟨hrunning, i, rfl, hc⟩ := hc
      obtain ⟨j, hj, -, hch⟩ | ⟨hnot, -⟩ | ⟨hle, -⟩ := hs.move_publishTopic hprog h
      · obtain rfl := Fin.ext hj
        rcases hc with hown | ⟨p, hb⟩
        · -- The callback publishes on its own endpoint.
          refine LockGraph.cyclicWait_self (t := .client) (l := some j) ?_ ?_ (by simp [Locking.graph])
          · simp only [Locking.graph, hch.prog_self]
            rfl
          · simp only [Locking.graph, hch.held_self]
            exact hown
        · exact hch.cyclicWait hn.1 hb
      · rw [hrunning] at hnot
        cases hnot
      · exact absurd i.isLt (not_lt.mpr hle)
  case h_3 => exact absurd trivial hc

end

section

variable [DecidableEq τ] {s s' : Locking n κ τ} {i : LockingInput τ} {w : MyMqtt n κ} {client : ℕ}
  {o : List (Task τ × MqttCall n κ)}

/-- The tasks after `mqtt_app_start` do nothing. -/
theorem lockingInv_init : LockingInv (locking w client : Machine (Locking n κ τ) _ _).init :=
  ⟨⟨⟨fun i => ⟨false, rfl, by simp [locking]⟩, by simp [locking], by simp [locking]⟩,
    by simp [locking]⟩, .nested ⟨rfl, rfl⟩, fun _ => .idle, by simp [locking, wantedBy]⟩

/-- A step in which the two stay apart. -/
theorem LockingInv.step (hs : LockingInv s) (hc : Apart s i)
    (h : (locking w client).step s i = some (s', o)) : LockingInv s' := by
  obtain ⟨topic, data, rfl, hidle, rfl, -⟩ | ⟨p, j, rfl, hidle, rfl, -⟩ |
    ⟨t, publishes, calls, rfl, hmove, -⟩ := locking_step h
  · -- The client's task has no mutex, and has not taken its lock.
    have hclient := hs.client
    rw [hidle] at hclient
    cases hclient with
    | nested hn =>
      have hnested : Nested [] 0 (handling client topic data : List (LockStmt n κ)) :=
        nested_handling client topic data
      rw [← hn.1, ← hn.2] at hnested
      exact hs.nested hs.setProg hnested
  · have hpublisher := hs.publisher p
    have hch : Changed s (s.setProg (.publisher p) [.publishTopic j]) (.publisher p) _ _ _ :=
      hs.setProg
    generalize s.held (.publisher p) = held at hpublisher hch
    generalize depthIn s.lock (.publisher p) = d at hpublisher hch
    rw [hidle] at hpublisher
    cases hpublisher
    exact hs.changed_publisher hch (.called j) (by simp)
  · cases t with
    | client => exact hs.move_client hc hmove
    | publisher p => exact hs.move_publisher hc hmove

/-- A step leads to a cyclic wait exactly when the two do not stay apart. -/
theorem LockingInv.apart_iff (hs : LockingInv s)
    (h : (locking w client).step s i = some (s', o)) : ¬ s'.graph.CyclicWait ↔ Apart s i := by
  constructor
  · intro hno
    by_contra hc
    obtain ⟨topic, data, rfl, -⟩ | ⟨p, j, rfl, -⟩ | ⟨t, publishes, calls, rfl, hmove, -⟩ :=
      locking_step h
    · exact hc trivial
    · exact hc trivial
    · cases t with
      | client => exact hno (hs.cyclicWait_client hc hmove)
      | publisher p => exact hno (hs.cyclicWait_publisher hc hmove)
  · intro hc
    exact (hs.step hc h).no_cyclicWait

end

/-- In every run, with any number of tasks that publish, and any topics on which the callbacks
publish, no state that is reached has a cyclic wait if and only if at each step the tasks that publish
and the client's task stay apart. -/
theorem no_cyclicWait_iff [DecidableEq τ] (w : MyMqtt n κ) (client : ℕ)
    (inputs : List (LockingInput τ)) :
    ((locking w client).AllSteps inputs fun _ _ _ s' _ => ¬ s'.graph.CyclicWait) ↔
      (locking w client).AllSteps inputs fun _ s i _ _ => Apart s i :=
  Machine.allSteps_congr_of (fun _ s => LockingInv s) lockingInv_init
    (fun _ _ _ _ _ hs hc h => hs.step hc h) fun _ _ _ _ _ hs h => hs.apart_iff h

/-- One endpoint with a callback, of the client 1, which is running. -/
def oneEndpoint : MyMqtt 1 Unit where
  running := true
  client := some 1
  if_updown := false
  my_endpoints _ := ⟨some false, 0, 97 :: List.replicate 127 0, some ()⟩
  do_mqtt_init_from_top := none

/-- A task takes the mutex of the endpoint to publish, and then the client's task handles a message for
the endpoint. -/
def publishAndMessage : List (LockingInput Unit) :=
  [.publish () 0, .move (.publisher ()) [], .move (.publisher ()) [], .dispatch [97] [],
    .move .client [], .move .client [], .move .client []]

/-- The two wait for each other. -/
theorem publish_and_message_wait : ∃ s os,
    (locking oneEndpoint 1).run (locking oneEndpoint 1).init publishAndMessage = some (s, os) ∧
      s.graph.CyclicWait :=
  ⟨_, _, rfl, LockGraph.cyclicWait_pair (t := .client) (u := .publisher ()) (l := some 0) (m := none)
    (by simp) rfl (.head _) rfl ⟨1, rfl⟩⟩

end PartLib.Mqtt
