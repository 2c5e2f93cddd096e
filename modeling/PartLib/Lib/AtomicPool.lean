import PartLib.Lib.LockInvariant

/-!
# Critical sections as single steps

In a pool whose functions keep to the protocol of the mutex, the requests of other tasks may come
between the requests of a critical section. `atomicPool` is the same pool with a critical section as
one step, from the take of the mutex to its give. `pool_atomic` is the rule that the two agree: a run
of the pool that ends with the mutex free is matched by a run of the atomic pool, which reaches the
same state, makes the same accesses in the same order, serves every task the same requests, and shows
the calls and the returns in the same order. A critical section is moved to the moment of its give:
what the other tasks do meanwhile does not touch the resource.
-/

namespace PartLib

section

variable {τ κ ρ δ χ : Type} {ans : ρ → Type} {α : Type}

/-! ## The accesses of a section -/

/-- The accesses of a program with the outcomes of a list: the resource, what was served, and what is
left of the program. -/
def Program.accessesWith (access : δ → (r : ρ) → χ → δ × ans r) :
    Program (LockReq.Ans ans) α → δ → List χ → Option (δ × ServedLog ans × Program (LockReq.Ans ans) α)
  | p, d, [] => some (d, [], p)
  | .request (.access r) next, d, x :: xs =>
    ((next (access d r x).2).accessesWith access (access d r x).1 xs).map fun q =>
      (q.1, ⟨.access r, (access d r x).2⟩ :: q.2.1, q.2.2)
  | _, _, _ :: _ => none

@[simp]
theorem Program.accessesWith_nil {access : δ → (r : ρ) → χ → δ × ans r}
    {p : Program (LockReq.Ans ans) α} {d : δ} : p.accessesWith access d [] = some (d, [], p) := by
  rw [accessesWith]

/-- One more access. -/
theorem Program.accessesWith_snoc {access : δ → (r : ρ) → χ → δ × ans r}
    {p : Program (LockReq.Ans ans) α} {d d' : δ} {xs : List χ} {cur : ServedLog ans} {r : ρ}
    {next : ans r → Program (LockReq.Ans ans) α} (x : χ)
    (h : p.accessesWith access d xs = some (d', cur, .request (.access r) next)) :
    p.accessesWith access d (xs ++ [x]) =
      some ((access d' r x).1, cur ++ [⟨.access r, (access d' r x).2⟩], next (access d' r x).2) := by
  induction xs generalizing p d cur with
  | nil =>
    simp only [accessesWith, Option.some.injEq, Prod.mk.injEq] at h
    obtain ⟨rfl, rfl, rfl⟩ := h
    simp [accessesWith]
  | cons y ys ih =>
    cases p with
    | pure a => cases h
    | request req nxt =>
      cases req with
      | take => cases h
      | give => cases h
      | access r' =>
        simp only [accessesWith, Option.map_eq_some_iff, Prod.mk.injEq] at h
        obtain ⟨⟨d₁, cur₁, p₁⟩, h₁, rfl, rfl, rfl⟩ := h
        simp [accessesWith, ih h₁]

/-- What holds after a program that makes accesses only holds of a section that goes on to a give
after it, when the answers in the section are admitted. -/
theorem Program.wpInside_accessesWith {G : Guard δ χ ans} {ok : δ → ρ → χ → Prop} {β : Type}
    {p : Program (LockReq.Ans ans) β} {f : β → Program (LockReq.Ans ans) α}
    {post : ServedLog ans → δ → β → Prop} {d d' : δ} {xs : List χ} {cur : ServedLog ans}
    {last : Bool → Program (LockReq.Ans ans) α} (h : p.wpInside G ok post d)
    (hf : ∀ b, ∃ k, f b = .request .give k)
    (hrun : (p >>= f).accessesWith G.access d xs = some (d', cur, .request .give last))
    (hadm : ∀ r a, ⟨.access r, a⟩ ∈ cur → G.admits r a) :
    ∃ b, post cur d' b ∧ f b = .request .give last := by
  induction p generalizing post d xs cur with
  | pure b =>
    rw [pure_bind] at hrun
    obtain ⟨k, hk⟩ := hf b
    rw [hk] at hrun
    cases xs with
    | cons x xs => cases hrun
    | nil =>
      simp only [accessesWith_nil, Option.some.injEq, Prod.mk.injEq] at hrun
      obtain ⟨rfl, rfl, hlast⟩ := hrun
      exact ⟨b, h, hk.trans hlast⟩
  | request req next ih =>
    rw [request_bind] at hrun
    cases req with
    | take => exact h.elim
    | give => exact h.elim
    | access r =>
      cases xs with
      | nil => simp at hrun
      | cons x xs =>
        simp only [accessesWith, Option.map_eq_some_iff, Prod.mk.injEq] at hrun
        obtain ⟨⟨d₁, cur₁, p₁⟩, hrun₁, rfl, rfl, rfl⟩ := hrun
        obtain ⟨b, hpost, hb⟩ := ih _ (h x (hadm r _ (by simp))).2 hrun₁
          fun r a hmem => hadm r a (List.mem_cons_of_mem _ hmem)
        exact ⟨b, hpost, hb⟩

/-! ## The atomic pool -/

/-- The moves of a task: it calls a function, times out at the mutex, goes through a critical section
with the outcomes of its accesses, or returns. -/
inductive AtomicInput (τ κ χ : Type)
  | call (t : τ) (c : κ)
  | timeout (t : τ)
  | critical (t : τ) (xs : List χ)
  | ret (t : τ)

/-- What is seen of the steps that are served to a call. -/
def servedTo (t : τ) (c : κ) (steps : ServedLog ans) : List (PoolOut τ κ ans α) :=
  steps.map (.served t c)

variable [DecidableEq τ]

/-- The pool whose critical sections are single steps. -/
def atomicPool (τ : Type) [DecidableEq τ] (body : κ → Program (LockReq.Ans ans) α)
    (access : δ → (r : ρ) → χ → δ × ans r) (d₀ : δ) :
    Machine (Pool τ κ δ ans α) (AtomicInput τ κ χ) (PoolOut τ κ ans α) where
  init := ⟨none, d₀, fun _ => none⟩
  step s i :=
    match i with
    | .call t c =>
      match s.task t with
      | none => some ({ s with task := Function.update s.task t (some ⟨c, [], body c⟩) }, [])
      | some _ => none
    | .timeout t =>
      match s.task t with
      | some ⟨c, log, .request .take next⟩ =>
        some (s.proceed t ⟨c, log, .request .take next⟩ ⟨.take, false⟩ (next false),
          [.served t c ⟨.take, false⟩])
      | _ => none
    | .critical t xs =>
      match s.task t with
      | some ⟨c, log, .request .take next⟩ =>
        match (next true).accessesWith access s.resource xs with
        | some (d, cur, .request .give last) =>
          some ({ s with
            resource := d
            task := Function.update s.task t
              (some ⟨c, log ++ [⟨.take, true⟩] ++ cur ++ [⟨.give, true⟩], last true⟩) },
            servedTo t c (⟨.take, true⟩ :: cur ++ [⟨.give, true⟩]))
        | _ => none
      | _ => none
    | .ret t =>
      match s.task t with
      | some ⟨c, log, .pure a⟩ =>
        some ({ s with task := Function.update s.task t none }, [.returned t c log a])
      | _ => none

/-- What a move of the atomic pool does. -/
inductive AtomicMove (body : κ → Program (LockReq.Ans ans) α)
    (access : δ → (r : ρ) → χ → δ × ans r) (s : Pool τ κ δ ans α) :
    AtomicInput τ κ χ → Pool τ κ δ ans α → List (PoolOut τ κ ans α) → Prop
  | call {t : τ} (c : κ) (htask : s.task t = none) : AtomicMove body access s (.call t c)
      { s with task := Function.update s.task t (some ⟨c, [], body c⟩) } []
  | timedOut {t : τ} {c : κ} {log : ServedLog ans} {next : Bool → Program (LockReq.Ans ans) α}
      (htask : s.task t = some ⟨c, log, .request .take next⟩) :
      AtomicMove body access s (.timeout t)
        { s with task := Function.update s.task t (some ⟨c, log ++ [⟨.take, false⟩], next false⟩) }
        [.served t c ⟨.take, false⟩]
  | critical {t : τ} {c : κ} {log cur : ServedLog ans} {next last : Bool → Program (LockReq.Ans ans) α}
      {xs : List χ} {d : δ} (htask : s.task t = some ⟨c, log, .request .take next⟩)
      (hcur : (next true).accessesWith access s.resource xs = some (d, cur, .request .give last)) :
      AtomicMove body access s (.critical t xs)
        { s with
          resource := d
          task := Function.update s.task t
            (some ⟨c, log ++ [⟨.take, true⟩] ++ cur ++ [⟨.give, true⟩], last true⟩) }
        (servedTo t c (⟨.take, true⟩ :: cur ++ [⟨.give, true⟩]))
  | returned {t : τ} {c : κ} {log : ServedLog ans} {a : α}
      (htask : s.task t = some ⟨c, log, .pure a⟩) : AtomicMove body access s (.ret t)
        { s with task := Function.update s.task t none } [.returned t c log a]

/-- Every step of the atomic pool is one of these. -/
theorem atomicPool_step_move {body : κ → Program (LockReq.Ans ans) α}
    {access : δ → (r : ρ) → χ → δ × ans r} {d₀ : δ} {s s' : Pool τ κ δ ans α}
    {i : AtomicInput τ κ χ} {o : List (PoolOut τ κ ans α)}
    (h : (atomicPool τ body access d₀).step s i = some (s', o)) : AtomicMove body access s i s' o := by
  cases i with
  | call t c =>
    simp only [atomicPool] at h
    split at h <;> cases h
    exact .call c ‹_›
  | timeout t =>
    simp only [atomicPool] at h
    split at h <;> cases h
    exact .timedOut ‹_›
  | critical t xs =>
    simp only [atomicPool] at h
    split at h
    · split at h <;> cases h
      exact .critical ‹_› ‹_›
    · cases h
  | ret t =>
    simp only [atomicPool] at h
    split at h <;> cases h
    exact .returned ‹_›

/-! ## What two runs have in common -/

/-- The task of an output. -/
def PoolOut.task : PoolOut τ κ ans α → τ
  | .served t _ _ => t
  | .returned t _ _ _ => t

/-- What is seen of one task. -/
def ofTask (t : τ) (os : List (PoolOut τ κ ans α)) : List (PoolOut τ κ ans α) :=
  os.filter fun o => o.task = t

/-- The returns among the outputs. -/
def returns (os : List (PoolOut τ κ ans α)) : List (τ × κ × α) :=
  os.filterMap fun o =>
    match o with
    | .served _ _ _ => none
    | .returned t c _ a => some (t, c, a)

/-- The calls and the returns among the moves: a task with the function it calls, or without. -/
def history (inputs : List (PoolInput τ κ χ)) : List (τ × Option κ) :=
  inputs.filterMap fun i =>
    match i with
    | .call t c => some (t, some c)
    | .ret t => some (t, none)
    | _ => none

/-- The calls and the returns among the moves of the atomic pool. -/
def atomicHistory (inputs : List (AtomicInput τ κ χ)) : List (τ × Option κ) :=
  inputs.filterMap fun i =>
    match i with
    | .call t c => some (t, some c)
    | .ret t => some (t, none)
    | _ => none

/-- What two runs have in common while a critical section is not completed, whose outputs so far are
`pending`: they show the same accesses, the same of every task, and the same returns, in the same
order. -/
structure SameBut (pending os os' : List (PoolOut τ κ ans α)) : Prop where
  same_accesses : accesses os = accesses os' ++ accesses pending
  same_tasks : ∀ t, ofTask t os = ofTask t os' ++ ofTask t pending
  same_returns : returns os = returns os' ++ returns pending

/-- Nothing but the moments of the critical sections tells the two runs apart. -/
abbrev SameView (os os' : List (PoolOut τ κ ans α)) : Prop := SameBut [] os os'

omit [DecidableEq τ] in
@[simp]
theorem accesses_nil : accesses ([] : List (PoolOut τ κ ans α)) = [] := rfl

omit [DecidableEq τ] in
@[simp]
theorem returns_append (os₁ os₂ : List (PoolOut τ κ ans α)) :
    returns (os₁ ++ os₂) = returns os₁ ++ returns os₂ := List.filterMap_append

omit [DecidableEq τ] in
@[simp]
theorem returns_servedTo (t : τ) (c : κ) (steps : ServedLog ans) :
    returns (servedTo t c steps : List (PoolOut τ κ ans α)) = [] := by
  simp [returns, servedTo, List.filterMap_map]

@[simp]
theorem ofTask_append (t : τ) (os₁ os₂ : List (PoolOut τ κ ans α)) :
    ofTask t (os₁ ++ os₂) = ofTask t os₁ ++ ofTask t os₂ := List.filter_append ..

theorem ofTask_servedTo_of_ne {t u : τ} (h : t ≠ u) (c : κ) (steps : ServedLog ans) :
    ofTask u (servedTo t c steps : List (PoolOut τ κ ans α)) = [] := by
  rw [ofTask, List.filter_eq_nil_iff]
  intro o ho
  obtain ⟨e, -, rfl⟩ := List.mem_map.mp ho
  exact fun htask => h (of_decide_eq_true htask)

/-- Both runs show the same, of other tasks than the one whose critical section is pending, and no
access. -/
theorem SameBut.both {pending os os' o : List (PoolOut τ κ ans α)} (h : SameBut pending os os')
    (haccess : accesses o = []) (hpending : returns pending = [])
    (htask : ∀ t, ofTask t o = [] ∨ ofTask t pending = []) :
    SameBut pending (os ++ o) (os' ++ o) := by
  refine ⟨?_, fun t => ?_, ?_⟩
  · rw [accesses_append, accesses_append, haccess, h.same_accesses, List.append_nil, List.append_nil]
  · rw [ofTask_append, ofTask_append, h.same_tasks]
    rcases htask t with ho | hp
    · simp [ho]
    · simp [hp]
  · rw [returns_append, returns_append, h.same_returns, hpending, List.append_nil, List.append_nil]

/-- The critical section goes on. -/
theorem SameBut.more {pending os os' : List (PoolOut τ κ ans α)} (h : SameBut pending os os')
    (o : List (PoolOut τ κ ans α)) : SameBut (pending ++ o) (os ++ o) os' := by
  refine ⟨?_, fun t => ?_, ?_⟩
  · rw [accesses_append, accesses_append, h.same_accesses, List.append_assoc]
  · rw [ofTask_append, ofTask_append, h.same_tasks, List.append_assoc]
  · rw [returns_append, returns_append, h.same_returns, List.append_assoc]

/-- The critical section is completed. -/
theorem SameBut.complete {pending os os' : List (PoolOut τ κ ans α)} (h : SameBut pending os os') :
    SameBut [] os (os' ++ pending) := by
  refine ⟨?_, fun t => ?_, ?_⟩
  · rw [accesses_append, accesses_nil, List.append_nil, h.same_accesses]
  · rw [ofTask_append, h.same_tasks]
    exact (List.append_nil _).symm
  · rw [returns_append, h.same_returns]
    exact (List.append_nil _).symm

/-! ## The two pools -/

/-- The state `s` of the pool and the state `s'` of the atomic pool: they agree but for the task that
holds the mutex, which is still before its critical section in `s'`; its outputs so far are
`pending`. -/
inductive Matches (access : δ → (r : ρ) → χ → δ × ans r) :
    Pool τ κ δ ans α → Pool τ κ δ ans α → List (PoolOut τ κ ans α) → Prop
  | free {resource : δ} {task : τ → Option (Running κ ans α)} :
      Matches access ⟨none, resource, task⟩ ⟨none, resource, task⟩ []
  | inside {t : τ} {resource resource' : δ} {task task' : τ → Option (Running κ ans α)} {c : κ}
      {log cur : ServedLog ans} {next : Bool → Program (LockReq.Ans ans) α}
      {p : Program (LockReq.Ans ans) α} {xs : List χ}
      (hothers : ∀ u, u ≠ t → task' u = task u)
      (hbefore : task' t = some ⟨c, log, .request .take next⟩)
      (hinside : task t = some ⟨c, log ++ [⟨.take, true⟩] ++ cur, p⟩)
      (haccesses : (next true).accessesWith access resource' xs = some (resource, cur, p)) :
      Matches access ⟨some t, resource, task⟩ ⟨none, resource', task'⟩
        (servedTo t c (⟨.take, true⟩ :: cur))

/-- A task that does not hold the mutex is where it is in both pools, and its moves keep them
together. -/
theorem Matches.other {access : δ → (r : ρ) → χ → δ × ans r} {s s' : Pool τ κ δ ans α}
    {pending : List (PoolOut τ κ ans α)} (h : Matches access s s' pending) {t : τ}
    (ht : s.owner ≠ some t) (run : Option (Running κ ans α)) :
    s'.task t = s.task t ∧ ofTask t pending = [] ∧ returns pending = [] ∧
      Matches access { s with task := Function.update s.task t run }
        { s' with task := Function.update s'.task t run } pending := by
  cases h with
  | free => exact ⟨rfl, rfl, rfl, .free⟩
  | @inside t₀ resource resource' task task' c log cur next p xs hothers hbefore hinside haccesses =>
    have hne : t ≠ t₀ := fun h => ht (by rw [h])
    refine ⟨hothers t hne, ofTask_servedTo_of_ne hne.symm c _, returns_servedTo t₀ c _, ?_⟩
    have hbefore' : Function.update task' t run t₀ = some ⟨c, log, .request .take next⟩ := by
      rwa [Function.update_of_ne hne.symm]
    have hinside' : Function.update task t run t₀ =
        some ⟨c, log ++ [⟨.take, true⟩] ++ cur, p⟩ := by
      rwa [Function.update_of_ne hne.symm]
    refine .inside (fun u hu => ?_) hbefore' hinside' haccesses
    by_cases hut : u = t
    · subst hut
      rw [Function.update_self, Function.update_self]
    · rw [Function.update_of_ne hut, Function.update_of_ne hut]
      exact hothers u hu

variable {body : κ → Program (LockReq.Ans ans) α} {G : Guard δ χ ans} {d₀ : δ}
  {ok : κ → ServedLog ans → δ → ρ → χ → Prop} {post : κ → ServedLog ans → α → Prop}

/-- The pool has a run of the inputs to the state `s`, with the outputs `os`, that matches a run of
the atomic pool. -/
def HasAtomicRun (body : κ → Program (LockReq.Ans ans) α) (access : δ → (r : ρ) → χ → δ × ans r)
    (d₀ : δ) (inputs : List (PoolInput τ κ χ)) (os : List (PoolOut τ κ ans α))
    (s : Pool τ κ δ ans α) : Prop :=
  ∃ inputs' os' s' pending,
    (atomicPool τ body access d₀).run (atomicPool τ body access d₀).init inputs' = some (s', os') ∧
      Matches access s s' pending ∧ SameBut pending os os' ∧ atomicHistory inputs' = history inputs

/-- The atomic pool makes the move of a task that does not hold the mutex as well. -/
theorem HasAtomicRun.other {access : δ → (r : ρ) → χ → δ × ans r} {inputs : List (PoolInput τ κ χ)}
    {os : List (PoolOut τ κ ans α)} {s : Pool τ κ δ ans α}
    (h : HasAtomicRun body access d₀ inputs os s) {t : τ} (ht : s.owner ≠ some t)
    {run : Option (Running κ ans α)} {i : PoolInput τ κ χ} (i' : AtomicInput τ κ χ)
    {o : List (PoolOut τ κ ans α)}
    (hstep : ∀ s' : Pool τ κ δ ans α, s'.task t = s.task t → (atomicPool τ body access d₀).step s' i' =
      some ({ s' with task := Function.update s'.task t run }, o))
    (hi : atomicHistory [i'] = history [i]) (haccess : accesses o = [])
    (hothers : ∀ u, u ≠ t → ofTask u o = []) :
    HasAtomicRun body access d₀ (inputs ++ [i]) (os ++ o)
      { s with task := Function.update s.task t run } := by
  obtain ⟨inputs', os', s', pending, hrun, hmatch, hview, hhist⟩ := h
  obtain ⟨htask, hpending, hreturns, hmatch'⟩ := hmatch.other ht run
  refine ⟨inputs' ++ [i'], os' ++ o, _, pending, ?_, hmatch', hview.both haccess hreturns ?_, ?_⟩
  · exact (Machine.run_snoc_eq_some _).mpr ⟨s', os', o, hrun, hstep s' htask, rfl⟩
  · intro u
    by_cases hu : u = t
    · exact .inr (hu ▸ hpending)
    · exact .inl (hothers u hu)
  · rw [atomicHistory, history, List.filterMap_append, List.filterMap_append]
    exact congrArg₂ (· ++ ·) hhist hi

/-- A step of the pool: the atomic pool makes it as well, or waits for the end of the critical
section. -/
theorem HasAtomicRun.step {inputs : List (PoolInput τ κ χ)}
    {os : List (PoolOut τ κ ans α)} {s s' : Pool τ κ δ ans α} {i : PoolInput τ κ χ}
    {o : List (PoolOut τ κ ans α)} (h : HasAtomicRun body G.access d₀ inputs os s)
    (hs : GuardInv G ok post s)
    (hstep : (pool τ body G.access d₀).step s i = some (s', o)) :
    HasAtomicRun body G.access d₀ (inputs ++ [i]) (os ++ o) s' := by
  cases pool_step_move hstep with
  | @call t c htask =>
    refine h.other (hs.idle t htask) (.call t c) (fun s₁ h₁ => ?_) rfl rfl fun _ _ => rfl
    simp [atomicPool, h₁, htask]
  | @timedOut t c log next htask =>
    have howner : s.owner ≠ some t := by
      intro howner
      have := (hs.keeps_wp htask).1
      simp [Pool.held, howner] at this
    refine h.other howner (.timeout t) (fun s₁ h₁ => ?_) rfl rfl fun u hu => ?_
    · simp [atomicPool, h₁, htask, Pool.proceed]
    · simp [ofTask, PoolOut.task, hu.symm]
  | @returned t c log a htask =>
    have howner : s.owner ≠ some t := by
      intro howner
      have := (hs.keeps_wp htask).1
      simp [Pool.held, howner] at this
    refine h.other howner (.ret t) (fun s₁ h₁ => ?_) rfl rfl fun u hu => ?_
    · simp [atomicPool, h₁, htask]
    · simp [ofTask, PoolOut.task, hu.symm]
  | @taken t c log next htask hfree =>
    -- The critical section begins; the atomic pool does not move yet.
    obtain ⟨inputs', os', s₁, pending, hrun, hmatch, hview, hhist⟩ := h
    cases hmatch with
    | inside => cases hfree
    | @free resource task =>
      have hinside : Function.update task t (some ⟨c, log ++ [⟨.take, true⟩], next true⟩) t =
          some ⟨c, log ++ [⟨.take, true⟩] ++ [], next true⟩ := by
        rw [Function.update_self, List.append_nil]
      refine ⟨inputs', os', _, _, hrun, .inside (fun u hu => ?_) htask hinside
        Program.accessesWith_nil, hview.more _, ?_⟩
      · exact (Function.update_of_ne hu _ _).symm
      · rw [hhist, history, history, List.filterMap_append]
        exact (List.append_nil _).symm
  | @given t c log next htask howner =>
    -- The critical section ends; the atomic pool makes it now.
    obtain ⟨inputs', os', s₁, pending, hrun, hmatch, hview, hhist⟩ := h
    cases hmatch with
    | free => cases howner
    | @inside t₀ resource resource' task task' c' log' cur nxt p xs hothers hbefore hinside haccesses =>
      obtain rfl : t₀ = t := by simpa using howner
      have heq : some (⟨c', log' ++ [⟨.take, true⟩] ++ cur, p⟩ : Running κ ans α) =
          some ⟨c, log, .request .give next⟩ := hinside.symm.trans htask
      simp only [Option.some.injEq, Running.mk.injEq] at heq
      obtain ⟨rfl, rfl, rfl⟩ := heq
      have hcritical : (atomicPool τ body G.access d₀).step ⟨none, resource', task'⟩ (.critical t₀ xs) =
          some (⟨none, resource, Function.update task t₀
            (some ⟨c', log' ++ [⟨.take, true⟩] ++ cur ++ [⟨.give, true⟩], next true⟩)⟩,
            servedTo t₀ c' (⟨.take, true⟩ :: cur ++ [⟨.give, true⟩])) := by
        have htasks : ∀ run, Function.update task' t₀ run = Function.update task t₀ run := by
          intro run
          funext u
          by_cases hu : u = t₀
          · subst hu
            rw [Function.update_self, Function.update_self]
          · rw [Function.update_of_ne hu, Function.update_of_ne hu, hothers u hu]
        simp [atomicPool, hbefore, haccesses, htasks]
      refine ⟨inputs' ++ [.critical t₀ xs], os' ++ _, _, [], (Machine.run_snoc_eq_some _).mpr
        ⟨_, os', _, hrun, hcritical, rfl⟩, .free, ?_, ?_⟩
      · have hmore := (hview.more [.served t₀ c' ⟨.give, true⟩]).complete
        simpa [servedTo] using hmore
      · rw [atomicHistory, history, List.filterMap_append, List.filterMap_append]
        exact congrArg₂ (· ++ ·) hhist rfl
  | @notGiven t c log next htask howner =>
    obtain ⟨⟨d, hheld, -⟩, -⟩ := hs.keeps_wp htask
    exact absurd (Pool.owner_of_held (by simp [hheld])) howner
  | @accessed t c log r next x htask =>
    -- The task holds the mutex, so the access belongs to the critical section.
    obtain ⟨d, hheld, -⟩ := hs.keeps_wp htask
    have howner : s.owner = some t := Pool.owner_of_held (by simp [hheld])
    obtain ⟨inputs', os', s₁, pending, hrun, hmatch, hview, hhist⟩ := h
    cases hmatch with
    | free => cases howner
    | @inside t₀ resource resource' task task' c' log' cur nxt p xs hothers hbefore hinside haccesses =>
      obtain rfl : t₀ = t := by simpa using howner
      have heq : some (⟨c', log' ++ [⟨.take, true⟩] ++ cur, p⟩ : Running κ ans α) =
          some ⟨c, log, .request (.access r) next⟩ := hinside.symm.trans htask
      simp only [Option.some.injEq, Running.mk.injEq] at heq
      obtain ⟨rfl, rfl, rfl⟩ := heq
      have hinside' : Function.update task t₀ (some ⟨c',
          log' ++ [⟨.take, true⟩] ++ cur ++ [⟨.access r, (G.access resource r x).2⟩],
          next (G.access resource r x).2⟩) t₀ = some ⟨c', log' ++ [⟨.take, true⟩] ++
            (cur ++ [⟨.access r, (G.access resource r x).2⟩]), next (G.access resource r x).2⟩ := by
        rw [Function.update_self, List.append_assoc _ cur]
      refine ⟨inputs', os', _, _, hrun, .inside (fun u hu => ?_) hbefore hinside'
        (Program.accessesWith_snoc x haccesses), ?_, ?_⟩
      · rw [hothers u hu]
        exact (Function.update_of_ne hu _ _).symm
      · simpa [servedTo] using hview.more [.served t₀ c' ⟨.access r, (G.access resource r x).2⟩]
      · rw [hhist, history, history, List.filterMap_append]
        exact (List.append_nil _).symm

/-- Every run of the pool that ends with the mutex free has a run of the atomic pool to the same
state: the same accesses in the same order, the same requests of every task, and the same calls,
returns and results in the same order. -/
theorem pool_atomic {C : κ → Prop} (hbody : ∀ c, C c → Guarded G ok post c (body c) [] none)
    (h0 : G.inv d₀) {inputs : List (PoolInput τ κ χ)}
    (hadm : (pool τ body G.access d₀).AllSteps inputs fun _ s i _ _ => G.AdmitsStep C s i)
    {s : Pool τ κ δ ans α} {os : List (PoolOut τ κ ans α)}
    (hrun : (pool τ body G.access d₀).run (pool τ body G.access d₀).init inputs = some (s, os))
    (hfree : s.owner = none) :
    ∃ inputs' os', (atomicPool τ body G.access d₀).run (atomicPool τ body G.access d₀).init inputs' =
        some (s, os') ∧ SameView os os' ∧ atomicHistory inputs' = history inputs := by
  have hinv : GuardInv G ok post s ∧ HasAtomicRun body G.access d₀ inputs os s :=
    hadm.inv_outputs
      (I := fun h past s => GuardInv G ok post s ∧ HasAtomicRun body G.access d₀ h past s)
      ⟨guardInv_init h0, [], [], _, [], rfl, .free, ⟨rfl, fun _ => rfl, rfl⟩, rfl⟩
      (fun _ _ _ _ _ _ hs hi hstep =>
        ⟨(guarded_step hbody hs.1 hi hstep).1, hs.2.step hs.1 hstep⟩)
      (List.prefix_refl inputs) hrun
  obtain ⟨-, inputs', os', s', pending, hrun', hmatch, hview, hhist⟩ := hinv
  cases hmatch with
  | free => exact ⟨inputs', os', hrun', hview, hhist⟩
  | inside => cases hfree

end

end PartLib
