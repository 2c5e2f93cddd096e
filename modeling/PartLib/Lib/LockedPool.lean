import PartLib.Lib.Program
import PartLib.Lib.Machine
import Mathlib.Logic.Function.Basic

/-!
# Tasks that share a resource behind a mutex

Any number of tasks call functions that access one resource. A function is a program whose requests
are to take the mutex, to give it, and to access the resource. In the machine `pool` a step is one
request of one task, so the requests of different tasks come in any order; a take may time out at
any time and succeeds only while the mutex is free, and the environment chooses the outcome of an
access.

`wp` is the weakest precondition of a program under this protocol: the program accesses the resource
only while it holds the mutex, and whatever the other tasks leave in the resource between its
critical sections, every access is as `ok` says and the result as `post` says. What has been shown of
each function holds in every run of the pool (`pool_law`): the mutex keeps the other tasks from the
resource for as long as a task holds it.
-/

namespace PartLib

/-- The requests of a program that shares a resource: the mutex, and the accesses `ρ`. -/
inductive LockReq (ρ : Type)
  | take
  | give
  | access (r : ρ)
  deriving DecidableEq

/-- The answers: whether the mutex was taken or given, and what the access answers. -/
abbrev LockReq.Ans {ρ : Type} (ans : ρ → Type) : LockReq ρ → Type
  | .take => Bool
  | .give => Bool
  | .access r => ans r

section

variable {ρ δ χ : Type} {ans : ρ → Type} {α β : Type}

/-- What a task has been served so far. -/
abbrev ServedLog (ans : ρ → Type) := List (Served (LockReq.Ans ans))

/-! ## The weakest precondition -/

namespace Program

/-- The program keeps to the protocol after the log `log`, with the resource in the state that
`held` says while it holds the mutex: every access is `ok`, and the result satisfies `post`. The
environment chooses the outcome of an access, and, when the mutex is taken, the state of the
resource. -/
def wp (access : δ → (r : ρ) → χ → δ × ans r) (ok : ServedLog ans → δ → ρ → χ → Prop) :
    Program (LockReq.Ans ans) α → (ServedLog ans → Option δ → α → Prop) → ServedLog ans →
      Option δ → Prop
  | .pure a, post, log, held => post log held a
  | .request .take next, post, log, held =>
    held = none ∧ (∀ d, (next true).wp access ok post (log ++ [⟨.take, true⟩]) (some d)) ∧
      (next false).wp access ok post (log ++ [⟨.take, false⟩]) none
  | .request .give next, post, log, held =>
    held.isSome = true ∧ (next true).wp access ok post (log ++ [⟨.give, true⟩]) none
  | .request (.access r) next, post, log, held =>
    ∃ d, held = some d ∧ ∀ x, ok log d r x ∧
      (next (access d r x).2).wp access ok post (log ++ [⟨.access r, (access d r x).2⟩])
        (some (access d r x).1)

variable {access : δ → (r : ρ) → χ → δ × ans r} {ok : ServedLog ans → δ → ρ → χ → Prop}

@[simp]
theorem wp_pure {a : α} {post : ServedLog ans → Option δ → α → Prop} {log : ServedLog ans}
    {held : Option δ} : (Program.pure a).wp access ok post log held ↔ post log held a := by
  rw [wp]

/-- A program keeps to the protocol when its first part does and leads to where the second does. -/
@[simp]
theorem wp_bind {p : Program (LockReq.Ans ans) α} {f : α → Program (LockReq.Ans ans) β}
    {post : ServedLog ans → Option δ → β → Prop} {log : ServedLog ans} {held : Option δ} :
    (p >>= f).wp access ok post log held ↔
      p.wp access ok (fun log held a => (f a).wp access ok post log held) log held := by
  induction p generalizing log held with
  | pure a => rw [pure_bind, wp_pure]
  | request r next ih =>
    rw [request_bind]
    cases r with
    | take => simp only [wp, ih]
    | give => simp only [wp, ih]
    | access r => simp only [wp, ih]

/-- A weaker condition on the result. -/
theorem wp_mono {p : Program (LockReq.Ans ans) α} {post post' : ServedLog ans → Option δ → α → Prop}
    (h : ∀ log held a, post log held a → post' log held a) {log : ServedLog ans}
    {held : Option δ} (hp : p.wp access ok post log held) : p.wp access ok post' log held := by
  induction p generalizing log held with
  | pure a =>
    rw [wp_pure] at hp ⊢
    exact h _ _ _ hp
  | request r next ih =>
    cases r with
    | take => exact ⟨hp.1, fun d => ih true (hp.2.1 d), ih false hp.2.2⟩
    | give => exact ⟨hp.1, ih true hp.2⟩
    | access r =>
      obtain ⟨d, hd, hx⟩ := hp
      exact ⟨d, hd, fun x => ⟨(hx x).1, ih _ (hx x).2⟩⟩

end Program

end

/-! ## The pool -/

section

variable {τ κ ρ δ χ : Type} {ans : ρ → Type} {α : Type}

/-- A call in progress: what it has been served, and what is left of it. -/
structure Running (κ : Type) {ρ : Type} (ans : ρ → Type) (α : Type) where
  call : κ
  log : ServedLog ans
  rest : Program (LockReq.Ans ans) α

/-- The holder of the mutex, the resource, and the calls in progress. -/
structure Pool (τ κ δ : Type) {ρ : Type} (ans : ρ → Type) (α : Type) where
  owner : Option τ
  resource : δ
  task : τ → Option (Running κ ans α)

/-- The moves of a task: it calls a function, takes the mutex or times out, gives it, accesses the
resource with an outcome, or returns. -/
inductive PoolInput (τ κ χ : Type)
  | call (t : τ) (c : κ)
  | take (t : τ) (ok : Bool)
  | give (t : τ)
  | access (t : τ) (x : χ)
  | ret (t : τ)

/-- What is seen of a move: a request that was served, or the return of a call. -/
inductive PoolOut (τ κ : Type) {ρ : Type} (ans : ρ → Type) (α : Type)
  | served (t : τ) (c : κ) (e : Served (LockReq.Ans ans))
  | returned (t : τ) (c : κ) (log : ServedLog ans) (a : α)

/-- The accesses among the outputs, with the calls that made them. -/
def accesses (os : List (PoolOut τ κ ans α)) : List (κ × Served ans) :=
  os.filterMap fun o =>
    match o with
    | .served _ c ⟨.access r, a⟩ => some (c, ⟨r, a⟩)
    | _ => none

/-- The accesses are those of the first outputs and then those of the others. -/
theorem accesses_append (os₁ os₂ : List (PoolOut τ κ ans α)) :
    accesses (os₁ ++ os₂) = accesses os₁ ++ accesses os₂ := List.filterMap_append

/-- An access that was served is among the accesses. -/
theorem mem_accesses {os : List (PoolOut τ κ ans α)} {t : τ} {c : κ} {r : ρ} {a : ans r}
    (h : .served t c ⟨.access r, a⟩ ∈ os) : (c, ⟨r, a⟩) ∈ accesses os :=
  List.mem_filterMap.mpr ⟨_, h, rfl⟩

variable [DecidableEq τ]

namespace Pool

/-- The state when a request of the task `t` has been answered. -/
def proceed (s : Pool τ κ δ ans α) (t : τ) (run : Running κ ans α)
    (e : Served (LockReq.Ans ans)) (rest : Program (LockReq.Ans ans) α) : Pool τ κ δ ans α :=
  { s with task := Function.update s.task t (some ⟨run.call, run.log ++ [e], rest⟩) }

/-- The resource as the task `t` knows it: while it holds the mutex. -/
def held (s : Pool τ κ δ ans α) (t : τ) : Option δ :=
  if s.owner = some t then some s.resource else none

end Pool

/-- The tasks `τ`, each of which calls the functions `κ` with the bodies `body`. -/
def pool (τ : Type) [DecidableEq τ] (body : κ → Program (LockReq.Ans ans) α)
    (access : δ → (r : ρ) → χ → δ × ans r) (d₀ : δ) :
    Machine (Pool τ κ δ ans α) (PoolInput τ κ χ) (PoolOut τ κ ans α) where
  init := ⟨none, d₀, fun _ => none⟩
  step s i :=
    match i with
    | .call t c =>
      match s.task t with
      | none => some ({ s with task := Function.update s.task t (some ⟨c, [], body c⟩) }, [])
      | some _ => none
    | .take t ok =>
      match s.task t with
      | some ⟨c, log, .request .take next⟩ =>
        if ok then
          if s.owner = none then
            some ({ s.proceed t ⟨c, log, .request .take next⟩ ⟨.take, true⟩ (next true) with
              owner := some t }, [.served t c ⟨.take, true⟩])
          else none
        else
          some (s.proceed t ⟨c, log, .request .take next⟩ ⟨.take, false⟩ (next false),
            [.served t c ⟨.take, false⟩])
      | _ => none
    | .give t =>
      match s.task t with
      | some ⟨c, log, .request .give next⟩ =>
        -- Only the holder can give a mutex.
        if s.owner = some t then
          some ({ s.proceed t ⟨c, log, .request .give next⟩ ⟨.give, true⟩ (next true) with
            owner := none }, [.served t c ⟨.give, true⟩])
        else
          some (s.proceed t ⟨c, log, .request .give next⟩ ⟨.give, false⟩ (next false),
            [.served t c ⟨.give, false⟩])
      | _ => none
    | .access t x =>
      match s.task t with
      | some ⟨c, log, .request (.access r) next⟩ =>
        let q := access s.resource r x
        some ({ s.proceed t ⟨c, log, .request (.access r) next⟩ ⟨.access r, q.2⟩ (next q.2) with
          resource := q.1 }, [.served t c ⟨.access r, q.2⟩])
      | _ => none
    | .ret t =>
      match s.task t with
      | some ⟨c, log, .pure a⟩ =>
        some ({ s with task := Function.update s.task t none }, [.returned t c log a])
      | _ => none

/-! ## The moves -/

/-- What a move of the pool does. -/
inductive PoolMove (body : κ → Program (LockReq.Ans ans) α) (access : δ → (r : ρ) → χ → δ × ans r)
    (s : Pool τ κ δ ans α) :
    PoolInput τ κ χ → Pool τ κ δ ans α → List (PoolOut τ κ ans α) → Prop
  | call {t : τ} (c : κ) (htask : s.task t = none) : PoolMove body access s (.call t c)
      { s with task := Function.update s.task t (some ⟨c, [], body c⟩) } []
  | taken {t : τ} {c : κ} {log : ServedLog ans} {next : Bool → Program (LockReq.Ans ans) α}
      (htask : s.task t = some ⟨c, log, .request .take next⟩) (hfree : s.owner = none) :
      PoolMove body access s (.take t true)
        { s.proceed t ⟨c, log, .request .take next⟩ ⟨.take, true⟩ (next true) with
          owner := some t } [.served t c ⟨.take, true⟩]
  | timedOut {t : τ} {c : κ} {log : ServedLog ans} {next : Bool → Program (LockReq.Ans ans) α}
      (htask : s.task t = some ⟨c, log, .request .take next⟩) :
      PoolMove body access s (.take t false)
        (s.proceed t ⟨c, log, .request .take next⟩ ⟨.take, false⟩ (next false))
        [.served t c ⟨.take, false⟩]
  | given {t : τ} {c : κ} {log : ServedLog ans} {next : Bool → Program (LockReq.Ans ans) α}
      (htask : s.task t = some ⟨c, log, .request .give next⟩) (howner : s.owner = some t) :
      PoolMove body access s (.give t)
        { s.proceed t ⟨c, log, .request .give next⟩ ⟨.give, true⟩ (next true) with
          owner := none } [.served t c ⟨.give, true⟩]
  | notGiven {t : τ} {c : κ} {log : ServedLog ans} {next : Bool → Program (LockReq.Ans ans) α}
      (htask : s.task t = some ⟨c, log, .request .give next⟩) (howner : s.owner ≠ some t) :
      PoolMove body access s (.give t)
        (s.proceed t ⟨c, log, .request .give next⟩ ⟨.give, false⟩ (next false))
        [.served t c ⟨.give, false⟩]
  | accessed {t : τ} {c : κ} {log : ServedLog ans} {r : ρ}
      {next : ans r → Program (LockReq.Ans ans) α} (x : χ)
      (htask : s.task t = some ⟨c, log, .request (.access r) next⟩) :
      PoolMove body access s (.access t x)
        { s.proceed t ⟨c, log, .request (.access r) next⟩ ⟨.access r, (access s.resource r x).2⟩
            (next (access s.resource r x).2) with
          resource := (access s.resource r x).1 }
        [.served t c ⟨.access r, (access s.resource r x).2⟩]
  | returned {t : τ} {c : κ} {log : ServedLog ans} {a : α}
      (htask : s.task t = some ⟨c, log, .pure a⟩) : PoolMove body access s (.ret t)
        { s with task := Function.update s.task t none } [.returned t c log a]

/-- Every step of the pool is one of these. -/
theorem pool_step_move {body : κ → Program (LockReq.Ans ans) α}
    {access : δ → (r : ρ) → χ → δ × ans r} {d₀ : δ} {s s' : Pool τ κ δ ans α}
    {i : PoolInput τ κ χ} {o : List (PoolOut τ κ ans α)}
    (h : (pool τ body access d₀).step s i = some (s', o)) : PoolMove body access s i s' o := by
  cases i with
  | call t c =>
    simp only [pool] at h
    split at h <;> cases h
    exact .call c ‹_›
  | take t succ =>
    simp only [pool] at h
    split at h
    · split_ifs at h with hsucc howner <;> cases h
      · subst hsucc
        exact .taken ‹_› howner
      · obtain rfl : succ = false := by simpa using hsucc
        exact .timedOut ‹_›
    · cases h
  | give t =>
    simp only [pool] at h
    split at h
    · split_ifs at h with howner <;> cases h
      · exact .given ‹_› howner
      · exact .notGiven ‹_› howner
    · cases h
  | access t x =>
    simp only [pool] at h
    split at h <;> cases h
    exact .accessed x ‹_›
  | ret t =>
    simp only [pool] at h
    split at h <;> cases h
    exact .returned ‹_›

/-! ## Laws of every run -/

variable {body : κ → Program (LockReq.Ans ans) α} {access : δ → (r : ρ) → χ → δ × ans r} {d₀ : δ}
  {ok : κ → ServedLog ans → δ → ρ → χ → Prop} {post : κ → ServedLog ans → α → Prop}

/-- The program of the call `c` keeps to the protocol from `log` on, and returns without the
mutex. -/
def Keeps (access : δ → (r : ρ) → χ → δ × ans r) (ok : κ → ServedLog ans → δ → ρ → χ → Prop)
    (post : κ → ServedLog ans → α → Prop) (c : κ) (p : Program (LockReq.Ans ans) α)
    (log : ServedLog ans) (held : Option δ) : Prop :=
  p.wp access (ok c) (fun log held a => held = none ∧ post c log a) log held

/-- Every call in progress keeps to the protocol, and a task without a call does not hold the
mutex. -/
structure PoolInv (access : δ → (r : ρ) → χ → δ × ans r)
    (ok : κ → ServedLog ans → δ → ρ → χ → Prop) (post : κ → ServedLog ans → α → Prop)
    (s : Pool τ κ δ ans α) : Prop where
  keeps : ∀ t run, s.task t = some run → Keeps access ok post run.call run.rest run.log (s.held t)
  idle : ∀ t, s.task t = none → s.owner ≠ some t

/-- The invariant when one task has moved, from what it says of this task and of the others. -/
theorem PoolInv.update {s s' : Pool τ κ δ ans α} (hs : PoolInv access ok post s) {t : τ}
    {run : Option (Running κ ans α)} (htask : s'.task = Function.update s.task t run)
    (hother : ∀ u, u ≠ t → s'.held u = s.held u)
    (hkeeps : ∀ r, run = some r → Keeps access ok post r.call r.rest r.log (s'.held t))
    (hidle : run = none → s'.owner ≠ some t) : PoolInv access ok post s' := by
  constructor
  · intro u r hr
    rw [htask] at hr
    by_cases hu : u = t
    · subst hu
      rw [Function.update_self] at hr
      exact hkeeps r hr
    · rw [Function.update_of_ne hu] at hr
      rw [hother u hu]
      exact hs.keeps u r hr
  · intro u hr
    rw [htask] at hr
    by_cases hu : u = t
    · subst hu
      rw [Function.update_self] at hr
      exact hidle hr
    · rw [Function.update_of_ne hu] at hr
      -- The other task holds the mutex now only if it did before.
      have hne := hs.idle u hr
      have hheld := hother u hu
      intro howner
      simp [Pool.held, howner, hne] at hheld

/-- What a step shows: an access is made by the holder of the mutex and is as `ok` says, a call
returns without the mutex and as `post` says, and only an access changes the resource. -/
structure PoolLaw (access : δ → (r : ρ) → χ → δ × ans r)
    (ok : κ → ServedLog ans → δ → ρ → χ → Prop) (post : κ → ServedLog ans → α → Prop)
    (s s' : Pool τ κ δ ans α) (o : List (PoolOut τ κ ans α)) : Prop where
  holder : ∀ t c r a, .served t c ⟨.access r, a⟩ ∈ o → s.owner = some t
  returned : ∀ t c log a, .returned t c log a ∈ o → post c log a ∧ s.owner ≠ some t
  resource : (accesses o = [] ∧ s'.resource = s.resource) ∨
    ∃ t c log r next x, s.task t = some ⟨c, log, .request (.access r) next⟩ ∧
      accesses o = [(c, ⟨r, (access s.resource r x).2⟩)] ∧ ok c log s.resource r x ∧
      s'.resource = (access s.resource r x).1

omit [DecidableEq τ] in
/-- A step that shows no access and no return, and leaves the resource. -/
theorem PoolLaw.quiet {s s' : Pool τ κ δ ans α} {o : List (PoolOut τ κ ans α)}
    (hserved : ∀ t c r a, .served t c ⟨.access r, a⟩ ∉ o)
    (hreturned : ∀ t c log a, .returned t c log a ∉ o) (haccess : accesses o = [])
    (hres : s'.resource = s.resource) : PoolLaw access ok post s s' o :=
  ⟨fun t c r a h => (hserved t c r a h).elim, fun t c log a h => (hreturned t c log a h).elim,
    .inl ⟨haccess, hres⟩⟩

/-- What the protocol says of a task that is at a request. -/
theorem PoolInv.keeps_wp {s : Pool τ κ δ ans α} (hs : PoolInv access ok post s) {t : τ} {c : κ}
    {log : ServedLog ans} {p : Program (LockReq.Ans ans) α} (h : s.task t = some ⟨c, log, p⟩) :
    p.wp access (ok c) (fun log held a => held = none ∧ post c log a) log (s.held t) :=
  hs.keeps t _ h

/-- A task that knows the resource holds the mutex. -/
theorem Pool.owner_of_held {s : Pool τ κ δ ans α} {t : τ} (h : s.held t ≠ none) :
    s.owner = some t := by
  by_contra hne
  exact h (if_neg hne)

/-- A step of a pool whose functions keep to the protocol. -/
theorem pool_step (hbody : ∀ c, Keeps access ok post c (body c) [] none)
    {s s' : Pool τ κ δ ans α} {i : PoolInput τ κ χ} {o : List (PoolOut τ κ ans α)}
    (hs : PoolInv access ok post s) (hstep : (pool τ body access d₀).step s i = some (s', o)) :
    PoolInv access ok post s' ∧ PoolLaw access ok post s s' o := by
  cases pool_step_move hstep with
  | @call t c htask =>
    have hheld : s.held t = none := if_neg (hs.idle t htask)
    refine ⟨hs.update rfl (fun _ _ => rfl) ?_ (by simp), .quiet (by simp) (by simp) rfl rfl⟩
    rintro r ⟨⟩
    change Keeps access ok post c (body c) [] (s.held t)
    rw [hheld]
    exact hbody c
  | @taken t c log next htask hfree =>
    -- The mutex was free, so no other task knew the resource, and none does now.
    refine ⟨hs.update rfl (fun u hu => ?_) ?_ (by simp), .quiet (by simp) (by simp) rfl rfl⟩
    · simp [Pool.held, hfree, hu.symm]
    · rintro r ⟨⟩
      simpa [Pool.held, Keeps, Pool.proceed] using (hs.keeps_wp htask).2.1 s.resource
  | @timedOut t c log next htask =>
    have hk := hs.keeps_wp htask
    refine ⟨hs.update rfl (fun _ _ => rfl) ?_ (by simp), .quiet (by simp) (by simp) rfl rfl⟩
    rintro r ⟨⟩
    change Keeps access ok post c _ _ (s.held t)
    rw [hk.1]
    exact hk.2.2
  | @given t c log next htask howner =>
    refine ⟨hs.update rfl (fun u hu => ?_) ?_ (by simp), .quiet (by simp) (by simp) rfl rfl⟩
    · simp [Pool.held, howner, hu.symm]
    · rintro r ⟨⟩
      simpa [Pool.held, Keeps] using (hs.keeps_wp htask).2
  | @notGiven t c log next htask howner =>
    -- The program gives the mutex only while it holds it.
    have hk := (hs.keeps_wp htask).1
    exact absurd (Pool.owner_of_held (Option.isSome_iff_ne_none.mp hk)) howner
  | @accessed t c log r next x htask =>
    obtain ⟨d, hheld, hx⟩ := hs.keeps_wp htask
    have howner : s.owner = some t := Pool.owner_of_held (by simp [hheld])
    obtain rfl : s.resource = d := by simpa [Pool.held, howner] using hheld
    refine ⟨hs.update rfl (fun u hu => ?_) ?_ (by simp), ⟨?_, by simp, .inr ?_⟩⟩
    · simp [Pool.held, howner, hu.symm, Pool.proceed]
    · rintro r' ⟨⟩
      simpa [Pool.held, howner, Keeps, Pool.proceed] using (hx x).2
    · intro t' c' r' a hmem
      simp only [List.mem_singleton, PoolOut.served.injEq] at hmem
      rw [howner, hmem.1]
    · exact ⟨t, c, log, r, next, x, htask, rfl, (hx x).1, rfl⟩
  | @returned t c log a htask =>
    obtain ⟨hheld, hpost⟩ := hs.keeps_wp htask
    have howner : s.owner ≠ some t := by
      intro h
      simp [Pool.held, h] at hheld
    refine ⟨hs.update rfl (fun _ _ => rfl) (by simp) (fun _ => howner),
      ⟨by simp, ?_, .inl ⟨rfl, rfl⟩⟩⟩
    intro t' c' log' a' hmem
    simp only [List.mem_singleton, PoolOut.returned.injEq] at hmem
    obtain ⟨rfl, rfl, rfl, rfl⟩ := hmem
    exact ⟨hpost, howner⟩

/-- No call is in progress as the pool starts. -/
theorem poolInv_init :
    PoolInv access ok post (pool τ body access d₀).init := ⟨by simp [pool], by simp [pool]⟩

/-- In every run of a pool whose functions keep to the protocol, every step is as the law says. -/
theorem pool_law (hbody : ∀ c, Keeps access ok post c (body c) [] none)
    (inputs : List (PoolInput τ κ χ)) :
    (pool τ body access d₀).AllSteps inputs fun _ s _ s' o => PoolLaw access ok post s s' o :=
  Machine.allSteps_of_inv (I := fun _ s => PoolInv access ok post s) poolInv_init
    fun _ _ _ _ _ hs hstep => pool_step hbody hs hstep

/-- When every access has the effect `effect` on the value `abs` of the resource, this value is at
any time the result of the effects of the accesses made so far, one after another. -/
theorem pool_foldl {υ : Type} (abs : δ → υ) (effect : κ → Served ans → υ → υ)
    (hbody : ∀ c, Keeps access ok post c (body c) [] none)
    (heffect : ∀ c log d r x, ok c log d r x →
      abs (access d r x).1 = effect c ⟨r, (access d r x).2⟩ (abs d))
    {inputs : List (PoolInput τ κ χ)} {s : Pool τ κ δ ans α} {os : List (PoolOut τ κ ans α)}
    (hrun : (pool τ body access d₀).run (pool τ body access d₀).init inputs = some (s, os)) :
    abs s.resource = (accesses os).foldl (fun v e => effect e.1 e.2 v) (abs d₀) := by
  refine (Machine.run_inv (fun os s => PoolInv access ok post s ∧
    abs s.resource = (accesses os).foldl (fun v e => effect e.1 e.2 v) (abs d₀))
    ⟨poolInv_init, rfl⟩ (fun past s i s' o hs hstep => ?_) hrun).2
  obtain ⟨hinv, hlaw⟩ := pool_step hbody hs.1 hstep
  refine ⟨hinv, ?_⟩
  rw [accesses_append, List.foldl_append, ← hs.2]
  rcases hlaw.resource with ⟨hnil, hres⟩ | ⟨t, c, log, r, next, x, -, hone, hok, hres⟩
  · rw [hnil, hres]
    rfl
  · rw [hone, hres]
    exact heffect c log s.resource r x hok

end

end PartLib
