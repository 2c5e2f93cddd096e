import PartLib.Lib.LockedPool

/-!
# A mutex with an invariant of its resource

The rule of `LockedPool` lets a task find the resource in any state when it takes the mutex. Here the
mutex guards an invariant: a task that takes the mutex finds the invariant, may break it while it
holds the mutex, and gives the mutex with the invariant restored. `wpInv` is the weakest precondition
under this protocol, and `guarded_law` the law of every run of a pool whose functions keep to it.

The answers to the accesses may be restricted, to those that `admits` tells; a law then holds of the
runs in which the environment keeps to these.
-/

namespace PartLib

section

variable {ρ δ χ : Type} {ans : ρ → Type} {α β ε : Type}

/-- A resource behind a mutex: the effect of an access, what holds of the resource whenever the mutex
is free, and the answers that the environment may give. -/
structure Guard (δ χ : Type) {ρ : Type} (ans : ρ → Type) where
  access : δ → (r : ρ) → χ → δ × ans r
  inv : δ → Prop
  admits : (r : ρ) → ans r → Prop

namespace Program

/-- The program keeps to the protocol after the log `log`, with the resource in the state that `held`
says while it holds the mutex: it takes the mutex with the invariant and gives it with the invariant,
every access is `ok`, and the result satisfies `post`. -/
def wpInv (G : Guard δ χ ans) (ok : ServedLog ans → δ → ρ → χ → Prop) :
    Program (LockReq.Ans ans) α → (ServedLog ans → Option δ → α → Prop) → ServedLog ans →
      Option δ → Prop
  | .pure a, post, log, held => post log held a
  | .request .take next, post, log, held =>
    held = none ∧
      (∀ d, G.inv d → (next true).wpInv G ok post (log ++ [⟨.take, true⟩]) (some d)) ∧
      (next false).wpInv G ok post (log ++ [⟨.take, false⟩]) none
  | .request .give next, post, log, held =>
    (∃ d, held = some d ∧ G.inv d) ∧ (next true).wpInv G ok post (log ++ [⟨.give, true⟩]) none
  | .request (.access r) next, post, log, held =>
    ∃ d, held = some d ∧ ∀ x, G.admits r (G.access d r x).2 → ok log d r x ∧
      (next (G.access d r x).2).wpInv G ok post (log ++ [⟨.access r, (G.access d r x).2⟩])
        (some (G.access d r x).1)

variable {G : Guard δ χ ans} {ok : ServedLog ans → δ → ρ → χ → Prop} {log : ServedLog ans}
  {held : Option δ}

@[simp]
theorem wpInv_pure {a : α} {post : ServedLog ans → Option δ → α → Prop} :
    (Program.pure a).wpInv G ok post log held ↔ post log held a := by
  rw [wpInv]

/-- A program keeps to the protocol when its first part does and leads to where the second does. -/
theorem wpInv_bind {p : Program (LockReq.Ans ans) α} {f : α → Program (LockReq.Ans ans) β}
    {post : ServedLog ans → Option δ → β → Prop} :
    (p >>= f).wpInv G ok post log held ↔
      p.wpInv G ok (fun log held a => (f a).wpInv G ok post log held) log held := by
  induction p generalizing log held with
  | pure a => rw [pure_bind, wpInv_pure]
  | request r next ih =>
    rw [request_bind]
    cases r with
    | take => simp only [wpInv, ih]
    | give => simp only [wpInv, ih]
    | access r => simp only [wpInv, ih]

/-- A weaker condition on the result. -/
theorem wpInv_mono {p : Program (LockReq.Ans ans) α}
    {post post' : ServedLog ans → Option δ → α → Prop}
    (h : ∀ log held a, post log held a → post' log held a)
    (hp : p.wpInv G ok post log held) : p.wpInv G ok post' log held := by
  induction p generalizing log held with
  | pure a =>
    rw [wpInv_pure] at hp ⊢
    exact h _ _ _ hp
  | request r next ih =>
    cases r with
    | take => exact ⟨hp.1, fun d hd => ih true (hp.2.1 d hd), ih false hp.2.2⟩
    | give => exact ⟨hp.1, ih true hp.2⟩
    | access r =>
      obtain ⟨d, hd, hx⟩ := hp
      exact ⟨d, hd, fun x hadm => ⟨(hx x hadm).1, ih _ (hx x hadm).2⟩⟩

/-- An error of the first part leaves the program at once. -/
theorem wpInv_exceptBind {x : ExceptT ε (Program (LockReq.Ans ans)) α}
    {f : α → ExceptT ε (Program (LockReq.Ans ans)) β}
    {post : ServedLog ans → Option δ → Except ε β → Prop} :
    (x >>= f).run.wpInv G ok post log held ↔
      x.run.wpInv G ok (fun log held a =>
        match a with
        | .ok a => (f a).run.wpInv G ok post log held
        | .error e => post log held (.error e)) log held := by
  rw [ExceptT.run_bind, wpInv_bind]
  refine iff_of_eq (congrArg (fun post => x.run.wpInv G ok post log held) ?_)
  funext log held a
  cases a with
  | ok a => rfl
  | error e => exact propext wpInv_pure

/-- A program that cannot leave with an error. -/
theorem wpInv_exceptLift {p : Program (LockReq.Ans ans) α}
    {post : ServedLog ans → Option δ → Except ε α → Prop} :
    (ExceptT.lift p : ExceptT ε (Program (LockReq.Ans ans)) α).run.wpInv G ok post log held ↔
      p.wpInv G ok (fun log held a => post log held (.ok a)) log held := by
  rw [ExceptT.run_lift, map_eq_pure_bind, wpInv_bind]
  exact iff_of_eq (congrArg (fun post => p.wpInv G ok post log held)
    (funext fun _ => funext fun _ => funext fun _ => propext wpInv_pure))

/-! ## A program by itself -/

/-- The environment of a program that no other task disturbs: a take succeeds if `taken`, a give
succeeds, and the accesses have the outcomes `xs`, one after another. -/
def lockHandle (access : δ → (r : ρ) → χ → δ × ans r) (taken : Bool) (xs : ℕ → χ) (s : δ × ℕ) :
    (r : LockReq ρ) → LockReq.Ans ans r × (δ × ℕ)
  | .take => (taken, s)
  | .give => (true, s)
  | .access r => ((access s.1 r (xs s.2)).2, ((access s.1 r (xs s.2)).1, s.2 + 1))

/-- A program that keeps to the protocol ends as the condition on its result says, with the invariant
when it does not hold the mutex. -/
theorem wpInv_eval {p : Program (LockReq.Ans ans) α} {post : ServedLog ans → Option δ → α → Prop}
    {taken : Bool} {xs : ℕ → χ} {s : δ × ℕ}
    (hadm : ∀ d r n, G.admits r (G.access d r (xs n)).2)
    (h : p.wpInv G ok post log held) (hs : held.elim (G.inv s.1) (· = s.1)) :
    ∃ log' held', post log' held' (p.eval (lockHandle G.access taken xs) s).1 ∧
      held'.elim (G.inv (p.eval (lockHandle G.access taken xs) s).2.1)
        (· = (p.eval (lockHandle G.access taken xs) s).2.1) := by
  induction p generalizing log held s with
  | pure a => exact ⟨log, held, h, hs⟩
  | request r next ih =>
    cases r with
    | take =>
      obtain ⟨rfl, htrue, hfalse⟩ := h
      cases taken with
      | true => exact ih true (htrue s.1 hs) rfl
      | false => exact ih false hfalse hs
    | give =>
      obtain ⟨⟨d, rfl, hd⟩, hnext⟩ := h
      obtain rfl : d = s.1 := hs
      exact ih true hnext hd
    | access r =>
      obtain ⟨d, rfl, hx⟩ := h
      obtain rfl : d = s.1 := hs
      exact ih _ (hx (xs s.2) (hadm s.1 r s.2)).2 rfl

/-! ## Critical sections -/

/-- The program makes accesses only, each of them `ok`, and leaves the resource and the result that
`post` tells for the accesses that were served. -/
def wpInside (G : Guard δ χ ans) (ok : δ → ρ → χ → Prop) :
    Program (LockReq.Ans ans) α → (ServedLog ans → δ → α → Prop) → δ → Prop
  | .pure a, post, d => post [] d a
  | .request .take _, _, _ => False
  | .request .give _, _, _ => False
  | .request (.access r) next, post, d =>
    ∀ x, G.admits r (G.access d r x).2 → ok d r x ∧ (next (G.access d r x).2).wpInside G ok
      (fun steps => post (⟨.access r, (G.access d r x).2⟩ :: steps)) (G.access d r x).1

section

variable {ok : δ → ρ → χ → Prop} {d : δ}

@[simp]
theorem wpInside_pure {a : α} {post : ServedLog ans → δ → α → Prop} :
    (Program.pure a).wpInside G ok post d ↔ post [] d a := by
  rw [wpInside]

/-- A weaker condition on the result. -/
theorem wpInside_mono {p : Program (LockReq.Ans ans) α} {post post' : ServedLog ans → δ → α → Prop}
    (h : ∀ steps d a, post steps d a → post' steps d a) (hp : p.wpInside G ok post d) :
    p.wpInside G ok post' d := by
  induction p generalizing post post' d with
  | pure a => exact h _ _ _ hp
  | request r next ih =>
    cases r with
    | take => exact hp
    | give => exact hp
    | access r => exact fun x hx => ⟨(hp x hx).1, ih _ (fun _ _ _ => h _ _ _) (hp x hx).2⟩

/-- What holds after a program for two reasons. -/
theorem wpInside_and {ok' : δ → ρ → χ → Prop} {p : Program (LockReq.Ans ans) α}
    {post post' : ServedLog ans → δ → α → Prop} (h : p.wpInside G ok post d)
    (h' : p.wpInside G ok' post' d) :
    p.wpInside G ok (fun steps d a => post steps d a ∧ post' steps d a) d := by
  induction p generalizing post post' d with
  | pure a => exact ⟨h, h'⟩
  | request r next ih =>
    cases r with
    | take => exact h
    | give => exact h
    | access r => exact fun x hx => ⟨(h x hx).1, ih _ (h x hx).2 (h' x hx).2⟩

/-- The accesses of the first program, and then those of the second. -/
theorem wpInside_bind {p : Program (LockReq.Ans ans) α} {f : α → Program (LockReq.Ans ans) β}
    {post : ServedLog ans → δ → β → Prop}
    (h : p.wpInside G ok (fun steps d a => (f a).wpInside G ok (fun steps' => post (steps ++ steps')) d)
      d) : (p >>= f).wpInside G ok post d := by
  induction p generalizing post d with
  | pure a => exact h
  | request r next ih =>
    cases r with
    | take => exact h
    | give => exact h
    | access r => exact fun x hx => ⟨(h x hx).1, ih _ (h x hx).2⟩

/-- What a program does inside a critical section is part of what its function does. -/
theorem wpInv_of_wpInside {p : Program (LockReq.Ans ans) α} {post : ServedLog ans → δ → α → Prop}
    {log : ServedLog ans} (h : p.wpInside G ok post d) :
    p.wpInv G (fun _ => ok) (fun log' held a =>
      ∃ steps d', log' = log ++ steps ∧ held = some d' ∧ post steps d' a) log (some d) := by
  induction p generalizing post d log with
  | pure a => exact ⟨[], d, by simp, rfl, h⟩
  | request r next ih =>
    cases r with
    | take => exact h.elim
    | give => exact h.elim
    | access r =>
      refine ⟨d, rfl, fun x hx => ⟨(h x hx).1, ?_⟩⟩
      refine wpInv_mono (fun log' held a => ?_) (ih _ (h x hx).2)
      rintro ⟨steps, d', rfl, rfl, hpost⟩
      exact ⟨_, d', List.append_assoc _ _ _, rfl, hpost⟩

end

/-- The program makes accesses of the set `S` only, whatever they are answered. -/
def Accesses (S : ρ → Bool) : Program (LockReq.Ans ans) α → Prop
  | .pure _ => True
  | .request .take _ => False
  | .request .give _ => False
  | .request (.access r) next => S r = true ∧ ∀ a, (next a).Accesses S

/-- Accesses of a set are accesses of a larger one. -/
theorem Accesses.mono {S T : ρ → Bool} {p : Program (LockReq.Ans ans) α}
    (hST : ∀ r, S r = true → T r = true) (hp : p.Accesses S) : p.Accesses T := by
  induction p with
  | pure a => trivial
  | request r next ih =>
    cases r with
    | take => exact hp
    | give => exact hp
    | access r => exact ⟨hST r hp.1, fun a => ih a (hp.2 a)⟩

/-- The accesses of the first program, and then those of the second. -/
theorem Accesses.bind {S : ρ → Bool} {p : Program (LockReq.Ans ans) α}
    {f : α → Program (LockReq.Ans ans) β} (hp : p.Accesses S) (hf : ∀ a, (f a).Accesses S) :
    (p >>= f).Accesses S := by
  induction p with
  | pure a => exact hf a
  | request r next ih =>
    cases r with
    | take => exact hp
    | give => exact hp
    | access r => exact ⟨hp.1, fun a => ih a (hp.2 a)⟩

/-- The accesses of the first part, and then those of the second, unless the first leaves with an
error. -/
theorem Accesses.exceptBind {S : ρ → Bool} {x : ExceptT ε (Program (LockReq.Ans ans)) α}
    {f : α → ExceptT ε (Program (LockReq.Ans ans)) β} (hx : x.run.Accesses S)
    (hf : ∀ a, (f a).run.Accesses S) : (x >>= f).run.Accesses S := by
  rw [ExceptT.run_bind]
  refine hx.bind fun res => ?_
  cases res with
  | ok a => exact hf a
  | error e => trivial

/-- What the accesses of `S` keep holds after a program that makes no others. -/
theorem Accesses.wpInside {S : ρ → Bool} {ok : δ → ρ → χ → Prop} {P : δ → Prop}
    {p : Program (LockReq.Ans ans) α} (hp : p.Accesses S)
    (hkeep : ∀ d r x, S r = true → P d → ok d r x ∧ P (G.access d r x).1) {d : δ} (hd : P d) :
    p.wpInside G ok (fun steps d _ => P d ∧ ∀ e ∈ steps, ∃ r a, e = ⟨.access r, a⟩ ∧ S r = true) d := by
  induction p generalizing d with
  | pure a => exact ⟨hd, by simp⟩
  | request r next ih =>
    cases r with
    | take => exact hp
    | give => exact hp
    | access r =>
      intro x _
      obtain ⟨hok, hd'⟩ := hkeep d r x hp.1 hd
      refine ⟨hok, wpInside_mono (fun steps d' a h => ⟨h.1, ?_⟩) (ih _ (hp.2 _) hd')⟩
      intro e he
      rcases List.mem_cons.mp he with rfl | he
      · exact ⟨r, _, rfl, hp.1⟩
      · exact h.2 e he

end Program

/-- From every state that `P` tells, with the mutex held, the part `x` of a function makes accesses
only, each of them `ok`, and leaves with the steps, the state and the result that `Q` tells. -/
def Critical (G : Guard δ χ ans) (ok : δ → ρ → χ → Prop) (P : δ → Prop)
    (x : ExceptT ε (Program (LockReq.Ans ans)) α)
    (Q : ServedLog ans → δ → Except ε α → Prop) : Prop :=
  ∀ d, P d → x.run.wpInside G ok Q d

namespace Critical

variable {G : Guard δ χ ans} {ok : δ → ρ → χ → Prop} {P : δ → Prop}
  {x : ExceptT ε (Program (LockReq.Ans ans)) α} {Q : ServedLog ans → δ → Except ε α → Prop}

/-- One access, and what the part makes of its answer. -/
theorem request {r : ρ} {f : ans r → Except ε α}
    (hx : x.run = .request (.access r) fun a => .pure (f a))
    (h : ∀ d y, P d → G.admits r (G.access d r y).2 → ok d r y ∧
      Q [⟨.access r, (G.access d r y).2⟩] (G.access d r y).1 (f (G.access d r y).2)) :
    Critical G ok P x Q := by
  intro d hd
  rw [hx]
  exact fun y hy => h d y hd hy

/-- A result, without an access. -/
theorem result {res : Except ε α} (hx : x.run = .pure res) (h : ∀ d, P d → Q [] d res) :
    Critical G ok P x Q := by
  intro d hd
  rw [hx]
  exact h d hd

/-- One part and then another, unless the first leaves with an error. -/
theorem bind {f : α → ExceptT ε (Program (LockReq.Ans ans)) β}
    {R : ServedLog ans → δ → Except ε β → Prop} (hx : Critical G ok P x Q)
    (hf : ∀ steps a, Critical G ok (fun d => Q steps d (.ok a)) (f a)
      fun steps' d res => R (steps ++ steps') d res)
    (he : ∀ steps d e, Q steps d (.error e) → R steps d (.error e)) :
    Critical G ok P (x >>= f) R := by
  intro d hd
  rw [ExceptT.run_bind]
  refine Program.wpInside_bind (Program.wpInside_mono (fun steps d₁ res hQ => ?_) (hx d hd))
  cases res with
  | error e =>
    refine Program.wpInside_pure.mpr ?_
    rw [List.append_nil]
    exact he steps d₁ e hQ
  | ok a => exact hf steps a d₁ hQ

/-- A stronger condition before, and a weaker one after. -/
theorem mono {P' : δ → Prop} {Q' : ServedLog ans → δ → Except ε α → Prop}
    (hx : Critical G ok P x Q) (hP : ∀ d, P' d → P d)
    (hQ : ∀ steps d res, Q steps d res → Q' steps d res) : Critical G ok P' x Q' :=
  fun d hd => Program.wpInside_mono hQ (hx d (hP d hd))

end Critical

end

/-! ## The pool -/

section

variable {τ κ ρ δ χ : Type} {ans : ρ → Type} {α : Type} [DecidableEq τ]
  {body : κ → Program (LockReq.Ans ans) α} {G : Guard δ χ ans} {d₀ : δ}
  {ok : κ → ServedLog ans → δ → ρ → χ → Prop} {post : κ → ServedLog ans → α → Prop} {C : κ → Prop}

/-- The program of the call `c` keeps to the protocol from `log` on, and returns without the
mutex. -/
def Guarded (G : Guard δ χ ans) (ok : κ → ServedLog ans → δ → ρ → χ → Prop)
    (post : κ → ServedLog ans → α → Prop) (c : κ) (p : Program (LockReq.Ans ans) α)
    (log : ServedLog ans) (held : Option δ) : Prop :=
  p.wpInv G (ok c) (fun log held a => held = none ∧ post c log a) log held

omit [DecidableEq τ] in
/-- A call by itself keeps the invariant, and returns as it should. -/
theorem Guarded.eval {c : κ} {p : Program (LockReq.Ans ans) α} {d : δ} {taken : Bool} {xs : ℕ → χ}
    (h : Guarded G ok post c p [] none) (hadm : ∀ d r n, G.admits r (G.access d r (xs n)).2)
    (hd : G.inv d) :
    G.inv (p.eval (Program.lockHandle G.access taken xs) (d, 0)).2.1 ∧
      ∃ log, post c log (p.eval (Program.lockHandle G.access taken xs) (d, 0)).1 := by
  obtain ⟨log, held, ⟨rfl, hpost⟩, hinv⟩ := Program.wpInv_eval (s := (d, 0)) hadm h hd
  exact ⟨hinv, log, hpost⟩

/-- Every call in progress keeps to the protocol, a task without a call does not hold the mutex, and
the invariant holds while no task holds it. -/
structure GuardInv (G : Guard δ χ ans) (ok : κ → ServedLog ans → δ → ρ → χ → Prop)
    (post : κ → ServedLog ans → α → Prop) (s : Pool τ κ δ ans α) : Prop where
  keeps : ∀ t run, s.task t = some run → Guarded G ok post run.call run.rest run.log (s.held t)
  idle : ∀ t, s.task t = none → s.owner ≠ some t
  free : s.owner = none → G.inv s.resource

/-- A call that starts is one of `C`, and the answer to an access is one that is admitted. -/
def Guard.AdmitsStep (G : Guard δ χ ans) (C : κ → Prop) (s : Pool τ κ δ ans α)
    (i : PoolInput τ κ χ) : Prop :=
  (∀ t c, i = .call t c → C c) ∧
    ∀ t x c log r next, i = .access t x → s.task t = some ⟨c, log, .request (.access r) next⟩ →
      G.admits r (G.access s.resource r x).2

/-- The invariant when one task has moved, from what it says of this task and of the others. -/
theorem GuardInv.update {s s' : Pool τ κ δ ans α} (hs : GuardInv G ok post s) {t : τ}
    {run : Option (Running κ ans α)} (htask : s'.task = Function.update s.task t run)
    (hother : ∀ u, u ≠ t → s'.held u = s.held u)
    (hkeeps : ∀ r, run = some r → Guarded G ok post r.call r.rest r.log (s'.held t))
    (hidle : run = none → s'.owner ≠ some t) (hfree : s'.owner = none → G.inv s'.resource) :
    GuardInv G ok post s' := by
  refine ⟨fun u r hr => ?_, fun u hr => ?_, hfree⟩
  · rw [htask] at hr
    by_cases hu : u = t
    · subst hu
      rw [Function.update_self] at hr
      exact hkeeps r hr
    · rw [Function.update_of_ne hu] at hr
      rw [hother u hu]
      exact hs.keeps u r hr
  · rw [htask] at hr
    by_cases hu : u = t
    · subst hu
      rw [Function.update_self] at hr
      exact hidle hr
    · rw [Function.update_of_ne hu] at hr
      have hne := hs.idle u hr
      have hheld := hother u hu
      intro howner
      simp [Pool.held, howner, hne] at hheld

/-- What the protocol says of a task that is at a request. -/
theorem GuardInv.keeps_wp {s : Pool τ κ δ ans α} (hs : GuardInv G ok post s) {t : τ} {c : κ}
    {log : ServedLog ans} {p : Program (LockReq.Ans ans) α} (h : s.task t = some ⟨c, log, p⟩) :
    p.wpInv G (ok c) (fun log held a => held = none ∧ post c log a) log (s.held t) :=
  hs.keeps t _ h

/-- A step of a pool whose functions keep to the protocol. -/
theorem guarded_step (hbody : ∀ c, C c → Guarded G ok post c (body c) [] none)
    {s s' : Pool τ κ δ ans α} {i : PoolInput τ κ χ} {o : List (PoolOut τ κ ans α)}
    (hs : GuardInv G ok post s) (hadm : G.AdmitsStep C s i)
    (hstep : (pool τ body G.access d₀).step s i = some (s', o)) :
    GuardInv G ok post s' ∧ PoolLaw G.access ok post s s' o := by
  cases pool_step_move hstep with
  | @call t c htask =>
    have hheld : s.held t = none := if_neg (hs.idle t htask)
    refine ⟨hs.update rfl (fun _ _ => rfl) ?_ (by simp) hs.free, .quiet (by simp) (by simp) rfl rfl⟩
    rintro r ⟨⟩
    change Guarded G ok post c (body c) [] (s.held t)
    rw [hheld]
    exact hbody c (hadm.1 t c rfl)
  | @taken t c log next htask hfree =>
    -- The mutex was free, so the invariant holds of the resource that the task now knows.
    refine ⟨hs.update rfl (fun u hu => ?_) ?_ (by simp) (by simp),
      .quiet (by simp) (by simp) rfl rfl⟩
    · simp [Pool.held, hfree, hu.symm]
    · rintro r ⟨⟩
      simpa [Pool.held, Guarded, Pool.proceed] using
        (hs.keeps_wp htask).2.1 s.resource (hs.free hfree)
  | @timedOut t c log next htask =>
    have hk := hs.keeps_wp htask
    refine ⟨hs.update rfl (fun _ _ => rfl) ?_ (by simp) hs.free, .quiet (by simp) (by simp) rfl rfl⟩
    rintro r ⟨⟩
    change Guarded G ok post c _ _ (s.held t)
    rw [hk.1]
    exact hk.2.2
  | @given t c log next htask howner =>
    obtain ⟨⟨d, hheld, hinv⟩, hnext⟩ := hs.keeps_wp htask
    obtain rfl : s.resource = d := by simpa [Pool.held, howner] using hheld
    refine ⟨hs.update rfl (fun u hu => ?_) ?_ (by simp) (fun _ => hinv),
      .quiet (by simp) (by simp) rfl rfl⟩
    · simp [Pool.held, howner, hu.symm]
    · rintro r ⟨⟩
      simpa [Pool.held, Guarded] using hnext
  | @notGiven t c log next htask howner =>
    obtain ⟨⟨d, hheld, -⟩, -⟩ := hs.keeps_wp htask
    exact absurd (Pool.owner_of_held (by simp [hheld])) howner
  | @accessed t c log r next x htask =>
    obtain ⟨d, hheld, hx⟩ := hs.keeps_wp htask
    have howner : s.owner = some t := Pool.owner_of_held (by simp [hheld])
    obtain rfl : s.resource = d := by simpa [Pool.held, howner] using hheld
    have hok := hx x (hadm.2 t x c log r next rfl htask)
    refine ⟨hs.update rfl (fun u hu => ?_) ?_ (by simp) ?_, ⟨?_, by simp, .inr ?_⟩⟩
    · simp [Pool.held, howner, hu.symm, Pool.proceed]
    · rintro r' ⟨⟩
      simpa [Pool.held, howner, Guarded, Pool.proceed] using hok.2
    · simp [Pool.proceed, howner]
    · intro t' c' r' a hmem
      simp only [List.mem_singleton, PoolOut.served.injEq] at hmem
      rw [howner, hmem.1]
    · exact ⟨t, c, log, r, next, x, htask, rfl, hok.1, rfl⟩
  | @returned t c log a htask =>
    obtain ⟨hheld, hpost⟩ := hs.keeps_wp htask
    have howner : s.owner ≠ some t := by
      intro h
      simp [Pool.held, h] at hheld
    refine ⟨hs.update rfl (fun _ _ => rfl) (by simp) (fun _ => howner) hs.free,
      ⟨by simp, ?_, .inl ⟨rfl, rfl⟩⟩⟩
    intro t' c' log' a' hmem
    simp only [List.mem_singleton, PoolOut.returned.injEq] at hmem
    obtain ⟨rfl, rfl, rfl, rfl⟩ := hmem
    exact ⟨hpost, howner⟩

/-- No call is in progress as the pool starts. -/
theorem guardInv_init (h0 : G.inv d₀) :
    GuardInv G ok post (pool τ body G.access d₀).init :=
  ⟨by simp [pool], by simp [pool], fun _ => h0⟩

/-- In every run of a pool whose functions keep to the protocol, with calls of `C` and answers that
are admitted, every step is as the law says, and the invariant holds whenever the mutex is free. -/
theorem guarded_law (hbody : ∀ c, C c → Guarded G ok post c (body c) [] none) (h0 : G.inv d₀)
    {inputs : List (PoolInput τ κ χ)}
    (hadm : (pool τ body G.access d₀).AllSteps inputs fun _ s i _ _ => G.AdmitsStep C s i) :
    (pool τ body G.access d₀).AllSteps inputs fun _ s _ s' o =>
      PoolLaw G.access ok post s s' o ∧ (s'.owner = none → G.inv s'.resource) :=
  hadm.mono_inv (I := fun _ s => GuardInv G ok post s) (guardInv_init h0)
    (fun _ _ _ _ _ hs hi hstep => (guarded_step hbody hs hi hstep).1)
    fun _ _ _ _ _ hs hi hstep =>
      ⟨(guarded_step hbody hs hi hstep).2, (guarded_step hbody hs hi hstep).1.free⟩

/-- The answers are admitted when those are that are seen. -/
theorem Guard.admitsStep_of_served {s s' : Pool τ κ δ ans α} {i : PoolInput τ κ χ}
    {o : List (PoolOut τ κ ans α)} (hstep : (pool τ body G.access d₀).step s i = some (s', o))
    (hcall : ∀ t c, i = .call t c → C c)
    (h : ∀ t c r a, .served t c ⟨.access r, a⟩ ∈ o → G.admits r a) :
    G.AdmitsStep C s i := by
  refine ⟨hcall, ?_⟩
  rintro t x c log r next rfl htask
  refine h t c r _ ?_
  simp only [pool, htask, Option.some.injEq, Prod.mk.injEq] at hstep
  rw [← hstep.2]
  exact List.mem_singleton_self _

omit [DecidableEq τ] in
/-- An access that is seen was as the law says. -/
theorem PoolLaw.ok_of_served {access : δ → (r : ρ) → χ → δ × ans r} {s s' : Pool τ κ δ ans α}
    {o : List (PoolOut τ κ ans α)} (h : PoolLaw access ok post s s' o) {t : τ} {c : κ} {r : ρ}
    {a : ans r} (hmem : .served t c ⟨.access r, a⟩ ∈ o) :
    ∃ log x, ok c log s.resource r x ∧ a = (access s.resource r x).2 := by
  have hacc := mem_accesses hmem
  rcases h.resource with ⟨hnil, -⟩ | ⟨t', c', log, r', next, x, -, hone, hok, -⟩
  · rw [hnil] at hacc
    cases hacc
  · rw [hone, List.mem_singleton, Prod.mk.injEq] at hacc
    obtain ⟨rfl, heq⟩ := hacc
    cases heq
    exact ⟨log, x, hok, rfl⟩

end

end PartLib
