import PartLib.Lib.LockedPool
import Mathlib.Data.List.Perm.Basic
import Mathlib.Data.List.Count

/-!
# What the calls of a pool rely on, and what they leave

Between two critical sections of a call other tasks change the resource. `pool_rely` is the rule for
what a call relies on meanwhile: it holds as long as the accesses of the other tasks keep it. And
`pool_marks` counts the requests of a kind that each call makes once, when it succeeds: when no call
is in progress, these requests are those of the calls that have succeeded, in some order.
-/

namespace PartLib

section

variable {τ κ ρ δ χ : Type} {ans : ρ → Type} {α : Type} [DecidableEq τ]
  {body : κ → Program (LockReq.Ans ans) α} {access : δ → (r : ρ) → χ → δ × ans r} {d₀ : δ}
  {ok : κ → ServedLog ans → δ → ρ → χ → Prop} {post : κ → ServedLog ans → α → Prop}

/-- A call served `log` relies on `rely c log` of the resource. -/
def Pool.Relies (rely : κ → ServedLog ans → δ → Prop) (s : Pool τ κ δ ans α) : Prop :=
  ∀ t run, s.task t = some run → rely run.call run.log s.resource

/-- The other calls still rely on the resource, and so does the one that has moved. -/
theorem Pool.Relies.update {rely : κ → ServedLog ans → δ → Prop} {s s' : Pool τ κ δ ans α} {t : τ}
    {run : Option (Running κ ans α)} (htask : s'.task = Function.update s.task t run)
    (hrun : ∀ r, run = some r → rely r.call r.log s'.resource)
    (hother : ∀ u r, u ≠ t → s.task u = some r → rely r.call r.log s'.resource) :
    s'.Relies rely := by
  intro u r hr
  rw [htask] at hr
  by_cases hu : u = t
  · subst hu
    rw [Function.update_self] at hr
    exact hrun r hr
  · rw [Function.update_of_ne hu] at hr
    exact hother u r hu hr

/-- Every call relies on the resource as long as it does so as it starts, its own requests keep what
it relies on, and so do the accesses of the others. -/
theorem pool_rely {rely : κ → ServedLog ans → δ → Prop} (hnil : ∀ c d, rely c [] d)
    (hlock : ∀ c log d ok, rely c log d →
      rely c (log ++ [⟨.take, ok⟩]) d ∧ rely c (log ++ [⟨.give, ok⟩]) d)
    (hown : ∀ c log d r x, ok c log d r x → rely c log d →
      rely c (log ++ [⟨.access r, (access d r x).2⟩]) (access d r x).1)
    {s s' : Pool τ κ δ ans α} {i : PoolInput τ κ χ} {o : List (PoolOut τ κ ans α)}
    (hother : ∀ t x c log r next u run, i = .access t x →
      s.task t = some ⟨c, log, .request (.access r) next⟩ → ok c log s.resource r x →
      rely c log s.resource → u ≠ t → s.task u = some run →
      rely run.call run.log s.resource → rely run.call run.log (access s.resource r x).1)
    (hs : PoolInv access ok post s) (hrely : s.Relies rely)
    (hstep : (pool τ body access d₀).step s i = some (s', o)) : s'.Relies rely := by
  cases pool_step_move hstep with
  | @call t c htask =>
    refine .update rfl ?_ fun u r _ hr => hrely u r hr
    rintro r ⟨⟩
    exact hnil c s.resource
  | @taken t c log next htask hfree =>
    refine .update rfl ?_ fun u r _ hr => hrely u r hr
    rintro r ⟨⟩
    exact (hlock c log s.resource true (hrely t _ htask)).1
  | @timedOut t c log next htask =>
    refine .update rfl ?_ fun u r _ hr => hrely u r hr
    rintro r ⟨⟩
    exact (hlock c log s.resource false (hrely t _ htask)).1
  | @given t c log next htask howner =>
    refine .update rfl ?_ fun u r _ hr => hrely u r hr
    rintro r ⟨⟩
    exact (hlock c log s.resource true (hrely t _ htask)).2
  | @notGiven t c log next htask howner =>
    refine .update rfl ?_ fun u r _ hr => hrely u r hr
    rintro r ⟨⟩
    exact (hlock c log s.resource false (hrely t _ htask)).2
  | @accessed t c log r next x htask =>
    obtain ⟨d, hheld, hx⟩ := hs.keeps_wp htask
    have howner : s.owner = some t := Pool.owner_of_held (by simp [hheld])
    obtain rfl : s.resource = d := by simpa [Pool.held, howner] using hheld
    refine .update rfl ?_ fun u run hu hrun => ?_
    · rintro r' ⟨⟩
      exact hown c log s.resource r x (hx x).1 (hrely t _ htask)
    · exact hother t x c log r next u run rfl htask (hx x).1 (hrely t _ htask) hu hrun
        (hrely u run hrun)
  | @returned t c log a htask =>
    refine .update rfl ?_ fun u r _ hr => hrely u r hr
    rintro r ⟨⟩

/-! ## Requests that every successful call makes once -/

/-- The requests among the outputs that `mark` tells, with the tasks and the calls that made them. -/
def marked (mark : Served (LockReq.Ans ans) → Bool) (os : List (PoolOut τ κ ans α)) :
    List (τ × κ) :=
  os.filterMap fun o =>
    match o with
    | .served t c e => if mark e then some (t, c) else none
    | .returned _ _ _ _ => none

/-- The calls that returned a result that `success` tells, with their tasks. -/
def succeeded (success : α → Bool) (os : List (PoolOut τ κ ans α)) : List (τ × κ) :=
  os.filterMap fun o =>
    match o with
    | .served _ _ _ => none
    | .returned t c _ a => if success a then some (t, c) else none

/-- The marked requests that the call `c` of a task has made, while it is in progress. -/
def Running.marks [DecidableEq κ] (mark : Served (LockReq.Ans ans) → Bool) (c : κ) :
    Option (Running κ ans α) → ℕ
  | some run => if run.call = c then run.log.countP mark else 0
  | none => 0

section

omit [DecidableEq τ]

theorem marked_append (mark : Served (LockReq.Ans ans) → Bool) (os₁ os₂ : List (PoolOut τ κ ans α)) :
    marked mark (os₁ ++ os₂) = marked mark os₁ ++ marked mark os₂ := List.filterMap_append

theorem succeeded_append (success : α → Bool) (os₁ os₂ : List (PoolOut τ κ ans α)) :
    succeeded success (os₁ ++ os₂) = succeeded success os₁ ++ succeeded success os₂ :=
  List.filterMap_append

end

variable [DecidableEq κ]

/-- Each marked request was made by a call that has succeeded, or by one that is in progress. -/
theorem pool_marks {mark : Served (LockReq.Ans ans) → Bool} {success : α → Bool}
    (hbody : ∀ c, Keeps access ok post c (body c) [] none)
    (hpost : ∀ c log a, post c log a → log.countP mark = (success a).toNat)
    {inputs : List (PoolInput τ κ χ)} {s : Pool τ κ δ ans α} {os : List (PoolOut τ κ ans α)}
    (hrun : (pool τ body access d₀).run (pool τ body access d₀).init inputs = some (s, os))
    (t : τ) (c : κ) :
    (marked mark os).count (t, c) =
      (succeeded success os).count (t, c) + Running.marks mark c (s.task t) := by
  refine (Machine.run_inv (fun os s => PoolInv access ok post s ∧
    (marked mark os).count (t, c) =
      (succeeded success os).count (t, c) + Running.marks mark c (s.task t))
    ⟨poolInv_init, rfl⟩ (fun past s i s' o hs hstep => ?_) hrun).2
  refine ⟨(pool_step hbody hs.1 hstep).1, ?_⟩
  obtain ⟨hinv, hcount⟩ := hs
  -- A request of a call in progress counts for it alone.
  have hserved : ∀ (u : τ) (c' : κ) (log : ServedLog ans) (p p' : Program (LockReq.Ans ans) α)
      (e : Served (LockReq.Ans ans)), s.task u = some ⟨c', log, p⟩ →
      (marked mark (past ++ [.served u c' e])).count (t, c) =
        (succeeded success (past ++ [.served u c' e])).count (t, c) +
          Running.marks mark c
            (Function.update s.task u (some ⟨c', log ++ [e], p'⟩) t) := by
    intro u c' log p p' e htask
    rw [marked_append, succeeded_append, List.count_append, List.count_append, hcount]
    by_cases hu : u = t
    · subst hu
      rw [Function.update_self, htask]
      by_cases hc : c' = c <;> by_cases he : mark e <;>
        simp [Running.marks, marked, succeeded, hc, he, Nat.add_assoc]
    · rw [Function.update_of_ne (Ne.symm hu)]
      by_cases he : mark e <;> simp [marked, succeeded, hu, he]
  cases pool_step_move hstep with
  | @call u c' htask =>
    dsimp only
    rw [List.append_nil, hcount]
    by_cases hu : u = t
    · subst hu
      rw [Function.update_self, htask]
      simp [Running.marks]
    · rw [Function.update_of_ne (Ne.symm hu)]
  | taken htask _ => exact hserved _ _ _ _ _ _ htask
  | timedOut htask => exact hserved _ _ _ _ _ _ htask
  | given htask _ => exact hserved _ _ _ _ _ _ htask
  | notGiven htask _ => exact hserved _ _ _ _ _ _ htask
  | accessed x htask => exact hserved _ _ _ _ _ _ htask
  | @returned u c' log a htask =>
    -- The call made as many marked requests as its result says.
    have hlog := hpost c' log a (hinv.keeps_wp htask).2
    dsimp only
    rw [marked_append, succeeded_append, List.count_append, List.count_append, hcount]
    by_cases hu : u = t
    · subst hu
      rw [Function.update_self, htask]
      by_cases hc : c' = c <;> by_cases ha : success a <;>
        simp [Running.marks, marked, succeeded, hc, ha, hlog]
    · rw [Function.update_of_ne (Ne.symm hu)]
      by_cases ha : success a <;> simp [marked, succeeded, hu, ha]

/-- When no call is in progress, the marked requests are those of the calls that have succeeded, in
some order. -/
theorem pool_marks_perm {mark : Served (LockReq.Ans ans) → Bool} {success : α → Bool}
    (hbody : ∀ c, Keeps access ok post c (body c) [] none)
    (hpost : ∀ c log a, post c log a → log.countP mark = (success a).toNat)
    {inputs : List (PoolInput τ κ χ)} {s : Pool τ κ δ ans α} {os : List (PoolOut τ κ ans α)}
    (hrun : (pool τ body access d₀).run (pool τ body access d₀).init inputs = some (s, os))
    (hidle : ∀ t, s.task t = none) : (marked mark os).Perm (succeeded success os) := by
  rw [List.perm_iff_count]
  rintro ⟨t, c⟩
  rw [pool_marks hbody hpost hrun t c, hidle t]
  rfl

end

end PartLib
