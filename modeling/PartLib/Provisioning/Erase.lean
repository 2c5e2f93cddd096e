import PartLib.Provisioning.SelfTest
import Mathlib.Data.List.TakeWhile

/-!
# When the credentials are erased

After its wait `setup_provisioning` takes the semaphore without waiting. When this fails it erases
the flash, and restarts a little later. The handler signals a connection twice, first with the
semaphore and then with the bit of the event group that the wait is for, so a wait that the bit has
ended finds the semaphore full.

`erases_iff` says for every run whose gives succeed that the flash is erased if and only if no give
came before the take. It does not matter whether the wait ends by its timeout, even between the two
signals.
-/

namespace PartLib.Provisioning

/-- The call takes the semaphore, or tries to. -/
def SelfTestCall.isTake : SelfTestCall → Bool
  | .take _ => true
  | _ => false

/-- The calls before the semaphore is taken, or all of them if it is not. -/
def beforeTake (calls : List SelfTestCall) : List SelfTestCall := calls.takeWhile fun c => !c.isTake

/-- The handler gave the semaphore before it was taken. -/
def GivenBeforeTake (calls : List SelfTestCall) : Prop := .give (some true) ∈ beforeTake calls

instance (calls : List SelfTestCall) : Decidable (GivenBeforeTake calls) :=
  inferInstanceAs (Decidable (_ ∈ _))

/-- What holds until the semaphore is taken: it is full if it was given, the bit is set only after a
give, and nothing was erased. -/
structure UntilTake (calls : List SelfTestCall) (s : SelfTest) : Prop where
  no_take : ∀ c ∈ calls, c.isTake = false
  sem : s.wifi_sem = decide (.give (some true) ∈ calls)
  handler : s.handler ∈
    [[], [HandlerStmt.deinit], [.connect], [.give, .setBits], [.setBits]]
  signals : s.connected_bit = true ∨ s.handler = [.setBits] → .give (some true) ∈ calls
  valid : s.provisioning_valid = false
  no_erase : .eraseFlash ∉ calls
  no_restart : .restart ∉ calls

/-- What holds from then on: the provisioning is valid if the semaphore was given before, the flash
is erased if it was not, and `setup_provisioning` ends accordingly. -/
structure SinceTake (calls : List SelfTestCall) (s : SelfTest) : Prop where
  take : ∃ c ∈ calls, c.isTake = true
  valid : s.provisioning_valid = decide (GivenBeforeTake calls)
  erase : .eraseFlash ∈ calls ↔ ¬ GivenBeforeTake calls
  restart : .restart ∈ calls ↔ s.pc = .restarted
  returned : s.pc = .returned → GivenBeforeTake calls
  restarted : s.pc = .restarted → ¬ GivenBeforeTake calls

/-- What holds of a run whose gives succeed. -/
structure EraseInv (calls : List SelfTestCall) (s : SelfTest) : Prop where
  running : s.aborted = false
  until_take : ¬ s.pc.Taken → UntilTake calls s
  since_take : s.pc.Taken → SinceTake calls s

/-- Calls after a take do not come before it. -/
theorem beforeTake_append {calls : List SelfTestCall} (h : ∃ c ∈ calls, c.isTake = true)
    (more : List SelfTestCall) : beforeTake (calls ++ more) = beforeTake calls := by
  obtain ⟨c, hc, htake⟩ := h
  rw [beforeTake, List.takeWhile_append, if_neg]
  · rfl
  · intro hlen
    have hself := (List.takeWhile_prefix _).eq_of_length hlen
    have hno := List.takeWhile_eq_self_iff.mp hself c hc
    rw [htake] at hno
    cases hno

/-- A give with no take before it comes before the first take. -/
theorem givenBeforeTake_of_mem {calls : List SelfTestCall} (h : ∀ c ∈ calls, c.isTake = false)
    (hgive : .give (some true) ∈ calls) (more : List SelfTestCall) :
    GivenBeforeTake (calls ++ more) := by
  rw [GivenBeforeTake, beforeTake, List.takeWhile_append_of_pos (fun c hc => by rw [h c hc]; rfl)]
  exact List.mem_append_left _ hgive

/-- The calls before a take are those before it. -/
theorem beforeTake_take {calls : List SelfTestCall} (h : ∀ c ∈ calls, c.isTake = false) (ok : Bool)
    (more : List SelfTestCall) : beforeTake (calls ++ .take ok :: more) = calls := by
  rw [beforeTake, List.takeWhile_append_of_pos (fun c hc => by rw [h c hc]; rfl)]
  exact List.append_nil calls

variable {calls o : List SelfTestCall} {s s' : SelfTest}

/-- Calls of a step that neither takes the semaphore nor erases or restarts. -/
theorem UntilTake.step (hs : UntilTake calls s)
    (ho : ∀ c ∈ o, c.isTake = false ∧ c ≠ .eraseFlash ∧ c ≠ .restart)
    (hvalid : s'.provisioning_valid = s.provisioning_valid)
    (hsem : s'.wifi_sem = decide (.give (some true) ∈ calls ++ o))
    (hhandler : s'.handler ∈
      [[], [HandlerStmt.deinit], [.connect], [.give, .setBits], [.setBits]])
    (hsignals : s'.connected_bit = true ∨ s'.handler = [.setBits] →
      .give (some true) ∈ calls ++ o) : UntilTake (calls ++ o) s' where
  no_take c hc := (List.mem_append.mp hc).elim (hs.no_take c) fun h => (ho c h).1
  sem := hsem
  handler := hhandler
  signals := hsignals
  valid := hvalid.trans hs.valid
  no_erase h := (List.mem_append.mp h).elim hs.no_erase fun h => (ho _ h).2.1 rfl
  no_restart h := (List.mem_append.mp h).elim hs.no_restart fun h => (ho _ h).2.2 rfl

/-- Calls of a step that does not erase, and restarts if it gets there. -/
theorem SinceTake.step (hs : SinceTake calls s) (herase : .eraseFlash ∉ o)
    (hvalid : s'.provisioning_valid = s.provisioning_valid)
    (hrestart : .restart ∈ calls ++ o ↔ s'.pc = .restarted)
    (hreturned : s'.pc = .returned → s.provisioning_valid = true)
    (hrestarted : s'.pc = .restarted → s.provisioning_valid = false) :
    SinceTake (calls ++ o) s' := by
  have hbefore : GivenBeforeTake (calls ++ o) ↔ GivenBeforeTake calls := by
    rw [GivenBeforeTake, beforeTake_append hs.take]
    exact Iff.rfl
  have hvalid' := hs.valid
  refine ⟨?_, ?_, ?_, hrestart, fun h => ?_, fun h => ?_⟩
  · obtain ⟨c, hc, htake⟩ := hs.take
    exact ⟨c, List.mem_append_left o hc, htake⟩
  · rw [hvalid, hvalid', decide_eq_decide]
    exact hbefore.symm
  · rw [hbefore, ← hs.erase, List.mem_append]
    exact or_iff_left herase
  · rw [hreturned h] at hvalid'
    exact hbefore.mpr (of_decide_eq_true hvalid'.symm)
  · rw [hrestarted h] at hvalid'
    rw [hbefore]
    exact of_decide_eq_false hvalid'.symm

/-- A statement of `setup_provisioning` after the take, which does not erase. -/
theorem EraseInv.after_take (hs : EraseInv calls s) (htaken : s.pc.Taken) (hpc : s.pc ≠ .restarted)
    (hab : s'.aborted = s.aborted) (htaken' : s'.pc.Taken) (herase : .eraseFlash ∉ o)
    (hvalid : s'.provisioning_valid = s.provisioning_valid)
    (hrestart : .restart ∈ o ↔ s'.pc = .restarted)
    (hreturned : s'.pc = .returned → s.provisioning_valid = true)
    (hrestarted : s'.pc = .restarted → s.provisioning_valid = false) : EraseInv (calls ++ o) s' := by
  have ht := hs.since_take htaken
  have hno : .restart ∉ calls := fun h => hpc (ht.restart.mp h)
  refine ⟨hab.trans hs.running, fun h => (h htaken').elim, fun _ =>
    ht.step herase hvalid ?_ hreturned hrestarted⟩
  rw [List.mem_append, or_iff_right hno, hrestart]

/-- A statement of `setup_provisioning` keeps the invariant. -/
theorem EraseInv.setup (hs : EraseInv calls s) {timeout : Bool}
    (hstep : setupStep s timeout = some (s', o)) : EraseInv (calls ++ o) s' := by
  have hrun := hs.running
  unfold setupStep at hstep
  cases hpc : s.pc with
  | wait =>
    have hu := hs.until_take (by rw [hpc]; exact id)
    simp only [hpc] at hstep
    split_ifs at hstep
    cases hstep
    rw [List.append_nil]
    exact ⟨hrun, fun _ => ⟨hu.no_take, hu.sem, hu.handler, hu.signals, hu.valid, hu.no_erase,
      hu.no_restart⟩, fun h => h.elim⟩
  | take =>
    have hu := hs.until_take (by rw [hpc]; exact id)
    have hsem := hu.sem
    have hgiven : ∀ ok more, GivenBeforeTake (calls ++ .take ok :: more) ↔
        .give (some true) ∈ calls := by
      intro ok more
      rw [GivenBeforeTake, beforeTake_take hu.no_take]
    simp only [hpc] at hstep
    split_ifs at hstep with hfull <;> cases hstep
    · rw [hfull] at hsem
      have hmem := of_decide_eq_true hsem.symm
      exact ⟨hrun, fun h => (h trivial).elim, fun _ => ⟨⟨.take true, by simp, rfl⟩,
        by simp [hgiven, hmem], by simp [hgiven, hmem, hu.no_erase],
        by simp [hu.no_restart], by simp, by simp⟩⟩
    · have hsem' : s.wifi_sem = false := by simpa using hfull
      rw [hsem'] at hsem
      have hmem := of_decide_eq_false hsem.symm
      exact ⟨hrun, fun h => (h trivial).elim, fun _ => ⟨⟨.take false, by simp, rfl⟩,
        by simp [hgiven, hmem, hu.valid], by simp [hgiven, hmem],
        by simp [hu.no_restart], by simp, by simp⟩⟩
  | delay =>
    simp only [hpc] at hstep
    cases hstep
    exact hs.after_take (by rw [hpc]; trivial) (by simp [hpc]) rfl trivial (by simp) rfl (by simp)
      (by simp) (by simp)
  | unregister =>
    simp only [hpc] at hstep
    cases hstep
    exact hs.after_take (by rw [hpc]; trivial) (by simp [hpc]) rfl trivial (by simp) rfl (by simp)
      (by simp) (by simp)
  | finish =>
    simp only [hpc] at hstep
    split_ifs at hstep with hvalid <;> cases hstep
    · exact hs.after_take (by rw [hpc]; trivial) (by simp [hpc]) rfl trivial (by simp) rfl (by simp)
        (fun _ => hvalid) (by simp)
    · exact hs.after_take (by rw [hpc]; trivial) (by simp [hpc]) rfl trivial (by simp) rfl (by simp)
        (by simp) (fun _ => by simpa using hvalid)
  | returned => simp [hpc] at hstep
  | restarted => simp [hpc] at hstep

/-- A step that is not one of `setup_provisioning` keeps what holds since the take. -/
theorem EraseInv.other (hs : EraseInv calls s) (hab : s'.aborted = false) (hpc : s'.pc = s.pc)
    (hvalid : s'.provisioning_valid = s.provisioning_valid)
    (ho : ∀ c ∈ o, c.isTake = false ∧ c ≠ .eraseFlash ∧ c ≠ .restart)
    (huntil : UntilTake calls s → UntilTake (calls ++ o) s') : EraseInv (calls ++ o) s' := by
  refine ⟨hab, fun h => huntil (hs.until_take (hpc ▸ h)), fun h => ?_⟩
  have ht := hs.since_take (hpc ▸ h)
  refine ht.step (fun hmem => (ho _ hmem).2.1 rfl) hvalid ?_ (fun h => ?_) (fun h => ?_)
  · rw [List.mem_append, hpc, ← ht.restart]
    exact or_iff_left fun hmem => (ho _ hmem).2.2 rfl
  · have := ht.valid
    rwa [decide_eq_true (ht.returned (hpc ▸ h))] at this
  · have := ht.valid
    rwa [decide_eq_false (ht.restarted (hpc ▸ h))] at this

/-- A last statement of the handler that makes one call, and does not signal anything. -/
theorem EraseInv.lastCall (hs : EraseInv calls s) {c : SelfTestCall} {rest : List HandlerStmt}
    (hrest : UntilTake calls s → rest = [])
    (hc : c.isTake = false ∧ c ≠ .eraseFlash ∧ c ≠ .restart) (hgive : c ≠ .give (some true)) :
    EraseInv (calls ++ [c]) { s with handler := rest } := by
  refine hs.other hs.running rfl rfl (by simpa using hc) fun hu => ?_
  obtain rfl := hrest hu
  refine hu.step (by simpa using hc) rfl ?_ (by simp) fun h => ?_
  · simpa [Ne.symm hgive] using hu.sem
  · exact List.mem_append_left _ (hu.signals (.inl (by simpa using h)))

/-- A statement of the handler keeps the invariant, when its gives succeed. -/
theorem EraseInv.handler (hs : EraseInv calls s) {x : HandlerStmt} {rest : List HandlerStmt}
    (hhandler : s.handler = x :: rest) (hok : ∀ c ∈ (handlerStep s rest x).2, CallOk c) :
    EraseInv (calls ++ (handlerStep s rest x).2) (handlerStep s rest x).1 := by
  have hshape : UntilTake calls s → x :: rest ∈
      [[], [HandlerStmt.deinit], [.connect], [.give, .setBits], [.setBits]] := fun hu =>
    hhandler ▸ hu.handler
  cases x with
  | connect =>
    exact hs.lastCall (fun hu => by simpa using hshape hu) ⟨rfl, by simp, by simp⟩ (by simp)
  | deinit =>
    exact hs.lastCall (fun hu => by simpa using hshape hu) ⟨rfl, by simp, by simp⟩ (by simp)
  | give =>
    -- The give succeeds, so it finds the semaphore empty.
    by_cases hret : s.pc = .returned
    · simp [handlerStep, hret, CallOk] at hok
    by_cases hfull : s.wifi_sem = true
    · simp [handlerStep, hret, hfull, CallOk] at hok
    simp only [handlerStep, if_neg hret, if_neg hfull]
    refine hs.other hs.running rfl rfl (by simp [SelfTestCall.isTake]) fun hu => ?_
    obtain rfl : rest = [.setBits] := by simpa using hshape hu
    exact hu.step (by simp [SelfTestCall.isTake]) rfl (by simp) (by simp) (by simp)
  | setBits =>
    refine hs.other hs.running rfl rfl (by simp [handlerStep]) fun hu => ?_
    obtain rfl : rest = [] := by simpa using hshape hu
    have hgiven := hu.signals (.inr hhandler)
    refine hu.step (by simp [handlerStep]) rfl ?_ (by simp [handlerStep]) fun _ => ?_
    · simpa [handlerStep] using hu.sem
    · exact List.mem_append_left _ hgiven

/-- A step whose gives succeed keeps the invariant. -/
theorem EraseInv.step (hs : EraseInv calls s) {i : SelfTestInput}
    (hstep : selfTest.step s i = some (s', o)) (hok : ∀ c ∈ o, CallOk c) :
    EraseInv (calls ++ o) s' := by
  simp only [selfTest] at hstep
  split_ifs at hstep with hdead
  cases i with
  | setup timeout => exact hs.setup hstep
  | event e =>
    simp only at hstep
    split_ifs at hstep with henabled
    cases hstep
    refine hs.other hs.running rfl rfl (by simp) fun hu => ?_
    refine hu.step (by simp) rfl (by simpa using hu.sem) (by cases e <;> simp [eventHandler])
      fun h => ?_
    -- A new event has set no bit yet.
    have hbit : s.connected_bit = true := h.resolve_right (by cases e <;> simp [eventHandler])
    rw [List.append_nil]
    exact hu.signals (.inl hbit)
  | handler =>
    simp only at hstep
    split at hstep
    case h_1 => cases hstep
    case h_2 x rest hhandler =>
      obtain ⟨rfl, rfl⟩ := Prod.mk.inj (Option.some.inj hstep)
      exact hs.handler hhandler hok

/-- The invariant holds of every run whose gives succeed. -/
theorem eraseInv_run {run : List SelfTestInput}
    (h : selfTest.run selfTest.init run = some (s, o)) (hok : ∀ c ∈ o, CallOk c) :
    EraseInv o s := by
  refine Machine.run_inv (M := selfTest) (fun o s => (∀ c ∈ o, CallOk c) → EraseInv o s)
    (fun _ => ⟨rfl, fun _ => ?_, fun h => h.elim⟩) ?_ h hok
  · exact ⟨by simp, rfl, by simp [selfTest], by simp [selfTest], rfl, by simp, by simp⟩
  · intro past s i s' o hs hstep hok
    rw [List.forall_mem_append] at hok
    exact (hs hok.1).step hstep hok.2

/-- In a run whose gives succeed, the flash is erased if and only if the semaphore is taken, or tried
to, and was not given before; `setup_provisioning` then restarts, and otherwise returns. When the bit
of the event group has ended the wait, the flash is not erased. -/
theorem erases_iff {run : List SelfTestInput} {s : SelfTest} {calls : List SelfTestCall}
    (hrun : selfTest.run selfTest.init run = some (s, calls)) (hok : ∀ c ∈ calls, CallOk c) :
    (.eraseFlash ∈ calls ↔ (∃ c ∈ calls, c.isTake = true) ∧ ¬ GivenBeforeTake calls) ∧
      (s.pc = .returned ∨ s.pc = .restarted →
        (.restart ∈ calls ↔ ¬ GivenBeforeTake calls)) ∧
      ∀ h w timeout w' o, selfTest.Occurs run h w (.setup timeout) w' o → w.pc = .wait →
        w.connected_bit = true → .eraseFlash ∉ calls ∧ .restart ∉ calls := by
  have hs := eraseInv_run hrun hok
  have hbit : ∀ h w timeout w' o, selfTest.Occurs run h w (.setup timeout) w' o → w.pc = .wait →
      w.connected_bit = true → GivenBeforeTake calls := by
    intro h w timeout w' o hocc hwait hset
    obtain ⟨past, hbefore⟩ := hocc.before
    obtain ⟨rest, rfl⟩ :=
      Machine.run_isPrefix ((List.prefix_append h _).trans hocc.isPrefix) hbefore hrun
    have hw := eraseInv_run hbefore fun c hc => hok c (List.mem_append_left rest hc)
    have hu := hw.until_take (by rw [hwait]; exact id)
    exact givenBeforeTake_of_mem hu.no_take (hu.signals (.inl hset)) rest
  by_cases htaken : s.pc.Taken
  · have ht := hs.since_take htaken
    refine ⟨?_, ?_, fun h w timeout w' o hocc hwait hset => ?_⟩
    · rw [ht.erase]
      exact ⟨fun h => ⟨ht.take, h⟩, fun h => h.2⟩
    · rw [ht.restart]
      rintro (hpc | hpc)
      · exact ⟨fun h => absurd (hpc.symm.trans h) (by decide), fun h => absurd (ht.returned hpc) h⟩
      · exact ⟨fun _ => ht.restarted hpc, fun _ => hpc⟩
    · have hgiven := hbit h w timeout w' o hocc hwait hset
      exact ⟨fun h => ht.erase.mp h hgiven, fun h => ht.restarted (ht.restart.mp h) hgiven⟩
  · have hu := hs.until_take htaken
    refine ⟨⟨fun h => absurd h hu.no_erase, ?_⟩, ?_, fun _ _ _ _ _ _ _ _ =>
      ⟨hu.no_erase, hu.no_restart⟩⟩
    · rintro ⟨⟨c, hc, htake⟩, -⟩
      rw [hu.no_take c hc] at htake
      cases htake
    · rintro (hpc | hpc) <;> exact absurd (by rw [hpc]; trivial) htaken

/-- The wait ends by its timeout between the two signals of the handler: nothing is erased. -/
theorem erases_iff_timeout_between :
    (SelfTestCall.eraseFlash ∈ [.give (some true), .take true] ↔
      (∃ c ∈ [SelfTestCall.give (some true), .take true], c.isTake = true) ∧
        ¬ GivenBeforeTake [.give (some true), .take true]) :=
  (@erases_iff [.event .staGotIp, .handler, .setup true, .setup false]
    ⟨.delay, false, false, true, true, [.setBits], false⟩ _ (by decide) (by decide)).1

end PartLib.Provisioning
