import PartLib.Ota.UpdatePost

/-!
# One upload after another

The server runs `update_post_handler` for one request after another. `esp_ota_begin` opens an OTA
operation, which stays allocated until `esp_ota_end` or `esp_ota_abort` is called; the handler calls
the first of these at the end of its loop, and the second nowhere. So an upload that ends with an error
inside the loop, because a receive or a write has failed, leaves its operation open, and every other
upload that returns has released it by one call (`released_iff`).
-/

namespace PartLib.Ota

/-- The handler, while it runs; its calls for the current or the last request; and the number of OTA
operations that are open. -/
structure OtaServer where
  handler : Option UpdatePost := none
  calls : List UpdateCall := []
  openOps : ℕ := 0
  deriving DecidableEq

/-- A request comes in with its body, while the buffer of the handler holds anything; or the next call
of the handler returns. -/
inductive ServerInput
  | post (body : List UInt8) (buf : RecvBuf)
  | answer (a : UpdateAnswer)

/-- The call releases the OTA operation. -/
def UpdateCall.releases : UpdateCall → Bool
  | .otaEnd _ => true
  | _ => false

/-- The number of open OTA operations after a call. -/
def UpdateCall.openOps (n : ℕ) : UpdateCall → ℕ
  | .otaBegin e => if e = espOk then n + 1 else n
  | .otaEnd _ => n - 1
  | _ => n

/-- A receive fails for good, or a write fails. -/
def UpdateCall.BreaksOff : UpdateCall → Prop
  | .recv _ recv_len => recv_len ≠ httpdSockErrTimeout ∧ recv_len ≤ 0
  | .otaWrite _ e => e ≠ espOk
  | _ => False

instance : DecidablePred UpdateCall.BreaksOff := fun c => by
  unfold UpdateCall.BreaksOff
  split <;> infer_instance

/-- The handler has returned to the server. -/
def UpdatePc.hasReturned : UpdatePc → Bool
  | .returned _ => true
  | _ => false

/-- The server, which runs one handler at a time. -/
def otaServer : Machine OtaServer ServerInput UpdateCall where
  init := {}
  step s i :=
    match i, s.handler with
    | .post body buf, none =>
      some ({ s with handler := some (updatePostHandler body buf).init, calls := [] }, [])
    | .answer a, some u =>
      (updateStep u u.pc a).map fun r =>
        ({ handler := if r.1.pc.hasReturned then none else some r.1
           calls := s.calls ++ [r.2]
           openOps := r.2.openOps s.openOps }, [r.2])
    | _, _ => none

/-- The handler returns in the step. -/
def Returns (s s' : OtaServer) : Prop := s.handler.isSome ∧ s'.handler = none

instance (s s' : OtaServer) : Decidable (Returns s s') := inferInstanceAs (Decidable (_ ∧ _))

/-- The OTA operation that was begun has been released by one call, and none is open. -/
def Released (s : OtaServer) : Prop :=
  .otaBegin espOk ∈ s.calls → s.calls.countP UpdateCall.releases = 1 ∧ s.openOps = 0

instance (s : OtaServer) : Decidable (Released s) := inferInstanceAs (Decidable (_ → _))

/-- What the calls so far tell in the loop and at its end. -/
structure InLoop (calls : List UpdateCall) (openOps : ℕ) : Prop where
  begun : .otaBegin espOk ∈ calls
  releases : calls.countP UpdateCall.releases = 0
  openOps : openOps = 1
  unbroken : ∀ c ∈ calls, ¬ c.BreaksOff

/-- What the calls so far tell at each place of the handler, when no earlier upload has left an
operation open. -/
def UpdatePc.Accounts (calls : List UpdateCall) (openOps : ℕ) : UpdatePc → Prop
  | .begin => calls = [] ∧ openOps = 0
  | .recv | .write _ | .otaEnd => InLoop calls openOps
  | .setBoot =>
    .otaBegin espOk ∈ calls ∧ calls.countP UpdateCall.releases = 1 ∧ openOps = 0 ∧
      ∀ c ∈ calls, ¬ c.BreaksOff
  | .sendErr _ | .returned _ =>
    .otaBegin espOk ∈ calls ∧
      (calls.countP UpdateCall.releases = 1 ∧ openOps = 0 ↔ ∀ c ∈ calls, ¬ c.BreaksOff)
  | .sendStr _ | .delay | .restart | .restarted | .aborted => True

/-! ## One call -/

section

variable {calls : List UpdateCall} {n : ℕ} {u u' : UpdatePost} {a : UpdateAnswer} {c : UpdateCall}

/-- The loop goes on, or ends. -/
theorem InLoop.loopHead (h : InLoop calls n) (remaining : ℤ) :
    (loopHead remaining).Accounts calls n := by
  unfold Ota.loopHead
  split_ifs
  · exact h
  · exact h

/-- When no call so far has broken off and the next one does not, none has. -/
theorem unbroken_snoc (h : ∀ d ∈ calls, ¬ d.BreaksOff) (hc : ¬ c.BreaksOff) :
    ∀ d ∈ calls ++ [c], ¬ d.BreaksOff := by
  simpa [or_imp, forall_and] using ⟨h, hc⟩

/-- A call that neither opens nor releases an operation, and does not break off, stays in the loop. -/
theorem InLoop.snoc (h : InLoop calls n) (hrel : c.releases = false) (hopen : c.openOps n = n)
    (hc : ¬ c.BreaksOff) : InLoop (calls ++ [c]) (c.openOps n) where
  begun := List.mem_append_left _ h.begun
  releases := by simp [h.releases, hrel]
  openOps := by rw [hopen, h.openOps]
  unbroken := unbroken_snoc h.unbroken hc

/-- A call that breaks off leaves the operation open. -/
theorem InLoop.sendErr (h : InLoop calls n) (hrel : c.releases = false) (hc : c.BreaksOff)
    (msg : String) : (UpdatePc.sendErr msg).Accounts (calls ++ [c]) (c.openOps n) := by
  refine ⟨List.mem_append_left _ h.begun, ?_⟩
  simp [h.releases, hrel, hc]

/-- A call of the handler keeps what the calls tell. -/
theorem accounts_step (hs : u.pc.Accounts calls n) (h : updateStep u u.pc a = some (u', c)) :
    u'.pc.Accounts (calls ++ [c]) (c.openOps n) := by
  cases hpc : u.pc with
  | begin =>
    rw [hpc] at hs h
    obtain ⟨rfl, rfl⟩ := hs
    cases a <;> simp only [updateStep, Option.some.injEq, Prod.mk.injEq, reduceCtorEq] at h
    obtain ⟨rfl, rfl⟩ := h
    split_ifs with hok
    · subst hok
      refine InLoop.loopHead ⟨by simp, by simp [UpdateCall.releases], by simp [UpdateCall.openOps], ?_⟩ _
      simp [UpdateCall.BreaksOff]
    · trivial
  | recv =>
    rw [hpc] at hs h
    cases a <;> simp only [updateStep, reduceCtorEq] at h
    split_ifs at h with hle htimeout hfail <;> cases h
    · exact (InLoop.snoc hs rfl rfl (by simp [UpdateCall.BreaksOff, htimeout])).loopHead _
    · exact InLoop.sendErr hs rfl (show UpdateCall.BreaksOff (.recv _ _) from ⟨htimeout, hfail⟩) _
    · exact InLoop.snoc hs rfl rfl (by simp [UpdateCall.BreaksOff]; omega)
  | write recv_len =>
    rw [hpc] at hs h
    cases a <;> simp only [updateStep, Option.some.injEq, Prod.mk.injEq, reduceCtorEq] at h
    obtain ⟨rfl, rfl⟩ := h
    split_ifs with hok
    · exact (InLoop.snoc hs rfl rfl (by simp [UpdateCall.BreaksOff, hok])).loopHead _
    · exact InLoop.sendErr hs rfl (show UpdateCall.BreaksOff (.otaWrite _ _) from hok) _
  | otaEnd =>
    rw [hpc] at hs h
    cases a with
    | err e =>
      simp only [updateStep, Option.some.injEq, Prod.mk.injEq] at h
      obtain ⟨rfl, rfl⟩ := h
      obtain ⟨hbegun, hrel, rfl, hunbroken⟩ := hs
      -- The operation is released, whether or not the call returns an error.
      have hcount : (calls ++ [UpdateCall.otaEnd e]).countP UpdateCall.releases = 1 := by
        simp [hrel, UpdateCall.releases]
      have hunbroken' := unbroken_snoc hunbroken (show ¬ (UpdateCall.otaEnd e).BreaksOff from id)
      split_ifs with hok
      · exact ⟨List.mem_append_left _ hbegun, hcount, rfl, hunbroken'⟩
      · exact ⟨List.mem_append_left _ hbegun, iff_of_true ⟨hcount, rfl⟩ hunbroken'⟩
    | len | done => simp [updateStep] at h
  | setBoot =>
    rw [hpc] at hs h
    cases a with
    | err e =>
      simp only [updateStep, Option.some.injEq, Prod.mk.injEq] at h
      obtain ⟨rfl, rfl⟩ := h
      obtain ⟨hbegun, hrel, rfl, hunbroken⟩ := hs
      split_ifs with hok
      · trivial
      · have hcount : (calls ++ [UpdateCall.setBoot e]).countP UpdateCall.releases = 1 := by
          simp [hrel, UpdateCall.releases]
        have hunbroken' := unbroken_snoc hunbroken (show ¬ (UpdateCall.setBoot e).BreaksOff from id)
        exact ⟨List.mem_append_left _ hbegun, iff_of_true ⟨hcount, rfl⟩ hunbroken'⟩
    | len | done => simp [updateStep] at h
  | sendErr msg =>
    rw [hpc] at hs h
    cases a <;> simp only [updateStep, Option.some.injEq, Prod.mk.injEq, reduceCtorEq] at h
    obtain ⟨rfl, rfl⟩ := h
    refine ⟨List.mem_append_left _ hs.1, ?_⟩
    simpa [UpdateCall.releases, UpdateCall.openOps, UpdateCall.BreaksOff, or_imp, forall_and]
      using hs.2
  | sendStr | delay | restart =>
    rw [hpc] at h
    cases a <;> simp only [updateStep, Option.some.injEq, Prod.mk.injEq, reduceCtorEq] at h
    obtain ⟨rfl, rfl⟩ := h
    trivial
  | returned | restarted | aborted =>
    rw [hpc] at h
    cases a <;> simp [updateStep] at h

end

/-! ## Every run -/

/-- While the handler runs, the calls tell where it is; otherwise no operation is open. -/
def ServerInv (s : OtaServer) : Prop :=
  match s.handler with
  | none => s.openOps = 0
  | some u => u.pc.Accounts s.calls s.openOps

section

variable {s s' : OtaServer} {a : UpdateAnswer} {o : List UpdateCall}

/-- A request comes in while no handler runs. -/
theorem otaServer_post {body : List UInt8} {buf : RecvBuf}
    (h : otaServer.step s (.post body buf) = some (s', o)) :
    s.handler = none ∧
      s' = { s with handler := some (updatePostHandler body buf).init, calls := [] } := by
  cases hu : s.handler with
  | none =>
    simp only [otaServer, hu] at h
    cases h
    exact ⟨rfl, rfl⟩
  | some u => simp [otaServer, hu] at h

/-- An answer goes to the handler, whose calls tell where it is then. -/
theorem otaServer_answer (hs : ServerInv s) (h : otaServer.step s (.answer a) = some (s', o)) :
    s.handler.isSome ∧ ∃ u : UpdatePost, u.pc.Accounts s'.calls s'.openOps ∧
      s'.handler = if u.pc.hasReturned then none else some u := by
  cases hu : s.handler with
  | none => simp [otaServer, hu] at h
  | some u =>
    simp only [otaServer, hu] at h
    obtain ⟨⟨u', c⟩, hcall, heq⟩ := Option.map_eq_some_iff.mp h
    cases heq
    rw [ServerInv, hu] at hs
    exact ⟨rfl, u', accounts_step hs hcall, rfl⟩

/-- When the handler has returned, the operation is released by one call unless it broke off. -/
theorem UpdatePc.Accounts.returned {pc : UpdatePc} {calls : List UpdateCall} {n : ℕ}
    (h : pc.Accounts calls n) (hret : pc.hasReturned) :
    .otaBegin espOk ∈ calls ∧
      (calls.countP UpdateCall.releases = 1 ∧ n = 0 ↔ ∀ c ∈ calls, ¬ c.BreaksOff) := by
  cases pc with
  | returned err => exact h
  | _ => simp [hasReturned] at hret

end

/-- Whatever requests come in, one after another, and whatever the calls return: every upload that
returns to the server has released the operation that it began by exactly one call, and leaves none
open, if and only if in no upload that returns a receive has failed for good or a write has failed. -/
theorem released_iff (inputs : List ServerInput) :
    (otaServer.AllSteps inputs fun _ s _ s' _ => Returns s s' → Released s') ↔
      otaServer.AllSteps inputs fun _ s _ s' _ => Returns s s' → ∀ c ∈ s'.calls, ¬ c.BreaksOff := by
  refine Machine.allSteps_congr_of (fun _ s => ServerInv s) rfl
    (fun _ s i s' o hs hQ h => ?_) fun _ s i s' o hs h => ?_
  · cases i with
    | post body buf =>
      obtain ⟨hnone, rfl⟩ := otaServer_post h
      rw [ServerInv, hnone] at hs
      exact ⟨rfl, hs⟩
    | answer a =>
      obtain ⟨hrunning, u, hacc, hhandler⟩ := otaServer_answer hs h
      rw [ServerInv, hhandler]
      split_ifs with hret
      · -- Nothing broke off, so the operation is released.
        have hunbroken := hQ ⟨hrunning, by rw [hhandler, if_pos hret]⟩
        exact ((hacc.returned hret).2.mpr hunbroken).2
      · exact hacc
  · refine imp_congr_right fun hr => ?_
    cases i with
    | post body buf =>
      obtain ⟨hnone, -⟩ := otaServer_post h
      simp [Returns, hnone] at hr
    | answer a =>
      obtain ⟨-, u, hacc, hhandler⟩ := otaServer_answer hs h
      have hret : u.pc.hasReturned := by
        by_contra hret
        simp [Returns, hhandler, hret] at hr
      rw [Released, imp_iff_right (hacc.returned hret).1]
      exact (hacc.returned hret).2

theorem length_zeros : (List.replicate 1000 (0 : UInt8)).length = 1000 := List.length_replicate

/-- A buffer of zeros. -/
def zeroBuf : RecvBuf := ⟨List.replicate 1000 0, length_zeros⟩

/-- The image is not valid, and the same upload comes once more and is broken off by the client. -/
def twoUploads : List ServerInput :=
  [.post [7] zeroBuf, .answer (.err 0), .answer (.len 1), .answer (.err 0), .answer (.err 0x1503),
    .answer .done, .post [7] zeroBuf, .answer (.err 0), .answer (.len 0), .answer .done]

/-- The second upload leaves its operation open. -/
theorem broken_off_not_released :
    ¬ otaServer.AllSteps twoUploads fun _ s _ s' _ => Returns s s' → Released s' := by
  decide +kernel

end PartLib.Ota
