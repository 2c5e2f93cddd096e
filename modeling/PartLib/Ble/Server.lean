import PartLib.Ble.LinkTask

/-!
# The server as a whole

The event handler runs in a task of the Bluetooth stack, and `link_task` in its own; they share the
statics. `sppServer` is the two together, a statement of `link_task` at a time, so that an event may
arrive between any two statements. In `sppServerPasses` events arrive only between two passes of the
loop of `link_task`: its runs are the runs of `sppServer` in which the statements of a pass come one
after another (`sppServerPasses_run`).
-/

namespace PartLib.Ble

/-- The statics, and the task that sends the uplink. -/
structure Server where
  spp : SppServer
  link : LinkTask

/-- The server set up, with the task just created. -/
def Server.init : Server := ⟨.init, .init⟩

/-- An event of the stack, or a move of the task, with what it gets from outside. -/
inductive ServerInput
  | gatt (e : GattsEvent)
  | link (ans : LinkAns)

/-- The calls of the server: of the handler, or of the task. -/
abbrev ServerOut := SppCall ⊕ LinkAct

/-- The values that a step sends. -/
def sent (o : List ServerOut) : List (List UInt8) := notifications (o.filterMap Sum.getRight?)

/-- The event handler as a step of the server. -/
def Server.gatt (s : Server) (e : GattsEvent) : Option (Server × List ServerOut) :=
  (gattsProfileEventHandler s.spp e).map fun r => ({ s with spp := r.1 }, r.2.map .inl)

/-- The server, where a move of the task is one statement. -/
def sppServer : Machine Server ServerInput ServerOut where
  init := .init
  step s i :=
    match i with
    | .gatt e => s.gatt e
    | .link ans => (linkStep s.spp ans s.link).map fun r => ({ s with link := r.1 }, r.2.map .inr)

/-- The server, where a move of the task is one pass of its loop. -/
def sppServerPasses : Machine Server ServerInput ServerOut where
  init := .init
  step s i :=
    match i with
    | .gatt e => s.gatt e
    | .link ans =>
      (linkIteration s.spp ans s.link).map fun r => ({ s with link := r.1 }, r.2.map .inr)

/-- The calls of the task are what the values sent are taken from. -/
theorem sent_map_inr (acts : List LinkAct) : sent (acts.map .inr) = notifications acts := by
  rw [sent, List.filterMap_map]
  exact congrArg notifications List.filterMap_some

/-- The calls of the handler send nothing. -/
theorem sent_map_inl (calls : List SppCall) : sent (calls.map .inl) = [] := by
  have hnil : calls.filterMap (Sum.getRight? ∘ (Sum.inl : SppCall → ServerOut)) = [] :=
    List.filterMap_eq_nil_iff.mpr fun _ _ => rfl
  rw [sent, List.filterMap_map, hnil]
  rfl

/-- The values sent are those of the first calls and then those of the others. -/
theorem sent_append (o₁ o₂ : List ServerOut) : sent (o₁ ++ o₂) = sent o₁ ++ sent o₂ := by
  simp only [sent, notifications, List.filterMap_append]

/-! ## Passes are runs of statements -/

/-- The statements of a pass, one after another, are moves of the task. -/
theorem linkRun_sppServer {spp : SppServer} {ans : LinkAns} {fuel : ℕ} :
    ∀ {t t' : LinkTask} {acts : List LinkAct}, linkRun spp ans fuel t = some (t', acts) →
      ∃ k, sppServer.run ⟨spp, t⟩ (List.replicate k (.link ans)) =
        some (⟨spp, t'⟩, acts.map .inr) := by
  induction fuel with
  | zero =>
    intro t t' acts h
    cases h
  | succ fuel ih =>
    intro t t' acts h
    obtain ⟨⟨t₁, acts₁⟩, hstep, h⟩ := Option.bind_eq_some_iff.mp h
    have hmove : sppServer.step ⟨spp, t⟩ (.link ans) = some (⟨spp, t₁⟩, acts₁.map .inr) := by
      simp only [sppServer, hstep]
      rfl
    split_ifs at h
    · -- The pass ends with this statement.
      cases h
      exact ⟨1, by simp [Machine.run_cons, hmove]⟩
    · obtain ⟨⟨t₂, acts₂⟩, hrun, he⟩ := Option.map_eq_some_iff.mp h
      simp only [Prod.mk.injEq] at he
      obtain ⟨rfl, rfl⟩ := he
      obtain ⟨k, hk⟩ := ih hrun
      refine ⟨k + 1, ?_⟩
      rw [List.replicate_succ, Machine.run_cons, hmove, Option.bind_some, hk]
      simp

/-- What an input of the server in passes is in statements: an event is itself, and a pass a number
of statements. -/
def Statements : ServerInput → List ServerInput → Prop
  | .gatt e, js => js = [.gatt e]
  | .link ans, js => ∃ k, js = List.replicate k (.link ans)

/-- A run in passes is a run in statements. -/
theorem sppServerPasses_run {inputs : List ServerInput} {s : Server} {o : List ServerOut}
    (h : sppServerPasses.run .init inputs = some (s, o)) :
    ∃ blocks, List.Forall₂ Statements inputs blocks ∧
      sppServer.run .init blocks.flatten = some (s, o) := by
  refine Machine.run_blocks (fun s i s' o hstep => ?_) h
  cases i with
  | gatt e =>
    have hevent : sppServer.step s (.gatt e) = some (s', o) := hstep
    exact ⟨[.gatt e], rfl, by simp [Machine.run_cons, hevent]⟩
  | link ans =>
    obtain ⟨⟨t, acts⟩, hrun, he⟩ := Option.map_eq_some_iff.mp hstep
    simp only [Prod.mk.injEq] at he
    obtain ⟨rfl, rfl⟩ := he
    obtain ⟨k, hk⟩ := linkRun_sppServer hrun
    exact ⟨_, ⟨k, rfl⟩, hk⟩

end PartLib.Ble
