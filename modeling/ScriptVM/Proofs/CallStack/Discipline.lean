import ScriptVM.Proofs.CallStack.Traced
import ScriptVM.Proofs.Collection.Release
import ScriptVM.Proofs.Quiet
import ScriptVM.Proofs.Safety.Session
import ScriptVM.Proofs.Session.Serve

/-!
# Discipline of the call stack

Whatever a machine calls, compiled code or not, the call stack is afterwards what it was before,
however the call ends. Between the requests of a host only the global frame is active, and at no
instruction is the call stack longer than the configuration allows.
-/
namespace ScriptVM

/-- Whether a request is a call into the program. -/
def Request.isCall {α : Type} : Request α → Bool
  | .call .. | .symbol .. | .operation .. | .construct _ | .resume _ | .equals .. | .hash _
  | .truthy _ | .stringify _ | .iterator _ | .hasNext _ | .next _ | .drain _ | .unpack ..
  | .store .. => true
  | _ => false

/-- A computation that has not run out of fuel comes to an end of its own. -/
theorem Run.endsIn_of_hasEnded {α : Type} {x : Run α} {m : Machine}
    (h : hasEnded (x m) = true) : x.EndsIn m (Ending.machine (x m)) := by
  cases hx : x m with
  | ok a k => exact .ok hx
  | error stop k =>
    cases stop with
    | failed f => exact .failed hx
    | gaveUp =>
      rw [hx] at h
      cases h

open Likeness

variable {m m' : Machine} {fuel : Nat} {r : Request Value} {config : Config} {digests : Digests}

/-- A call leaves the call stack as it was, on every machine whatsoever. -/
theorem Service.callStack_of_isCall (hr : r.isCall = true)
    (hend : ((withFuel fuel digests).serve r).EndsIn m m') : m'.callStack = m.callStack := by
  have K := quiet_knot digests fuel ⟨[], none⟩ ⟨[], none⟩
  have hagree : (sparing none ⟨[], none⟩ ⟨[], none⟩).Agree m.callStack ((withFuel fuel digests).serve r)
      ((withFuel fuel digests).serve r) fun _ a => ∀ v ∈ a.values, True := by
    refine Knot.serve (K : Knot _ (withFuel fuel digests).engine (withFuel fuel digests).engine)
      (fun _ _ => trivial) ?_ ?_ ?_ ?_ ?_ <;>
      · intros
        subst r
        cases hr
  obtain ⟨_, w', -, hw, halike⟩ := hagree.endsIn ((Machine.SameButLog.refl m).alike _ _) hend
  exact halike.rest.2.1.trans hw

/-! ## Between requests -/

/-- The standpoint of a machine that only its host runs. -/
def Config.standpoint (c : Config) (root : FrameId) : Standpoint :=
  ⟨.single root, root, c.maxCallDepth⟩

/-- A machine between requests. -/
def Machine.IsIdle (config : Config) (m : Machine) : Prop :=
  standing.Alike (config.standpoint m.globals) m (m.logging [])

/-- A machine that is alike from the standpoint between requests is between requests. -/
theorem Likeness.Alike.isIdle {n : Machine} {root : FrameId}
    (h : standing.Alike (config.standpoint root) m n) : m.IsIdle config := by
  have hglobals : m.globals = root := h.rest.1.globals
  unfold Machine.IsIdle
  rw [hglobals]
  exact h.restand h.rest.1 rfl rfl nofun

/-! ### New machines -/

theorem Machine.isIdle_bare (config : Config) :
    (⟨config, .empty, (Arena.empty.alloc none none false).2, ⟨0⟩, .single ⟨0⟩, .empty, [], []⟩ :
      Machine).IsIdle config where
  heap := rfl
  types := rfl
  sound v _ := ⟨trivial, fun name member hmember => by cases hmember⟩
  fresh _ _ := trivial
  goodTypes _ _ _ := trivial
  rest := by
    have hempty : Arena.empty.CountsChildren := fun p hp => absurd hp (Nat.lt_irrefl 0)
    refine ⟨⟨rfl, rfl, rfl, ?_, ?_, hempty.alloc none none false⟩, [], rfl, nofun⟩
    · exact Nat.le_max_left 1 _
    · exact ⟨_, Arena.get?_alloc_self Arena.empty none none false, Nat.one_pos⟩

theorem Machine.IsIdle.addType (h : m.IsIdle config) (tag : TypeTag) :
    (m.addType tag).IsIdle config := by
  have halloc := Likeness.Alike.alloc h (k := .type (.builtin tag)) trivial
  have hstands := halloc.rest.1
  have htyped : ({ m with
      heap := (m.heap.alloc (.type (.builtin tag))).2
      types := m.types.insert tag.name (m.heap.alloc (.type (.builtin tag))).1 } : Machine).IsIdle
      config :=
    halloc.restand ⟨hstands.calls, hstands.globals, hstands.limit, hstands.depth, hstands.root,
      hstands.family⟩ rfl rfl nofun
  exact Alike.modifyFrame_standing htyped m.globals (fun _ => Nat.le_refl _) (fun _ => rfl)
    fun _ => Nat.le_refl _

theorem Machine.isIdle_new (config : Config) : (new config).IsIdle config :=
  new_induction config (isIdle_bare config) fun _ tag h => h.addType tag

/-! ### Requests -/

theorem Machine.reset_of_single {root : FrameId} (h : m.callStack = .single root) :
    m.reset = m.modifyFrame m.globals fun f => { f with stack := [], last := none } := by
  have hunwind : m.unwindTo 1 = m := by
    simp only [unwindTo, h, CallStack.unwindTo_single, List.foldl_nil]
    rw [← h]
  rw [Machine.reset, hunwind]

variable {n : Machine} {root : FrameId} {log : List TraceEntry}

theorem Likeness.Alike.reset_standing
    (h : standing.Alike (config.standpoint root) m (m.logging log)) :
    standing.Alike (config.standpoint root) m.reset (m.logging log).reset := by
  have hcalls := h.rest.1.calls
  rw [Machine.reset_of_single hcalls, Machine.reset_of_single (m := m.logging log) hcalls]
  exact h.modifyFrame_standing m.globals (fun _ => Nat.le_refl _) (fun _ => rfl)
    fun _ => Nat.le_refl _

theorem agree_reset_standing :
    standing.Agree (config.standpoint root) (modify Machine.reset) (modify Machine.reset)
      fun _ _ => True := by
  refine .modify fun m n h => ?_
  obtain ⟨log, rfl, -⟩ := h.logging
  exact h.reset_standing

theorem Likeness.Alike.collect_standing
    (h : standing.Alike (config.standpoint root) m (m.logging log)) :
    standing.Alike (config.standpoint root) m.collectGarbage (m.logging log).collectGarbage := by
  obtain ⟨hm, log', he, hlog⟩ := h.rest
  have hlog' : log = log' := congrArg Machine.log he
  have hsame : (m.logging log).collected = m.collected := by
    simp only [Machine.collected, Machine.holding, Machine.logging]
  have hcollected := Machine.collected_spec hm.family
  rw [Machine.collectGarbage_eq, Machine.collectGarbage_eq, hsame]
  generalize m.collected = a at hcollected
  obtain ⟨f, hf, hpos⟩ := hm.root
  obtain ⟨f', hf', hbare⟩ := hcollected.active hf hpos
  have hactive : f'.active = f.active := Frame.map_of_bare hbare Frame.active fun _ => rfl
  have hstands : ({ m with arena := a } : Machine).Stands (config.standpoint root) :=
    ⟨hm.calls, hm.globals, hm.limit, hm.depth, ⟨f', hf', hactive ▸ hpos⟩, hcollected.family⟩
  exact h.restand hstands rfl rfl (hlog' ▸ hlog)

theorem agree_collect_standing :
    standing.Agree (config.standpoint root) (modify Machine.collectGarbage)
      (modify Machine.collectGarbage) fun _ _ => True := by
  refine .modify fun m n h => ?_
  obtain ⟨log, rfl, -⟩ := h.logging
  exact h.collect_standing

theorem agree_run_standing (fuel : Nat) (id : FrameId) (code : Cursor) :
    standing.Agree (config.standpoint root) ((Engine.withFuel fuel digests).run id code)
      ((Engine.withFuel fuel digests).run id code) fun _ _ => True :=
  (standing_knot fuel).run trivial code

/-- An execution fails when the code fails in the global frame. -/
theorem Engine.run_of_execute_failed {e : Engine} {code : Cursor} {f : Failure} {m m' : Machine}
    (h : e.execute code m = .error (.failed f) m') :
    ∃ k, e.run m.globals code m = .error (.failed f) k ∧ m' = k.reset := by
  unfold Engine.execute at h
  split at h
  · cases h
  · rename_i hrun
    cases h
    exact ⟨_, hrun, rfl⟩

theorem agree_execute_standing (fuel : Nat) (code : Cursor) :
    standing.Agree (config.standpoint root) ((Engine.withFuel fuel digests).execute code)
      ((Engine.withFuel fuel digests).execute code) fun _ _ => True := by
  intro m n h
  obtain ⟨log, rfl, -⟩ := h.logging
  have hrun : standing.Matches (config.standpoint root) (fun _ _ => True)
      ((Engine.withFuel fuel digests).run m.globals code m)
      ((Engine.withFuel fuel digests).run (m.logging log).globals code (m.logging log)) :=
    agree_run_standing fuel m.globals code m (m.logging log) h
  refine Matches.executed hrun ?_
  intro w' k l hw halike
  cases hw
  obtain ⟨log', rfl, -⟩ := halike.logging
  exact ⟨_, rfl, halike.reset_standing⟩

theorem agree_global_standing (name : String) :
    standing.Agree (config.standpoint root) (Engine.global? name) (Engine.global? name)
      fun _ _ => True := by
  intro m n hmn
  obtain ⟨log, rfl, -⟩ := hmn.logging
  have hresolve : standing.Agree (config.standpoint root) (Run.resolve m.globals name)
      (Run.resolve m.globals name) fun _ _ => True := sharesFrames_standing.resolve name
  exact hresolve m _ hmn

theorem Likeness.Alike.defineGlobal_standing (h : standing.Alike (config.standpoint root) m n)
    (name : String) (v : Value) :
    standing.Alike (config.standpoint root) (m.defineGlobal name v) (n.defineGlobal name v) := by
  obtain ⟨log, rfl, -⟩ := h.logging
  exact h.modifyFrame_standing m.globals (fun _ => Nat.le_refl _) (fun _ => rfl)
    fun _ => Nat.le_refl _

/-- Every request leads from a machine between requests to one between requests. -/
theorem agree_serve_standing (fuel : Nat) (r : Request Value) :
    standing.Agree (config.standpoint root) ((Service.withFuel fuel digests).serve r)
      ((Service.withFuel fuel digests).serve r) fun _ _ => True := by
  have K : Knot standingFrames (Service.withFuel fuel digests).engine
    (Service.withFuel fuel digests).engine :=
    standing_knot fuel
  have h := K.serve (w := config.standpoint root) (r := r) (fun _ _ => trivial)
    (fun code _ => agree_execute_standing fuel code)
    (fun name _ => (agree_global_standing name).mono fun _ _ _ _ _ _ => trivial)
    (fun name v _ => .modify fun _ _ h => h.defineGlobal_standing name v)
    (fun _ => agree_reset_standing) fun _ => agree_collect_standing
  exact h.mono fun _ _ _ _ => trivial

namespace Machine

theorem IsIdle.served (h : m.IsIdle config)
    (hend : ((Service.withFuel fuel digests).serve r).EndsIn m m') :
    m'.IsIdle config := by
  obtain ⟨n', w', -, hw, halike⟩ := (agree_serve_standing fuel r).endsIn h hend
  cases hw
  exact halike.isIdle

theorem Reachable.isIdle (h : Reachable config digests m) : m.IsIdle config := by
  induction h with
  | new => exact isIdle_new config
  | served _ hend ih => exact ih.served hend

theorem IsIdle.callStack (h : m.IsIdle config) : m.callStack = .single m.globals := h.rest.1.calls

/-- The call stack is what it was after every call, on any machine; between requests it is the global
frame alone, which a failed execution leaves without operands; and it is never longer than it may be:
a machine with its log switched on does the same, and at no instruction was it too deep. -/
theorem Reachable.callStack_discipline (h : Reachable config digests m) (fuel : Nat) :
    (∀ (k k' : Machine) (r : Request Value), r.isCall = true →
      ((Service.withFuel fuel digests).serve r).EndsIn k k' → k'.callStack = k.callStack) ∧
    m.depth ≤ config.depthBound ∧
    (∀ r a m', (Service.withFuel fuel digests).serve r m = .ok a m' → ∃ log,
      (Service.withFuel fuel digests).serve r (m.logging []) = .ok a (m'.logging log) ∧
        WithinDepth config.depthBound log) ∧
    (∀ r f m', (Service.withFuel fuel digests).serve r m = .error (.failed f) m' → ∃ log,
      (Service.withFuel fuel digests).serve r (m.logging []) = .error (.failed f) (m'.logging log) ∧
        WithinDepth config.depthBound log) ∧
    (∀ code m', ((Engine.withFuel fuel digests).execute code).EndsIn m m' →
      m'.callStack = .single m'.globals) ∧
    ∀ code f m', (Engine.withFuel fuel digests).execute code m = .error (.failed f) m' →
      ∃ frame, m'.arena.get? m'.globals = some frame ∧ frame.stack = [] ∧ frame.last = none := by
  have hidle : standing.Alike (config.standpoint m.globals) m (m.logging []) := h.isIdle
  refine ⟨?_, ?_, ?_, ?_, ?_, ?_⟩
  · intro k k' r hr hend
    exact Service.callStack_of_isCall hr hend
  · rw [depth, h.isIdle.callStack]
    exact Nat.le_max_left 1 _
  · intro r a m' hend
    obtain ⟨n', w', hn, rfl, -, halike⟩ := (agree_serve_standing fuel r).ok hidle hend
    obtain ⟨log, rfl, hlog⟩ := halike.logging
    exact ⟨log, hn, hlog⟩
  · intro r f m' hend
    obtain ⟨n', w', hn, rfl, -, halike⟩ := (agree_serve_standing fuel r).failed hidle hend
    obtain ⟨log, rfl, hlog⟩ := halike.logging
    exact ⟨log, hn, hlog⟩
  · intro code m' hend
    obtain ⟨n', w', -, hw, halike⟩ := (agree_execute_standing fuel code).endsIn hidle hend
    cases hw
    exact halike.isIdle.callStack
  · intro code f m' hend
    obtain ⟨k, hk, rfl⟩ := Engine.run_of_execute_failed hend
    obtain ⟨_, w', -, hw, -, halike⟩ := (agree_run_standing fuel m.globals code).failed hidle hk
    cases hw
    obtain ⟨g, hg, -⟩ := halike.rest.1.root
    have hglobals : k.globals = m.globals := halike.rest.1.globals
    rw [reset_of_single halike.rest.1.calls, hglobals]
    change ∃ frame, (k.arena.modify m.globals _).get? k.globals = some frame ∧ _
    rw [hglobals, Arena.get?_modify_self]
    exact ⟨_, congrArg _ hg, rfl, rfl⟩

/-- A machine that may not call anything, after code that no program compiles to has failed on it. -/
theorem Reachable.callStack_discipline_redo :
    let config : Config := ⟨0, false, 256⟩
    ∃ m, Reachable config .standard m ∧ m.depth ≤ 1 ∧
      ∀ code f m', (Engine.withFuel 3 .standard).execute code m = .error (.failed f) m' →
        ∃ frame, m'.arena.get? m'.globals = some frame ∧ frame.stack = [] ∧ frame.last = none := by
  intro config
  let code : Cursor :=
    .ofList [Op.getTrue.at ⟨some 1⟩, Op.push.at ⟨some 1⟩, Op.redoMark.at ⟨some 2⟩]
  have hended :
    hasEnded ((Service.withFuel 3 .standard).serve (.execute code) (.new config)) = true := by
    decide +kernel
  have hm : Reachable config .standard _ := .served .new (Run.endsIn_of_hasEnded hended)
  obtain ⟨-, hdepth, -, -, -, hfailed⟩ := hm.callStack_discipline 3
  exact ⟨_, hm, hdepth, hfailed⟩

end Machine
end ScriptVM
