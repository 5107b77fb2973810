import ScriptVM.Proofs.Frame.Effect
import ScriptVM.Proofs.Frame.Family
import ScriptVM.Proofs.Likeness.Shared
import ScriptVM.Proofs.Likeness.Steady

/-!
# Machines and how deep they are

A machine is compared with the same machine with its log switched on, so that the log tells how deep
the call stack was at every instruction. From whatever standpoint a computation starts, it comes back
to the same call stack, it never goes deeper than the configuration allows, and the global frame stays
active. Nothing is asked of the code that runs.
-/
namespace ScriptVM

/-- The same machine with its log switched on. -/
def Machine.logging (m : Machine) (log : List TraceEntry) : Machine :=
  { m with config := { m.config with trace := true }, log := log }

/-- How deep a call stack may get. The global frame is always there. -/
def Config.depthBound (c : Config) : Nat := max 1 c.maxCallDepth

/-- A call stack, the global frame, and how deep the call stack may get. -/
structure Standpoint where
  calls : CallStack
  root : FrameId
  limit : Nat

/-- The standpoint of a body that is entered. -/
def Standpoint.push (w : Standpoint) (id : FrameId) : Standpoint :=
  { w with calls := w.calls.push id }

/-- A machine as it is from a standpoint. -/
structure Machine.Stands (w : Standpoint) (m : Machine) : Prop where
  calls : m.callStack = w.calls
  globals : m.globals = w.root
  limit : m.config.maxCallDepth = w.limit
  depth : w.calls.depth ≤ max 1 w.limit
  root : ∃ f, m.arena.get? w.root = some f ∧ 0 < f.active
  family : m.arena.CountsChildren

/-- No entry of a log was made too deep. -/
def WithinDepth (bound : Nat) (log : List TraceEntry) : Prop := ∀ entry ∈ log, entry.depth ≤ bound

namespace Machine.Stands

variable {w : Standpoint} {m : Machine}

theorem setHeap (h : m.Stands w) (heap : Heap) : ({ m with heap := heap } : Machine).Stands w :=
  ⟨h.calls, h.globals, h.limit, h.depth, h.root, h.family⟩

/-- Changes of a frame that concern neither its activations nor its family. -/
theorem modifyFrame (h : m.Stands w) (id : FrameId) {change : Frame → Frame}
    (hactive : ∀ f, f.active ≤ (change f).active) (hparent : ∀ f, (change f).parent = f.parent)
    (hchildren : ∀ f, f.children ≤ (change f).children) : (m.modifyFrame id change).Stands w where
  calls := h.calls
  globals := h.globals
  limit := h.limit
  depth := h.depth
  root := by
    obtain ⟨f, hf, hpos⟩ := h.root
    change ∃ f, (m.arena.modify id change).get? w.root = some f ∧ 0 < f.active
    rw [Arena.get?_modify]
    split
    · rename_i hid
      exact ⟨change f, by rw [← hid, hf]; rfl, Nat.lt_of_lt_of_le hpos (hactive f)⟩
    · exact ⟨f, hf, hpos⟩
  family := h.family.modify id hparent hchildren

theorem newFrame (h : m.Stands w) (parent : Option FrameId) (object : Option Value)
    (bindsObject : Bool) :
    ({ m with arena := (m.arena.alloc parent object bindsObject).2 } : Machine).Stands w where
  calls := h.calls
  globals := h.globals
  limit := h.limit
  depth := h.depth
  root := by
    obtain ⟨f, hf, hpos⟩ := h.root
    exact ⟨_, Arena.get?_alloc_of_get? hf parent object bindsObject, hpos⟩
  family := h.family.alloc parent object bindsObject

/-- Another frame's activation ends. -/
theorem endActivation {id : FrameId} (h : m.Stands w) (hid : id ≠ w.root) :
    ({ m with arena := m.arena.endActivation id } : Machine).Stands w where
  calls := h.calls
  globals := h.globals
  limit := h.limit
  depth := h.depth
  root := by
    obtain ⟨f, hf, hpos⟩ := h.root
    have hmodify : (m.arena.modify id Frame.deactivate).get? w.root = some f := by
      rw [Arena.get?_modify_of_ne _ _ hid.symm, hf]
    obtain ⟨n, hn⟩ := Arena.get?_settle id hmodify (Nat.add_pos_left hpos _)
    exact ⟨_, hn, hpos⟩
  family := (h.family.modify id Frame.parent_deactivate
    fun f => Nat.le_of_eq f.children_deactivate.symm).settle_go _ id

theorem setCalls {calls : CallStack} (h : m.Stands w) (hdepth : calls.depth ≤ max 1 w.limit) :
    ({ m with callStack := calls } : Machine).Stands { w with calls := calls } :=
  ⟨rfl, h.globals, h.limit, hdepth, h.root, h.family⟩

end Machine.Stands

namespace Likeness

/-- Machines from a standpoint, each compared with itself with the log switched on. Tables count
their entries. -/
def standing : Likeness where
  World := Standpoint
  le w w' := w' = w
  refl _ := rfl
  trans h h' := h'.trans h
  good _ := True
  function _ _ := True
  classDef _ _ := True
  generator w g := g.frame ≠ some w.root
  function_mono _ h := h
  classDef_mono _ h := h
  generator_mono := by
    rintro w w' g rfl h
    exact h
  generator_exhaust h := h
  generator_buffer _ h := h
  table t := t.size = t.entries.length
  table_empty := rfl
  table_put hash position key value h := Table.size_put h hash position key value
  admits _ := True
  admits_ordinary _ := trivial
  rest w m n := m.Stands w ∧ ∃ log, n = m.logging log ∧ WithinDepth (max 1 w.limit) log
  rest_heap := by
    rintro w m n h - ⟨hm, log, rfl, hlog⟩
    exact ⟨hm.setHeap h, log, rfl, hlog⟩

section standing

variable {α : Type} {w : Standpoint} {m n : Machine} {log : List TraceEntry} {id : FrameId}
  {p : Standpoint → α → Prop}

/-- Other machines with the same objects. -/
theorem Alike.restand {w' : Standpoint} {m' : Machine} {log' : List TraceEntry}
    (h : standing.Alike w m n) (hm' : m'.Stands w') (hheap : m'.heap = m.heap)
    (hroot : w'.root = w.root) (hlog' : WithinDepth (max 1 w'.limit) log') :
    standing.Alike w' m' (m'.logging log') where
  heap := rfl
  types := rfl
  sound v hv := by
    have hsound := h.sound v hv
    rw [hheap]
    refine hsound.imp (fun _ _ => trivial) (fun _ _ => trivial) fun g hg hframe => ?_
    exact hg (hroot ▸ hframe)
  fresh _ _ := trivial
  goodTypes _ _ _ := trivial
  rest := ⟨hm', log', rfl, hlog'⟩

/-- A machine that is alike goes together with itself, the log switched on. -/
theorem Alike.logging (h : standing.Alike w m n) :
    ∃ log, n = m.logging log ∧ WithinDepth (max 1 w.limit) log := h.rest.2

/-! ## Computations on frames -/

theorem sharesFrames_standing : standing.SharesFrames where
  arena h := by
    obtain ⟨log, rfl, -⟩ := h.logging
    rfl
  good _ := trivial
  admits _ := trivial

/-- Changes of a frame that concern neither its activations nor its family. -/
theorem Alike.modifyFrame_standing (h : standing.Alike w m (m.logging log)) (id : FrameId)
    {change : Frame → Frame} (hactive : ∀ f, f.active ≤ (change f).active)
    (hparent : ∀ f, (change f).parent = f.parent)
    (hchildren : ∀ f, f.children ≤ (change f).children) :
    standing.Alike w (m.modifyFrame id change) ((m.logging log).modifyFrame id change) := by
  obtain ⟨hm, log', he, hlog⟩ := h.rest
  have hlog' : log = log' := congrArg Machine.log he
  exact h.restand (hm.modifyFrame id hactive hparent hchildren) rfl rfl (hlog' ▸ hlog)

theorem allows_standing {change : Frame → Frame} (hactive : ∀ f, f.active ≤ (change f).active)
    (hparent : ∀ f, (change f).parent = f.parent)
    (hchildren : ∀ f, f.children ≤ (change f).children) : standing.Allows w id change := by
  intro m n h
  obtain ⟨log, rfl, -⟩ := h.logging
  exact h.modifyFrame_standing id hactive hparent hchildren

/-- Other operands are no matter. -/
theorem allows_stack_standing (stack : List Value) :
    standing.Allows w id fun f => { f with stack := stack } :=
  allows_standing (fun _ => Nat.le_refl _) (fun _ => rfl) fun _ => Nat.le_refl _

/-- Neither are other variables. -/
theorem allows_define_standing (name : String) (v : Value) :
    standing.Allows w id fun f => f.define name v :=
  allows_standing (fun _ => Nat.le_refl _) (fun _ => rfl) fun _ => Nat.le_refl _

theorem agree_pushAll_standing (id : FrameId) (vs : List Value) :
    standing.Agree w (Run.pushAll id vs) (Run.pushAll id vs) fun _ _ => True :=
  sharesFrames_standing.modifyFrame
    (allows_standing (fun _ => Nat.le_refl _) (fun _ => rfl) fun _ => Nat.le_refl _)

theorem agree_retain_standing (id : FrameId) :
    standing.Agree w (Run.retain id) (Run.retain id) fun _ r => r = id :=
  sharesFrames_standing.retain
    (allows_standing (fun _ => Nat.le_refl _) (fun _ => rfl) fun _ => Nat.le_refl _)

theorem agree_activate_standing (id : FrameId) :
    standing.Agree w (Run.activate id) (Run.activate id) fun _ _ => True :=
  sharesFrames_standing.modifyFrame
    (allows_standing (fun _ => Nat.le_succ _) (fun _ => rfl) fun _ => Nat.le_refl _)

/-- A new frame is not the global one. -/
theorem agree_newFrame_standing (parent : Option FrameId) (object : Option Value)
    (bindsObject : Bool) :
    standing.Agree w (Run.newFrame parent object bindsObject)
      (Run.newFrame parent object bindsObject) fun w' id => id ≠ w'.root := by
  intro m n h
  obtain ⟨hm, log, rfl, hlog⟩ := h.rest
  obtain ⟨f, hf, -⟩ := hm.root
  simp only [Run.newFrame, Run.modifyGet_apply, Arena.alloc_fst]
  refine ⟨rfl, w, rfl, fun e => ?_, h.restand (hm.newFrame parent object bindsObject) rfl rfl hlog⟩
  exact Nat.lt_irrefl _ (congrArg FrameId.serial e ▸ Arena.serial_lt_of_get? hf)

/-- What is logged is the depth of the call stack. -/
theorem agree_trace_standing (position : Nat) (i : Instruction) :
    standing.Agree w (Run.trace position i) (Run.trace position i) fun _ _ => True := by
  intro m n h
  obtain ⟨hm, log, rfl, hlog⟩ := h.rest
  have hdepth : m.depth ≤ max 1 w.limit := by
    rw [Machine.depth, hm.calls]
    exact hm.depth
  have hlog' : WithinDepth (max 1 w.limit) (⟨m.depth, position, i⟩ :: log) := by
    intro entry hentry
    rcases List.mem_cons.1 hentry with rfl | hentry
    · exact hdepth
    · exact hlog entry hentry
  refine ⟨rfl, w, rfl, trivial, ?_⟩
  dsimp only
  split
  · have hm' : Machine.Stands w { m with log := ⟨m.depth, position, i⟩ :: m.log } :=
      ⟨hm.calls, hm.globals, hm.limit, hm.depth, hm.root, hm.family⟩
    exact h.restand hm' rfl rfl hlog'
  · exact h.restand hm rfl rfl hlog'

/-- Nothing is asked of the frames that run or are closed over. -/
def standingFrames : Frames standing where
  runs _ _ := True
  scope _ _ := True
  runs_mono _ h := h
  scope_of_function _ := trivial
  function_of_scope _ := trivial
  scope_of_classDef _ := trivial
  classDef_of_scope _ := trivial
  generator_of_scope _ hframe := by
    change Generator.frame _ ≠ some _
    rw [hframe]
    exact nofun
  generator_suspend _ h := h
  admits_frame _ := trivial
  define name v _ _ := sharesFrames_standing.modifyFrame (allows_define_standing name v)
  push _ _ := agree_pushAll_standing _ [_]
  pop _ := (sharesFrames_standing.pop allows_stack_standing).mono fun _ _ _ _ => trivial
  popMany count _ := (sharesFrames_standing.popMany allows_stack_standing count).mono
    fun _ _ _ _ _ _ => trivial
  top _ := sharesFrames_standing.top.mono fun _ _ _ _ => trivial
  last _ := sharesFrames_standing.last.mono fun _ _ _ _ _ _ => trivial
  setLast _ _ := sharesFrames_standing.modifyFrame
    (allows_standing (fun _ => Nat.le_refl _) (fun _ => rfl) fun _ => Nat.le_refl _)
  assign name v _ _ := sharesFrames_standing.assign (allows_define_standing name v)
  resolve name _ := (sharesFrames_standing.resolve name).mono fun _ _ _ _ _ _ => trivial
  retain _ := (agree_retain_standing _).mono fun _ _ _ _ => trivial
  retainMethodScope _ := sharesFrames_standing.methodScope.bind fun _ id _ _ =>
    (agree_retain_standing id).mono fun _ _ _ _ => trivial
  trace position i := agree_trace_standing position i

/-! ## Activations -/

/-- When the innermost activation ends, machines stand where they stood before it. -/
theorem Alike.unwindTo_standing (hid : id ≠ w.root) (h : standing.Alike (w.push id) m n) :
    standing.Alike w (m.unwindTo w.calls.depth) (n.unwindTo w.calls.depth) := by
  obtain ⟨hm, log, rfl, hlog⟩ := h.rest
  have hdepth : w.calls.depth ≤ max 1 w.limit :=
    Nat.le_trans (Nat.le_succ _) hm.depth
  rw [Machine.unwindTo_of_push hm.calls, Machine.unwindTo_of_push (m := m.logging log) hm.calls]
  have hm' := (hm.endActivation hid).setCalls hdepth
  exact h.restand hm' rfl rfl hlog

/-- A body that is entered comes back to the standpoint that it was entered from. -/
theorem agree_activation_standing {x y : Run α} {p : α → Prop} (hid : id ≠ w.root)
    (hbody : standing.Agree (w.push id) x y fun _ a => p a) :
    standing.Agree w (Run.activation id x) (Run.activation id y) fun _ a => p a := by
  intro m n h
  obtain ⟨hm, log, rfl, hlog⟩ := h.rest
  have hroom : m.depth < m.config.maxCallDepth → (m.callStack.push id).depth ≤ max 1 w.limit := by
    rw [CallStack.depth_push, hm.limit]
    exact fun hlt => Nat.le_trans hlt (Nat.le_max_right _ _)
  have hpushed (hlt : m.depth < m.config.maxCallDepth) : standing.Alike (w.push id)
      { m with callStack := m.callStack.push id }
      (({ m with callStack := m.callStack.push id } : Machine).logging log) :=
    h.restand (hm.calls ▸ hm.setCalls (hm.calls ▸ hroom hlt)) rfl rfl hlog
  refine Matches.activation rfl rfl trivial (h.restand (hm.endActivation hid) rfl rfl hlog)
    (fun hlt => hbody _ _ (hpushed hlt)) ?_
  intro w' k l hw halike
  cases hw
  refine ⟨w, rfl, fun _ ha => ha, ?_⟩
  rw [Machine.depth, hm.calls]
  exact halike.unwindTo_standing hid

variable {e : Engine} {digests : Digests}

/-- An engine that runs code in any frame but the global one. -/
structure EntersStanding (e : Engine) : Prop where
  plain : e.tracks = false
  enter : ∀ {w : Standpoint} {id : FrameId} (c : Cursor), id ≠ w.root →
    standing.Agree w (e.enter id c) (e.enter id c) fun _ _ => True

theorem EntersStanding.runIn (h : EntersStanding e) (scope : FrameId) (object : Option Value)
    (bindsObject : Bool) (self : Value) (operands : List Value) (body : View) :
    standing.Agree w (e.runIn scope object bindsObject self operands body)
      (e.runIn scope object bindsObject self operands body) fun _ _ => True := by
  rw [Engine.runIn_of_plain h.plain]
  refine (agree_newFrame_standing _ _ _).bind fun w₁ id _ hid => ?_
  refine (sharesFrames_standing.modifyFrame (allows_define_standing _ self)).bind fun w₂ _ hw₂ _ => ?_
  refine (agree_pushAll_standing id operands).bind fun w₃ _ hw₃ _ => ?_
  cases hw₂
  cases hw₃
  exact (h.enter _ hid).bind fun _ _ _ _ => .pure trivial

/-- The frame of a generator is not the global one. -/
theorem EntersStanding.runOperation (h : EntersStanding e) (g : Value) {state : Generator}
    (hstate : state.frame ≠ some w.root) (values : List Value) :
    standing.Agree w (e.runOperation g state values) (e.runOperation g state values)
      fun _ _ => True := by
  have hrest : ∀ {w : Standpoint} {id : FrameId}, id ≠ w.root → standing.Agree w
      (do Run.pushAll id values; e.enter id (Engine.startOf state))
      (do Run.pushAll id values; e.enter id (Engine.startOf state)) fun _ _ => True := by
    intro w id hid
    refine (agree_pushAll_standing id values).bind fun w₁ _ hw₁ _ => ?_
    cases hw₁
    exact h.enter _ hid
  cases hframe : state.frame with
  | some id =>
    have hid : id ≠ w.root := fun e => hstate (e ▸ hframe)
    simp only [Engine.runOperation, Engine.generatorFrame, hframe, bind_assoc, pure_bind]
    refine (agree_activate_standing id).bind fun w₁ _ hw₁ _ => ?_
    cases hw₁
    exact hrest hid
  | none =>
    simp only [Engine.runOperation, Engine.generatorFrame_of_plain h.plain, hframe, bind_assoc,
      pure_bind]
    refine (agree_newFrame_standing _ _ _).bind fun w₁ id _ hid => ?_
    refine (agree_retain_standing id).bind fun w₂ other hw₂ hother => ?_
    cases hw₂
    subst hother
    refine (agree_modifyHeap fun m n hmn => ?_).bind fun w₃ _ hw₃ _ => ?_
    · refine hmn.changeGenerator trivial (fun s _ hs => ⟨?_, hs.2⟩) fun _ => ?_
      · exact fun e => hid (Option.some.inj e)
      · exact .ofGenerator ⟨rfl, rfl, rfl, rfl⟩
    · cases hw₃
      exact hrest hid

/-- Whatever the machine does, it stands where it stood. -/
theorem standing_knot (fuel : Nat) :
    Knot standingFrames (.withFuel fuel digests) (.withFuel fuel digests) := by
  induction fuel with
  | zero =>
    have h : EntersStanding (.withFuel 0 digests) := ⟨rfl, fun _ _ => .giveUp⟩
    refine ⟨⟨Nat.le_refl _, rfl, ⟨rfl, rfl⟩, fun _ _ => .giveUp⟩, ?_, ?_⟩
    · exact fun _ _ _ _ _ _ _ _ => h.runIn _ _ _ _ _ _
    · exact fun _ hstate _ => (h.runOperation _ hstate.1 _).mono fun _ _ _ _ => trivial
  | succ fuel ih =>
    have h : EntersStanding (.withFuel (fuel + 1) digests) := ⟨rfl, fun c hid =>
      agree_activation_standing hid ((ih.run trivial c).mono fun _ _ _ _ => trivial)⟩
    refine ⟨⟨Nat.le_refl _, rfl, ⟨rfl, rfl⟩, ?_⟩, ?_, ?_⟩
    · exact fun hc hargs => ih.bodies.callValue hc hargs
    · exact fun _ _ _ _ _ _ _ _ => h.runIn _ _ _ _ _ _
    · exact fun _ hstate _ => (h.runOperation _ hstate.1 _).mono fun _ _ _ _ => trivial

end standing
end Likeness
end ScriptVM
