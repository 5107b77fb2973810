import ScriptVM.Proofs.Composition.Shift
import ScriptVM.Proofs.Passage.Still

/-!
# Frames on machines with an object more

Frames have the same numbers on both machines, and hold the renamed values.
-/
namespace ScriptVM

/-- What a name means in a frame by itself, as a member and its owner; a variable owns itself. -/
def Frame.meaning? (f : Frame) (h : Heap) (name : String) : Option (Value × Member) :=
  match f.vars.get? name with
  | some v => some (v, .value v)
  | none => f.object.bind fun object => (h.own? object name).map fun member => (object, member)

theorem Frame.resolve?_eq (f : Frame) (h : Heap) (name : String) :
    f.resolve? h name = (f.meaning? h name).map fun r => h.bind r.1 r.2 := by
  unfold resolve? meaning?
  cases f.vars.get? name with
  | some v => rfl
  | none =>
    cases f.object with
    | none => rfl
    | some object =>
      simp only [Option.bind_some, Option.map_map]
      rfl

/-- Assigning to a name adds no objects. -/
theorem Arena.size_assign (a : Arena) (h : Heap) (id : FrameId) (name : String) (v : Value) :
    (a.assign h id name v).2.objects.size = h.objects.size := by
  unfold assign
  split
  · exact Heap.size_modify _ _ _
  · rfl

/-- Resolving a name, step by step. -/
theorem Run.resolve_eq (id : FrameId) (name : String) :
    Run.resolve id name = (do
      match ← Run.read fun m => (m.arena.chain id).findSome? fun f => f.meaning? m.heap name with
      | some (owner, member) =>
        return some (← modifyGet fun m =>
          ((m.heap.bind owner member).1, { m with heap := (m.heap.bind owner member).2 }))
      | none => return none) := by
  funext m
  simp only [Run.resolve, Run.modifyGet_apply, Arena.lookup?, Frame.resolve?_eq,
    bind, EStateM.bind, Run.read]
  rw [show (fun f : Frame => (f.meaning? m.heap name).map fun r => m.heap.bind r.1 r.2) =
    Option.map (fun r => m.heap.bind r.1 r.2) ∘ fun f => f.meaning? m.heap name from rfl,
    ← List.map_findSome?]
  cases (m.arena.chain id).findSome? fun f => f.meaning? m.heap name <;> rfl

section shift

variable {root : FrameId} {gap : Nat} {filled : Bool} {m n : Machine}

namespace Machine.Shifted

variable (h : Shifted root gap filled m n)
include h

theorem setArena (a : Arena) :
    Shifted root gap filled { m with arena := a } { n with arena := a.rename (Value.shift gap) } :=
  { h with arena := rfl }

theorem depth_eq : n.depth = m.depth := by
  rw [depth, h.callStack]
  rfl

theorem push (id : FrameId) :
    Shifted root gap filled { m with callStack := m.callStack.push id }
      { n with callStack := n.callStack.push id } :=
  { h with callStack := by rw [h.callStack] }

theorem unwindTo (depth : Nat) : Shifted root gap filled (m.unwindTo depth) (n.unwindTo depth) := by
  have hfold : ∀ (ended : List FrameId) (a : Arena),
      ended.foldl Arena.endActivation (a.rename (Value.shift gap)) =
        (ended.foldl Arena.endActivation a).rename (Value.shift gap) := by
    intro ended
    induction ended with
    | nil => exact fun _ => rfl
    | cons id rest ih =>
      intro a
      rw [List.foldl_cons, List.foldl_cons, Arena.rename_endActivation, ih]
  refine { h with arena := ?_, callStack := ?_ }
  · simp only [Machine.unwindTo, h.callStack, h.arena, hfold]
  · simp only [Machine.unwindTo, h.callStack]

theorem modifyFrame (id : FrameId) {change change' : Frame → Frame}
    (hchange : ∀ f, change' (f.rename (Value.shift gap)) = (change f).rename (Value.shift gap)) :
    Shifted root gap filled (m.modifyFrame id change) (n.modifyFrame id change') := by
  unfold Machine.modifyFrame
  rw [h.arena, Arena.rename_modify _ _ _ hchange]
  exact h.setArena _

theorem reset : Shifted root gap filled m.reset n.reset := by
  have hunwound := h.unwindTo 1
  change Shifted root gap filled ((m.unwindTo 1).modifyFrame (m.unwindTo 1).globals _)
    ((n.unwindTo 1).modifyFrame (n.unwindTo 1).globals _)
  rw [hunwound.globals]
  exact hunwound.modifyFrame _ fun _ => rfl

theorem assign (id : FrameId) (name : String) (v : Value) :
    Shifted root gap filled
      { m with
        arena := (m.arena.assign m.heap id name v).1
        heap := (m.arena.assign m.heap id name v).2 }
      { n with
        arena := (n.arena.assign n.heap id name (v.shift gap)).1
        heap := (n.arena.assign n.heap id name (v.shift gap)).2 } := by
  have hobject : ((n.arena.get? id).bind fun f => if f.bindsObject then f.object else none) =
      ((m.arena.get? id).bind fun f => if f.bindsObject then f.object else none).map
        (Value.shift gap) := by
    rw [h.arena, Arena.get?_rename]
    cases m.arena.get? id with
    | none => rfl
    | some f =>
      simp only [Option.map_some, Option.bind_some, Frame.rename]
      split <;> rfl
  unfold Arena.assign
  rw [hobject]
  cases (m.arena.get? id).bind fun f => if f.bindsObject then f.object else none with
  | none => exact h.modifyFrame id fun f => by simp [Frame.define, Frame.rename, Bindings.map_insert]
  | some object =>
    exact h.modify object fun o => (Object.rename_setMember _ o name (.value v)).symm

end Machine.Shifted

namespace Passage

open Run

variable {α β : Type}

theorem carries_frame (f : FrameId) :
    (Passage.shift root gap filled).Carries (frame f) (frame f) (Frame.rename (Value.shift gap)) := by
  refine .read_bind (Option.map (Frame.rename (Value.shift gap)))
    (fun m n hmn => by rw [hmn.arena, Arena.get?_rename]) fun r => ?_
  cases r with
  | none => exact .fail _
  | some f => exact .pure rfl

/-- A change of the frames. -/
theorem carries_changeArena (change : Arena → Arena)
    (h : ∀ a, change (a.rename (Value.shift gap)) = (change a).rename (Value.shift gap)) :
    (Passage.shift root gap filled).Carries (modify fun m => { m with arena := change m.arena })
      (modify fun m => { m with arena := change m.arena }) id := by
  refine .modify (fun _ => rfl) fun m n hmn => ?_
  rw [hmn.arena, h]
  exact hmn.setArena _

/-- A change of a live frame. -/
theorem carries_changeFrame (f : FrameId) (change change' : Frame → Frame)
    (h : ∀ f, change' (f.rename (Value.shift gap)) = (change f).rename (Value.shift gap)) :
    (Passage.shift root gap filled).Carries (modify fun m => m.modifyFrame f change)
      (modify fun m => m.modifyFrame f change') id :=
  .modify (fun _ => rfl) fun _ _ hmn => hmn.modifyFrame f h

theorem carries_modifyFrame (f : FrameId) {change change' : Frame → Frame}
    (h : ∀ f, change' (f.rename (Value.shift gap)) = (change f).rename (Value.shift gap)) :
    (Passage.shift root gap filled).Carries (modifyFrame f change) (modifyFrame f change') id :=
  (carries_frame f).bind fun _ => carries_changeFrame f _ _ h

theorem carries_pop (f : FrameId) :
    (Passage.shift root gap filled).Carries (pop f) (pop f) (Value.shift gap) := by
  refine (carries_frame f).bind fun fr => ?_
  rw [Frame.rename_pop?]
  cases fr.pop? with
  | none => exact .fail _
  | some r =>
    exact (carries_changeFrame f (fun f => { f with stack := r.2.stack })
      (fun f => { f with stack := (r.2.rename (Value.shift gap)).stack }) fun _ => rfl).bind
        fun _ => .pure rfl

theorem carries_popMany (f : FrameId) (count : Nat) :
    (Passage.shift root gap filled).Carries (popMany f count) (popMany f count)
      (List.map (Value.shift gap)) := by
  refine (carries_frame f).bind fun fr => ?_
  rw [Frame.rename_popMany?]
  cases fr.popMany? count with
  | none => exact .fail _
  | some r =>
    exact (carries_changeFrame f (fun f => { f with stack := r.2.stack })
      (fun f => { f with stack := (r.2.rename (Value.shift gap)).stack }) fun _ => rfl).bind
        fun _ => .pure rfl

theorem carries_top (f : FrameId) :
    (Passage.shift root gap filled).Carries (top f) (top f) (Value.shift gap) := by
  refine (carries_frame f).bind fun fr => ?_
  obtain ⟨slot, vars, parent, object, bindsObject, stack, last, active, children, holders⟩ := fr
  cases stack with
  | nil => exact .fail _
  | cons v rest => exact .pure rfl

theorem meaning?_rename (h : m.heap.Renamed (Value.shift gap) n.heap) (f : Frame) (name : String) :
    (f.rename (Value.shift gap)).meaning? n.heap name = (f.meaning? m.heap name).map
      fun r => (r.1.shift gap, r.2.rename (Value.shift gap)) := by
  unfold Frame.meaning?
  simp only [Frame.rename, Bindings.get?_map]
  cases f.vars.get? name with
  | some v => rfl
  | none =>
    cases f.object with
    | none => rfl
    | some object =>
      simp only [Option.map_some, Option.map_none, Option.bind_some, h.own?, Option.map_map]
      rfl

theorem carries_resolve (f : FrameId) (name : String) :
    (Passage.shift root gap filled).Carries (resolve f name) (resolve f name)
      (Option.map (Value.shift gap)) := by
  rw [resolve_eq]
  refine .read_bind (Option.map fun r => (r.1.shift gap, r.2.rename (Value.shift gap)))
    (fun m n hmn => ?_) fun r => ?_
  · rw [hmn.arena, Arena.chain_rename, List.findSome?_map, List.map_findSome?]
    exact congrArg (fun g => (m.arena.chain f).findSome? g)
      (funext fun fr => meaning?_rename hmn.heap fr name)
  · cases r with
    | none => exact .pure rfl
    | some r => exact (carries_bindMember r.1 r.2).bind fun _ => .pure rfl

theorem carries_methodScope (f : FrameId) :
    (Passage.shift root gap filled).Carries (methodScope f) (methodScope f) id := by
  refine (carries_frame f).bind fun fr => ?_
  obtain ⟨slot, vars, parent, object, bindsObject, stack, last, active, children, holders⟩ := fr
  cases bindsObject <;> cases parent <;> exact .pure rfl

theorem carries_newFrame (parent : Option FrameId) (object : Option Value) (bindsObject : Bool) :
    (Passage.shift root gap filled).Carries (newFrame parent object bindsObject)
      (newFrame parent (object.map (Value.shift gap)) bindsObject) id := by
  refine ⟨fun _ => Nat.le_refl _, fun m n hmn _ _ => ?_⟩
  unfold newFrame
  rw [modifyGet_apply, modifyGet_apply]
  simp only [hmn.arena, Arena.rename_alloc]
  exact .ok _ (hmn.setArena _)

theorem carries_activation {x : Run α} {y : Run β} {r : α → β} (f : FrameId)
    (h : (Passage.shift root gap filled).Carries x y r) :
    (Passage.shift root gap filled).Carries (activation f x) (activation f y) r := by
  refine ⟨grows_activation f h.grows, fun m n hmn _ hroom => ?_⟩
  have hmax : n.config.maxCallDepth = m.config.maxCallDepth :=
    congrArg Config.maxCallDepth hmn.config
  by_cases hfull : m.config.maxCallDepth ≤ m.depth
  · unfold activation
    simp only [hmax, hmn.depth_eq, if_pos hfull]
    rw [hmn.arena, Arena.rename_endActivation]
    exact .failed rfl (hmn.setArena _)
  · rw [objectCount_activation f hfull] at hroom
    have hxy := h.holds _ _ (hmn.push f) trivial hroom
    unfold activation
    simp only [hmax, hmn.depth_eq, if_neg hfull]
    generalize x _ = s at hxy ⊢
    generalize y _ = t at hxy ⊢
    cases hxy with
    | ok a hmn' => exact .ok a (Machine.Shifted.unwindTo hmn' _)
    | failed hfg hmn' => exact .failed hfg (Machine.Shifted.unwindTo hmn' _)
    | gaveUp _ _ hstop => exact .gaveUp _ _ hstop
    | unsaid _ _ honeWay => exact .unsaid _ _ honeWay

theorem shift_frames (root : FrameId) (gap : Nat) (filled : Bool) :
    (Passage.shift root gap filled).Frames where
  define f name v := carries_modifyFrame f fun f => by
    simp [Frame.define, Frame.rename, Bindings.map_insert]
  push f v := carries_modifyFrame f fun _ => rfl
  pushAll f vs := carries_modifyFrame f fun f => by simp [Frame.rename]
  pop := carries_pop
  popMany := carries_popMany
  top := carries_top
  last f := (carries_frame f).bind fun _ => .pure rfl
  setLast f v := carries_modifyFrame f fun _ => rfl
  assign f name v := (carries_frame f).bind fun _ =>
    .modify (fun m => Arena.size_assign m.arena m.heap f name v) fun _ _ hmn => hmn.assign f name v
  resolve := carries_resolve
  retain f := (carries_frame f).bind fun _ =>
    (carries_changeArena (·.retain f) fun a => Arena.rename_retain _ a f).bind fun _ => .pure rfl
  methodScope := carries_methodScope
  newFrame := carries_newFrame
  activate f := (carries_frame f).bind fun _ =>
    carries_changeArena (·.activate f) fun a => Arena.rename_activate _ a f
  trace position i := by
    refine .modify (fun m => by split <;> rfl) fun m n hmn => ?_
    by_cases htrace : m.config.trace = true
    · have htrace' : n.config.trace = true := by rw [hmn.config, htrace]
      simp only [if_pos htrace, if_pos htrace']
      exact { hmn with }
    · have htrace' : ¬n.config.trace = true := by rwa [hmn.config]
      simp only [if_neg htrace, if_neg htrace']
      exact hmn
  activation f h := carries_activation f h

end Passage
end shift
end ScriptVM
