import ScriptVM.Machine.State
import ScriptVM.Proofs.Frame.Arena

/-!
# Effects of computations on frames

What the computations on frames do when the frame is live, and how they fail.
-/
namespace ScriptVM

/-- Unwinding to the depth before an activation ends just this one. -/
theorem Machine.unwindTo_of_push {m : Machine} {calls : CallStack} {id : FrameId}
    (h : m.callStack = calls.push id) : m.unwindTo calls.depth =
      { m with callStack := calls, arena := m.arena.endActivation id } := by
  simp only [Machine.unwindTo, h, CallStack.unwindTo_push, List.foldl_cons, List.foldl_nil]

namespace Run

variable {m : Machine} {id : FrameId} {f : Frame}

/-- The failure to find a frame. -/
def missing (id : FrameId) : Stop := .failed (.of (.frameNotFound id.serial))

/-- The failure to find an operand. -/
def underflow : Stop := .failed (.of .stackUnderflow)

theorem frame_of_live (h : m.arena.get? id = some f) : frame id m = .ok f m := by
  simp [frame, read, bind, EStateM.bind, h, pure, EStateM.pure]

theorem frame_of_dead (h : m.arena.get? id = none) : frame id m = .error (missing id) m := by
  simp [frame, read, bind, EStateM.bind, h, fail_apply, missing]

/-- A computation that looks at a frame first. -/
theorem frame_bind_of_live {α : Type} (h : m.arena.get? id = some f) (k : Frame → Run α) :
    (frame id >>= k) m = k f m := by
  simp only [bind, EStateM.bind, frame_of_live h]

theorem frame_bind_of_dead {α : Type} (h : m.arena.get? id = none) (k : Frame → Run α) :
    (frame id >>= k) m = .error (missing id) m := by
  simp only [bind, EStateM.bind, frame_of_dead h]

theorem modifyFrame_of_live (h : m.arena.get? id = some f) (change : Frame → Frame) :
    modifyFrame id change m = .ok () (m.modifyFrame id change) :=
  frame_bind_of_live h _

theorem modifyFrame_of_dead (h : m.arena.get? id = none) (change : Frame → Frame) :
    modifyFrame id change m = .error (missing id) m :=
  frame_bind_of_dead h _

theorem pop_of_cons {v : Value} {rest : List Value} (h : m.arena.get? id = some f)
    (hs : f.stack = v :: rest) :
    pop id m = .ok v (m.modifyFrame id fun f => { f with stack := rest }) := by
  unfold pop
  rw [frame_bind_of_live h]
  simp only [Frame.pop?, hs]
  rfl

theorem pop_of_nil (h : m.arena.get? id = some f) (hs : f.stack = []) :
    pop id m = .error underflow m := by
  unfold pop
  rw [frame_bind_of_live h]
  simp only [Frame.pop?, hs]
  rfl

theorem popMany_of_le {count : Nat} (h : m.arena.get? id = some f)
    (hs : count ≤ f.stack.length) :
    popMany id count m =
      .ok (f.stack.take count) (m.modifyFrame id fun g => { g with stack := f.stack.drop count }) := by
  unfold popMany
  rw [frame_bind_of_live h]
  simp only [Frame.popMany?, if_pos hs]
  rfl

theorem popMany_of_lt {count : Nat} (h : m.arena.get? id = some f)
    (hs : f.stack.length < count) : popMany id count m = .error underflow m := by
  unfold popMany
  rw [frame_bind_of_live h]
  simp only [Frame.popMany?, if_neg (Nat.not_le_of_lt hs)]
  rfl

theorem top_of_cons {v : Value} {rest : List Value} (h : m.arena.get? id = some f)
    (hs : f.stack = v :: rest) : top id m = .ok v m := by
  unfold top
  rw [frame_bind_of_live h, hs]
  rfl

theorem top_of_nil (h : m.arena.get? id = some f) (hs : f.stack = []) :
    top id m = .error underflow m := by
  unfold top
  rw [frame_bind_of_live h, hs]
  rfl

theorem last_of_live (h : m.arena.get? id = some f) : last id m = .ok f.last m :=
  frame_bind_of_live h _

/-- The frame that methods defined in a frame close over. -/
def methodScopeOf (id : FrameId) (f : Frame) : FrameId :=
  if f.bindsObject then f.parent.getD id else id

theorem methodScope_of_live (h : m.arena.get? id = some f) :
    methodScope id m = .ok (methodScopeOf id f) m := by
  unfold methodScope methodScopeOf
  rw [frame_bind_of_live h]
  cases f.bindsObject <;> cases f.parent <;> rfl

theorem retain_of_live (h : m.arena.get? id = some f) :
    retain id m = .ok id { m with arena := m.arena.retain id } :=
  frame_bind_of_live h _

theorem retain_of_dead (h : m.arena.get? id = none) : retain id m = .error (missing id) m :=
  frame_bind_of_dead h _

theorem activate_of_live (h : m.arena.get? id = some f) :
    activate id m = .ok () { m with arena := m.arena.activate id } :=
  frame_bind_of_live h _

theorem activate_of_dead (h : m.arena.get? id = none) : activate id m = .error (missing id) m :=
  frame_bind_of_dead h _

/-- A new frame gets the next number. -/
theorem newFrame_bind {α : Type} (parent : Option FrameId) (object : Option Value)
    (bindsObject : Bool) (k : FrameId → Run α) :
    (newFrame parent object bindsObject >>= k) m =
      k ⟨m.arena.frames.size⟩ { m with arena := (m.arena.alloc parent object bindsObject).2 } := by
  simp only [newFrame, modifyGet_apply, bind, EStateM.bind, Arena.alloc_fst]

theorem assign_of_live (h : m.arena.get? id = some f) (name : String) (v : Value) :
    assign id name v m =
      .ok () { m with arena := (m.arena.assign m.heap id name v).1,
                      heap := (m.arena.assign m.heap id name v).2 } :=
  frame_bind_of_live h _

theorem assign_of_dead (h : m.arena.get? id = none) (name : String) (v : Value) :
    assign id name v m = .error (missing id) m :=
  frame_bind_of_dead h _

end Run
end ScriptVM
