import ScriptVM.Frame.Arena

/-!
# The call stack

The frames of the running activations, innermost first, together with how many they are, so that
the depth of a deep recursion is known without counting it.
-/
namespace ScriptVM

/-- The frames of the running activations, innermost first. -/
structure CallStack where
  frames : List FrameId
  depth : Nat
  depth_eq : depth = frames.length

namespace CallStack

/-- One running activation. -/
def single (id : FrameId) : CallStack := ⟨[id], 1, rfl⟩

instance : Inhabited CallStack := ⟨⟨[], 0, rfl⟩⟩

/-- Starts an activation. -/
def push (s : CallStack) (id : FrameId) : CallStack where
  frames := id :: s.frames
  depth := s.depth + 1
  depth_eq := by simp [s.depth_eq]

/-- The activations above a depth, innermost first, and what is left without them. -/
def unwindTo (s : CallStack) (depth : Nat) : List FrameId × CallStack :=
  let surplus := s.depth - depth
  (s.frames.take surplus,
    { frames := s.frames.drop surplus
      depth := s.depth - surplus
      depth_eq := by simp [s.depth_eq] })

@[simp] theorem frames_push (s : CallStack) (id : FrameId) :
    (s.push id).frames = id :: s.frames := rfl

@[simp] theorem depth_push (s : CallStack) (id : FrameId) : (s.push id).depth = s.depth + 1 := rfl

@[simp] theorem depth_unwindTo (s : CallStack) (depth : Nat) :
    (s.unwindTo depth).2.depth = min s.depth depth := by
  simp only [unwindTo]
  omega

/-- Unwinding takes activations away and changes nothing below them. -/
theorem append_unwindTo (s : CallStack) (depth : Nat) :
    (s.unwindTo depth).1 ++ (s.unwindTo depth).2.frames = s.frames := by
  simp [unwindTo]

/-- Unwinding to the depth before an activation ends just this one. -/
theorem unwindTo_push (s : CallStack) (id : FrameId) :
    (s.push id).unwindTo s.depth = ([id], s) := by
  cases s
  simp [unwindTo, push]

/-- One activation is left when there is only one. -/
theorem unwindTo_single (id : FrameId) : (single id).unwindTo 1 = ([], single id) := rfl

end CallStack
end ScriptVM
