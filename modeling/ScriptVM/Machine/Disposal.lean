import ScriptVM.Machine.Execution

/-!
# Machines that dispose of frames in other ways

What becomes of a frame when its activation has ended, what a collection does, and what may happen
meanwhile are left open. One choice frees a frame when its activations have ended and nothing holds it.
Another one never frees a frame: an activation that ends takes the operands of an idle frame with it,
and a collection does nothing. A third one lets go of everything at once: an activation that ends also
frees the garbage that its frame can reach, and whatever frames lost their last holder. The machine
then has to keep track of what it holds on to itself. The last one frees as many frames, and is wary
of it: it would never end rather than call something or run a body when a frame that is needed might
be gone.
-/
namespace ScriptVM

/-- A failure because a frame is gone. -/
def Cause.isMissingFrame : Cause → Bool
  | .frameNotFound _ => true
  | _ => false

/-- What a failure holds on to. -/
def Cause.references : Cause → List Reference
  | .raised v => [.value v]
  | _ => []

/-- What is done to the frames when an activation has ended, and when garbage is collected, and what may
happen meanwhile. -/
structure Disposal where
  /-- Whether the machine keeps track of what it holds on to. -/
  tracks : Bool
  /-- What is left of the frames when an activation has ended, while something else is held on to. -/
  finish : Machine → List Reference → FrameId → Arena
  collect : Machine → Machine
  /-- Whether something may be called. -/
  allows : Machine → Bool
  /-- Whether a body may run in a frame. -/
  admits : Machine → FrameId → Bool
  /-- Whether a call may fail for a reason. -/
  passes : Cause → Bool

namespace Disposal

/-- A frame is freed when its activations have ended and nothing holds it. -/
def freeing : Disposal where
  tracks := false
  finish m _ id := m.arena.endActivation id
  collect := Machine.collectGarbage
  allows _ := true
  admits _ _ := true
  passes _ := true

/-- No frame is ever freed. -/
def hoarding : Disposal where
  tracks := false
  finish m _ id := m.arena.modify id Frame.deactivate
  collect m := m
  allows _ := true
  admits _ _ := true
  passes _ := true

/-- An activation that ends lets go of its frame, which is freed or checked for garbage, and with it
everything that lost its last holder. -/
def releasing : Disposal where
  tracks := true
  finish m also id := ((m.holding also).release id).arena
  collect := Machine.collectGarbage
  allows _ := true
  admits _ _ := true
  passes _ := true

end Disposal

/-- Every frame on the call stack is active and has a slot to itself. -/
def Machine.holdsCalls (m : Machine) : Bool :=
  m.callStack.frames.all fun id =>
    (m.arena.get? id).any fun f => f.isActive && decide (m.arena.idInSlot? f.slot = some id)

/-- A frame lies in a live one. A new frame does not when the scope that it should lie in is gone. -/
def Machine.holdsScope (m : Machine) (id : FrameId) : Bool :=
  (m.arena.get? id).any fun f => f.parent.any m.arena.isLive

/-- Frames are released, but only as long as none of those that are needed is gone. -/
def Disposal.wary : Disposal where
  tracks := true
  finish m also id := ((m.holding also).release id).arena
  collect := Machine.collectGarbage
  allows := Machine.holdsCalls
  admits := Machine.holdsScope
  passes c := !c.isMissingFrame

variable (d : Disposal) {digests : Digests}

/-- Ends the innermost activations until the call stack has a given depth, while something is held on
to. -/
def Machine.unwindBy (m : Machine) (also : List Reference) (depth : Nat) : Machine :=
  let (ended, callStack) := m.callStack.unwindTo depth
  ended.foldl (fun m id => { m with arena := d.finish m also id }) { m with callStack := callStack }

/-- Brings the machine back to rest. -/
def Machine.resetBy (m : Machine) (also : List Reference) : Machine :=
  let m := m.unwindBy d also 1
  m.modifyFrame m.globals fun f => { f with stack := [], last := none }

/-- What a computation that stopped holds on to. -/
def Stop.references : Stop → List Reference
  | .failed f => f.cause.references
  | .gaveUp _ => []

namespace Run

/-- A call that is made when it is allowed. Nothing can catch that it is not, or that it fails for a
reason that may not pass. -/
def guarded {α : Type} (x : Run α) : Run α := fun m =>
  if d.allows m = false then .error (.gaveUp .tripwire) m
  else match x m with
    | .ok a m => .ok a m
    | .error (.gaveUp why) m => .error (.gaveUp why) m
    | .error (.failed f) m =>
      if d.passes f.cause = false then .error (.gaveUp .tripwire) m else .error (.failed f) m

/-- Runs a body as an activation of a frame that already counts it. The value that the body ends with,
or is left with, is held on to while the activation ends. -/
def activationBy (id : FrameId) (body : Run (Value × Cursor)) : Run (Value × Cursor) := fun m =>
  let depth := m.depth
  if d.admits m id = false then .error (.gaveUp .tripwire) m
  else if m.config.maxCallDepth ≤ depth then
    .error (.failed (.of (.callDepthExceeded m.config.maxCallDepth)))
      { m with arena := d.finish m [] id }
  else
    match body { m with callStack := m.callStack.push id } with
    | .ok r m => .ok r (m.unwindBy d [.value r.1] depth)
    | .error stop m => .error stop (m.unwindBy d stop.references depth)

end Run

namespace Engine

/-- The machine with some fuel. -/
def disposing (digests : Digests) : Nat → Engine
  | 0 => ⟨0, fun _ _ => Run.giveUp, fun _ _ => Run.giveUp, digests, d.tracks⟩
  | fuel + 1 =>
    ⟨fuel + 1, fun callee args => Run.guarded d ((disposing digests fuel).callValue callee args),
      fun id c => Run.activationBy d id ((disposing digests fuel).run id c), digests, d.tracks⟩

/-- Executes code in the global frame. -/
def executeBy (e : Engine) (code : Cursor) : Run Value := fun m =>
  match e.run m.globals code m with
  | .ok (v, _) m => .ok v m
  | .error stop m => .error stop (m.resetBy d stop.references)

@[simp] theorem fuel_disposing (fuel : Nat) : (disposing d digests fuel).fuel = fuel := by
  cases fuel <;> rfl

@[simp] theorem digests_disposing (fuel : Nat) : (disposing d digests fuel).digests = digests := by
  cases fuel <;> rfl

@[simp] theorem tracks_disposing (fuel : Nat) : (disposing d digests fuel).tracks = d.tracks := by
  cases fuel <;> rfl

end Engine

/-! ## The machine itself -/

theorem Machine.unwindBy_freeing (m : Machine) (also : List Reference) (depth : Nat) :
    m.unwindBy .freeing also depth = m.unwindTo depth := by
  have hfold : ∀ (ended : List FrameId) (m : Machine),
      ended.foldl (fun m id => { m with arena := m.arena.endActivation id }) m =
        { m with arena := ended.foldl Arena.endActivation m.arena } := by
    intro ended
    induction ended with
    | nil => exact fun _ => rfl
    | cons id rest ih => exact fun m => ih { m with arena := m.arena.endActivation id }
  exact hfold _ _

/-- A call that is always allowed, and may fail for every reason. -/
theorem Run.guarded_eq {α : Type} (hallows : ∀ m, d.allows m = true) (hpasses : ∀ c, d.passes c = true)
    (x : Run α) : Run.guarded d x = x := by
  funext m
  simp only [guarded, hallows, hpasses, Bool.true_eq_false, if_false]
  cases x m with
  | ok a k => rfl
  | error stop k => cases stop <;> rfl

theorem Run.guarded_freeing {α : Type} (x : Run α) : Run.guarded .freeing x = x :=
  guarded_eq .freeing (fun _ => rfl) (fun _ => rfl) x

theorem Run.guarded_releasing {α : Type} (x : Run α) : Run.guarded .releasing x = x :=
  guarded_eq .releasing (fun _ => rfl) (fun _ => rfl) x

theorem Run.activationBy_freeing (id : FrameId) (body : Run (Value × Cursor)) :
    Run.activationBy .freeing id body = Run.activation id body := by
  funext m
  have hadmits : Disposal.freeing.admits m id = true := rfl
  simp only [activationBy, activation, Machine.unwindBy_freeing, hadmits, Bool.true_eq_false, if_false]
  split
  · rfl
  · cases body { m with callStack := m.callStack.push id } <;> rfl

namespace Engine

/-- A machine that frees frames as it does is the machine. -/
theorem disposing_freeing (fuel : Nat) : disposing .freeing digests fuel = withFuel fuel digests := by
  induction fuel with
  | zero => rfl
  | succ fuel ih =>
    simp only [disposing, withFuel, ih, Run.guarded_freeing, Run.activationBy_freeing]
    rfl

theorem executeBy_freeing (e : Engine) (code : Cursor) :
    e.executeBy .freeing code = e.execute code := by
  funext m
  unfold executeBy execute
  cases e.run m.globals code m with
  | ok a k => rfl
  | error stop k => simp only [Machine.resetBy, Machine.reset, Machine.unwindBy_freeing]

end Engine
end ScriptVM
