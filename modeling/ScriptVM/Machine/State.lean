import ScriptVM.Config
import ScriptVM.Failure
import ScriptVM.Frame.CallStack
import ScriptVM.Frame.Collection
import ScriptVM.Frame.Scope

/-!
# The state of the machine

What the machine is made of, and the computations that read and change it. A computation that
stops early leaves the state as it was when it stopped: nothing is rolled back. Giving up, for lack
of fuel or at a tripwire, is not a failure of the program, and nothing in a program can catch it.
-/
namespace ScriptVM

/-- Why a computation gives up. -/
inductive Cutoff where
  /-- It was given too little fuel to end. -/
  | fuel
  /-- It came to something that a watcher does not let it do. -/
  | tripwire
  deriving DecidableEq

/-- Why a computation stops before its end. -/
inductive Stop where
  | failed (f : Failure)
  | gaveUp (why : Cutoff)

/-- The computation was given too little fuel to end. -/
abbrev Stop.outOfFuel : Stop := .gaveUp .fuel

/-- An executed instruction in the log: the depth of the call stack, the position of the
instruction in its view, and the instruction. -/
structure TraceEntry where
  depth : Nat
  position : Nat
  instruction : Instruction

/-- The machine. -/
structure Machine where
  config : Config
  heap : Heap
  arena : Arena
  /-- The frame of the global variables. -/
  globals : FrameId
  /-- The running activations; the outermost one is that of the global frame. -/
  callStack : CallStack
  /-- The values of the built-in types by their names. -/
  types : Bindings Value
  /-- The log of executed instructions, latest first. -/
  log : List TraceEntry
  /-- What the machine itself holds on to while something is called, if it is kept track of. -/
  held : List Reference
  deriving Inhabited

namespace Machine

/-- Changes a frame. -/
def modifyFrame (m : Machine) (id : FrameId) (change : Frame → Frame) : Machine :=
  { m with arena := m.arena.modify id change }

/-- Binds a global name. -/
def defineGlobal (m : Machine) (name : String) (value : Value) : Machine :=
  m.modifyFrame m.globals fun f => f.define name value

/-- Makes the value of a built-in type and binds it globally. -/
def addType (m : Machine) (tag : TypeTag) : Machine :=
  let (value, heap) := m.heap.alloc (.type (.builtin tag))
  { m with heap := heap, types := m.types.insert tag.name value }.defineGlobal tag.name value

/-- A new machine: the global frame is active, and the built-in types are global names. -/
def new (config : Config) : Machine :=
  let (globals, arena) := Arena.empty.alloc none none false
  TypeTag.all.foldl addType ⟨config, .empty, arena, globals, .single globals, .empty, [], []⟩

/-- What holds of a machine without types, and still does when a type is added, holds of a new one. -/
theorem new_induction {P : Machine → Prop} (config : Config)
    (bare : P ⟨config, .empty, (Arena.empty.alloc none none false).2, ⟨0⟩, .single ⟨0⟩, .empty,
      [], []⟩)
    (step : ∀ m tag, P m → P (m.addType tag)) : P (new config) := by
  have hfold : ∀ (tags : List TypeTag) (m : Machine), P m → P (tags.foldl addType m) := by
    intro tags
    induction tags with
    | nil => exact fun _ h => h
    | cons tag rest ih => exact fun m h => ih _ (step m tag h)
  unfold new
  exact hfold TypeTag.all _ bare

/-- How deep the call stack is, the global frame included. -/
def depth (m : Machine) : Nat := m.callStack.depth

/-- Ends the innermost activations until the call stack has a given depth. -/
def unwindTo (m : Machine) (depth : Nat) : Machine :=
  let (ended, callStack) := m.callStack.unwindTo depth
  { m with callStack := callStack, arena := ended.foldl Arena.endActivation m.arena }

/-- Brings the machine back to rest: only the global frame is active, without operands. -/
def reset (m : Machine) : Machine :=
  let m := m.unwindTo 1
  m.modifyFrame m.globals fun f => { f with stack := [], last := none }

/-- The arena and the heap with the tally of all references: those of objects and frames, those to
the built-in types, and what the machine holds on to, and something else. -/
def holding (m : Machine) (also : List Reference) : Holding :=
  .ofState m.arena m.heap (m.types.values.map .value ++ (m.held ++ also))

/-- Frees every frame that is not reachable, cycles through frames included, as far as one search
can tell. Objects that refer only to each other keep the frames that they hold. -/
def collectGarbage (m : Machine) : Machine :=
  { m with arena := (m.holding []).collect.arena }

/-- How many frames are live, the global one included. -/
def liveFrames (m : Machine) : Nat := m.arena.live

end Machine

/-- A computation on the machine. -/
abbrev Run := EStateM Stop Machine

namespace Run

/-- Fails for a reason; the place is added on the way out. -/
def fail {α : Type} (cause : Cause) : Run α := throw (.failed (.of cause))

/-- Gives up for lack of fuel. -/
def giveUp {α : Type} : Run α := throw .outOfFuel

theorem fail_apply {α : Type} (cause : Cause) (m : Machine) :
    (fail cause : Run α) m = .error (.failed (.of cause)) m := rfl

/-- What a change of the state does. -/
theorem modifyGet_apply {α : Type} (f : Machine → α × Machine) (m : Machine) :
    (modifyGet f : Run α) m = .ok (f m).1 (f m).2 := rfl

/-- Reads something off the machine. -/
def read {α : Type} (f : Machine → α) : Run α := fun m => .ok (f m) m

/-- Changes the objects. -/
def modifyHeap (f : Heap → Heap) : Run Unit := modify fun m => { m with heap := f m.heap }

/-- Runs a computation and turns a failure into `none`. What was done before stays done. -/
def attempt {α : Type} (x : Run α) : Run (Option α) := fun m =>
  match x m with
  | .ok a m => .ok (some a) m
  | .error (.failed _) m => .ok none m
  | .error (.gaveUp why) m => .error (.gaveUp why) m

/-- Gives a place to a failure that has none. -/
def located {α : Type} (span : Span) (x : Run α) : Run α := fun m =>
  match x m with
  | .ok a m => .ok a m
  | .error (.failed f) m => .error (.failed (f.placedAt span)) m
  | .error (.gaveUp why) m => .error (.gaveUp why) m

/-- Runs a computation while the machine holds on to something else, too. -/
def holding {α : Type} (refs : List Reference) (x : Run α) : Run α := fun m =>
  match x { m with held := refs ++ m.held } with
  | .ok a k => .ok a { k with held := m.held }
  | .error stop k => .error stop { k with held := m.held }

/-! ## Objects -/

/-- A new object. -/
def newObject (kind : Kind) : Run Value := modifyGet fun m =>
  let (v, heap) := m.heap.alloc kind
  (v, { m with heap := heap })

/-- The `None` value. -/
def newNone : Run Value := newObject .none

/-- A Bool. -/
def newBool (b : Bool) : Run Value := newObject (.bool b)

/-- An Integer. -/
def newInteger (n : Int64) : Run Value := newObject (.integer n)

/-- A Float. -/
def newFloat (x : Float) : Run Value := newObject (.float x)

/-- A String. -/
def newString (s : String) : Run Value := newObject (.string s)

/-- A snapshot iterator over items. -/
def newIterator (items : List Value) : Run Value := newObject (.iterator items [])

/-- The payload of a value. -/
def kindOf (v : Value) : Run Kind := read fun m => m.heap.kind v

/-- The name of a value's type. -/
def typeName (v : Value) : Run String := read fun m => m.heap.typeName v

/-- Fails because a value is not of an expected type. -/
def failType {α : Type} (v : Value) (expected : List String) : Run α := do
  fail (.invalidType (← typeName v) expected)

/-- What a name means on a value. -/
def lookup (v : Value) (name : String) : Run (Option Value) := modifyGet fun m =>
  let (found, heap) := m.heap.lookup v name
  (found, { m with heap := heap })

/-- The text of a value. -/
def display (v : Value) : Run String := do
  match ← read fun m => m.heap.display? v with
  | some text => return text
  | none => giveUp

/-- The text of a value inside a container. -/
def repr (v : Value) : Run String := do
  match ← read fun m => m.heap.repr? v with
  | some text => return text
  | none => giveUp

/-- The value of a built-in type. -/
def builtinType (tag : TypeTag) : Run Value := do
  match ← read fun m => m.types.get? tag.name with
  | some v => return v
  | none => newObject (.type (.builtin tag))

/-! ## Frames -/

/-- A live frame. -/
def frame (id : FrameId) : Run Frame := do
  match ← read fun m => m.arena.get? id with
  | some f => return f
  | none => fail (.frameNotFound id.serial)

/-- Changes a live frame. -/
def modifyFrame (id : FrameId) (change : Frame → Frame) : Run Unit := do
  let _ ← frame id
  modify fun m => m.modifyFrame id change

/-- Binds a name among the variables of a live frame. -/
def define (id : FrameId) (name : String) (v : Value) : Run Unit :=
  modifyFrame id fun f => f.define name v

/-- Pushes an operand. -/
def push (id : FrameId) (v : Value) : Run Unit := modifyFrame id fun f => f.push v

/-- Puts operands on top of the others, the first one on top. -/
def pushAll (id : FrameId) (vs : List Value) : Run Unit :=
  modifyFrame id fun f => { f with stack := vs ++ f.stack }

/-- The operand on top. -/
def top (id : FrameId) : Run Value := do
  match (← frame id).stack with
  | v :: _ => return v
  | [] => fail .stackUnderflow

/-- The last produced object. -/
def last (id : FrameId) : Run (Option Value) := do return (← frame id).last

/-- Pops an operand. -/
def pop (id : FrameId) : Run Value := do
  match (← frame id).pop? with
  | some (v, rest) => do
    modify fun m => m.modifyFrame id fun f => { f with stack := rest.stack }
    return v
  | none => fail .stackUnderflow

/-- Pops operands, the top one first. -/
def popMany (id : FrameId) (count : Nat) : Run (List Value) := do
  match (← frame id).popMany? count with
  | some (vs, rest) => do
    modify fun m => m.modifyFrame id fun f => { f with stack := rest.stack }
    return vs
  | none => fail .stackUnderflow

/-- Sets the last produced object. -/
def setLast (id : FrameId) (v : Value) : Run Unit :=
  modifyFrame id fun f => { f with last := some v }

/-- Assigns to a name in a live frame. -/
def assign (id : FrameId) (name : String) (v : Value) : Run Unit := do
  let _ ← frame id
  modify fun m =>
    let (arena, heap) := m.arena.assign m.heap id name v
    { m with arena := arena, heap := heap }

/-- What a name means in a frame and around it. -/
def resolve (id : FrameId) (name : String) : Run (Option Value) := modifyGet fun m =>
  match m.arena.lookup? m.heap id name with
  | some (v, heap) => (some v, { m with heap := heap })
  | none => (none, m)

/-- The frame that a method defined in a frame closes over: the scope of the class rather than
the frame that builds one object. -/
def methodScope (id : FrameId) : Run FrameId := do
  let f ← frame id
  match f.bindsObject, f.parent with
  | true, some parent => return parent
  | _, _ => return id

/-- Looks at the frames that lost their last holder, while something is held on to. -/
def settleDropped (also : List Reference) : Run Unit := modify fun m =>
  { m with arena := (m.holding also).settleDropped.arena }

/-- A new frame with one activation. -/
def newFrame (parent : Option FrameId) (object : Option Value) (bindsObject : Bool) :
    Run FrameId := modifyGet fun m =>
  let (id, arena) := m.arena.alloc parent object bindsObject
  (id, { m with arena := arena })

/-- Lets something keep a live frame alive. -/
def retain (id : FrameId) : Run FrameId := do
  let _ ← frame id
  modify fun m => { m with arena := m.arena.retain id }
  return id

/-- Starts another activation in a live frame. -/
def activate (id : FrameId) : Run Unit := do
  let _ ← frame id
  modify fun m => { m with arena := m.arena.activate id }

/-- Runs a body as an activation of a frame that already counts it. The activation ends with the
body, however the body ends; when the call stack is full it ends at once. -/
def activation {α : Type} (id : FrameId) (body : Run α) : Run α := fun m =>
  let depth := m.depth
  if m.config.maxCallDepth ≤ depth then
    .error (.failed (.of (.callDepthExceeded m.config.maxCallDepth)))
      { m with arena := m.arena.endActivation id }
  else
    match body { m with callStack := m.callStack.push id } with
    | .ok a m => .ok a (m.unwindTo depth)
    | .error stop m => .error stop (m.unwindTo depth)

/-- Logs an instruction, if the machine is to. -/
def trace (position : Nat) (i : Instruction) : Run Unit := modify fun m =>
  if m.config.trace then { m with log := ⟨m.depth, position, i⟩ :: m.log } else m

end Run
end ScriptVM
