import ScriptVM.Failure
import ScriptVM.Frame.Collection
import ScriptVM.Frame.Scope

/-!
# Keeping frames and values

What the owner of frames does with them: allocate frames, keep and let go of frames and values
under names, and work with single frames. Letting go of something frees no frame at once; the
frames that lost their last holder are looked at when a frame is allocated or released, and at a
collection. What comes in is held before what it replaces is let go.
-/
namespace ScriptVM.Holding

/-- No frames, over some objects that nothing refers to. -/
def ofHeap (h : Heap) : Holding := ⟨⟨.empty, #[], []⟩, h, .empty, .empty⟩

/-- The frame in a slot, or a failure. -/
def occupant (s : Holding) (slot : Nat) : Except Failure FrameId :=
  match s.arena.idInSlot? slot with
  | some id => .ok id
  | none => .error (.of (.frameNotFound slot))

/-- A new frame with one activation. -/
def allocate (s : Holding) (parent : Option FrameId) (object : Option Value)
    (bindsObject : Bool) : FrameId × Holding :=
  let s := s.settleDropped
  let (id, arena) := s.arena.alloc parent object bindsObject
  (id, { s with arena := arena }.hold (object.toList.map .value))

/-- Keeps a frame under a name. -/
def keepFrame (s : Holding) (name : String) (id : FrameId) : Holding :=
  let old := (s.frames.get? name).toList.map Reference.frame
  ({ s with frames := s.frames.insert name id }.hold [.frame id]).letGo old

/-- Lets go of the frame under a name. -/
def dropFrame (s : Holding) (name : String) : Holding :=
  let old := (s.frames.get? name).toList.map Reference.frame
  { s with frames := s.frames.erase name }.letGo old

/-- Keeps a value under a name. -/
def keepValue (s : Holding) (name : String) (v : Value) : Holding :=
  let old := (s.values.get? name).toList.map Reference.value
  ({ s with values := s.values.insert name v }.hold [.value v]).letGo old

/-- Lets go of the value under a name. -/
def dropValue (s : Holding) (name : String) : Holding :=
  let old := (s.values.get? name).toList.map Reference.value
  { s with values := s.values.erase name }.letGo old

/-- Starts another activation in a frame. -/
def activate (s : Holding) (id : FrameId) : Holding := s.mapArena fun a => a.activate id

/-- Binds a name among the variables of a frame. -/
def define (s : Holding) (id : FrameId) (name : String) (v : Value) : Holding :=
  let old := ((s.arena.get? id).bind fun f => f.vars.get? name).toList.map Reference.value
  ((s.mapArena fun a => a.modify id fun f => f.define name v).hold [.value v]).letGo old

/-- Assigns to a name in a frame: among its variables, or on the object that it binds. -/
def assign (s : Holding) (id : FrameId) (name : String) (v : Value) : Holding :=
  match (s.arena.get? id).bind fun f => if f.bindsObject then f.object else none with
  | none => s.define id name v
  | some object =>
    let old := (((s.heap.get object).members.get? name).map Member.references).getD []
    ({ s with heap := s.heap.setValue object name v }.hold [.value v]).letGo old

/-- Pushes an operand on a frame. -/
def push (s : Holding) (id : FrameId) (v : Value) : Holding :=
  (s.mapArena fun a => a.modify id fun f => f.push v).hold [.value v]

/-- Pops operands off a frame, the top one first, and lets go of them. -/
def popMany (s : Holding) (id : FrameId) (count : Nat) : Except Failure (List Value × Holding) :=
  match (s.arena.get? id).bind fun f => f.popMany? count with
  | some (vs, f) => .ok (vs, (s.mapArena fun a => a.modify id fun _ => f).letGo (vs.map .value))
  | none => .error (.of .stackUnderflow)

end ScriptVM.Holding
