import ScriptVM.Value.Object

/-!
# Frames and their arena

A frame holds the variables, the operand stack and the last produced object of a running body.
Frames point at their lexical parent, so a closure only has to remember the frame it was defined
in. A frame is held by its activations, by its live child frames and by whatever closes over it;
a frame that nothing holds is freed. A live frame lives in a slot of the arena. Slots are used
again and references are not, so a reference to a freed frame finds nothing.
-/
namespace ScriptVM

/-- The frame of a body. -/
structure Frame where
  /-- The slot that the frame lives in. -/
  slot : Nat
  vars : Bindings Value
  /-- The frame in which the body was defined. -/
  parent : Option FrameId
  /-- The object whose members form a scope between the frame's variables and its parent. -/
  object : Option Value
  /-- Whether assignments go to the object instead of the variables. -/
  bindsObject : Bool
  /-- The operand stack, top first. -/
  stack : List Value
  /-- The last produced object. -/
  last : Option Value
  /-- How many activations run in the frame. -/
  active : Nat
  /-- How many live frames have this one as their parent. -/
  children : Nat
  /-- How many references keep the frame alive between activations. -/
  holders : Nat
  deriving Inhabited

namespace Frame

/-- Whether an activation runs in the frame. -/
def isActive (f : Frame) : Bool := 0 < f.active

/-- How many things hold the frame. -/
def held (f : Frame) : Nat := f.active + f.children + f.holders

/-- Binds a name among the variables. -/
def define (f : Frame) (name : String) (value : Value) : Frame :=
  { f with vars := f.vars.insert name value }

/-- Pushes an operand. -/
def push (f : Frame) (value : Value) : Frame := { f with stack := value :: f.stack }

/-- Pops an operand. -/
def pop? (f : Frame) : Option (Value × Frame) :=
  match f.stack with
  | value :: rest => some (value, { f with stack := rest })
  | [] => none

/-- Pops operands, the top one first, if there are enough. -/
def popMany? (f : Frame) (count : Nat) : Option (List Value × Frame) :=
  if count ≤ f.stack.length then
    some (f.stack.take count, { f with stack := f.stack.drop count })
  else none

/-- Ends an activation. A frame without activations forgets its operands. -/
def deactivate (f : Frame) : Frame :=
  if f.active - 1 = 0 then { f with active := 0, stack := [], last := none }
  else { f with active := f.active - 1 }

end Frame

/-- All frames by their numbers, where a freed one is missing, the slots with the frames that live
in them, and the slots that are free (the next one to use first). -/
structure Arena where
  frames : Array (Option Frame)
  slots : Array (Option FrameId)
  free : List Nat

namespace Arena

/-- No frames. -/
def empty : Arena := ⟨#[], #[], []⟩

instance : Inhabited Arena := ⟨empty⟩

/-- The frame behind a reference, if it is live. -/
def get? (a : Arena) (id : FrameId) : Option Frame := a.frames[id.serial]?.getD none

/-- Whether a frame is live. -/
def isLive (a : Arena) (id : FrameId) : Bool := (a.get? id).isSome

/-- A reference to the frame in a slot. -/
def idInSlot? (a : Arena) (slot : Nat) : Option FrameId := a.slots[slot]?.getD none

/-- The slot of a live frame. -/
def slot? (a : Arena) (id : FrameId) : Option Nat := (a.get? id).map Frame.slot

/-- How many frames are live. -/
def live (a : Arena) : Nat := a.slots.size - a.free.length

/-- Changes a frame, if it is live. -/
def modify (a : Arena) (id : FrameId) (change : Frame → Frame) : Arena :=
  { a with frames := a.frames.modify id.serial (Option.map change) }

theorem get?_modify (a : Arena) (id other : FrameId) (change : Frame → Frame) :
    (a.modify id change).get? other =
      if other = id then (a.get? id).map change else a.get? other := by
  unfold get? modify
  rw [Array.getElem?_modify]
  by_cases h : other = id
  · subst h
    cases a.frames[other.serial]? <;> simp
  · have hs : id.serial ≠ other.serial := by
      intro e
      exact h (by cases other; cases id; simp_all)
    simp [h, hs]

theorem get?_modify_self (a : Arena) (id : FrameId) (change : Frame → Frame) :
    (a.modify id change).get? id = (a.get? id).map change := by
  rw [get?_modify, if_pos rfl]

theorem get?_modify_of_ne {id other : FrameId} (a : Arena) (change : Frame → Frame)
    (hne : other ≠ id) : (a.modify id change).get? other = a.get? other := by
  rw [get?_modify, if_neg hne]

/-- Puts a frame into a free slot, a new one if there is none. -/
def place (a : Arena) (f : Frame) : FrameId × Arena :=
  let id : FrameId := ⟨a.frames.size⟩
  match a.free with
  | slot :: rest =>
    (id, ⟨a.frames.push (some { f with slot := slot }),
      a.slots.setIfInBounds slot (some id), rest⟩)
  | [] =>
    (id, ⟨a.frames.push (some { f with slot := a.slots.size }), a.slots.push (some id), []⟩)

/-- A new frame with one activation. A parent that is not live is left out. -/
def alloc (a : Arena) (parent : Option FrameId) (object : Option Value) (bindsObject : Bool) :
    FrameId × Arena :=
  let parent := parent.filter a.isLive
  let a :=
    match parent with
    | some id => a.modify id fun f => { f with children := f.children + 1 }
    | none => a
  a.place ⟨0, .empty, parent, object, bindsObject, [], none, 1, 0, 0⟩

/-- Notes that something more keeps a frame alive. -/
def retain (a : Arena) (id : FrameId) : Arena :=
  a.modify id fun f => { f with holders := f.holders + 1 }

/-- Starts another activation in a frame. -/
def activate (a : Arena) (id : FrameId) : Arena :=
  a.modify id fun f => { f with active := f.active + 1 }

/-- Takes a frame out of its slot. -/
def vacate (a : Arena) (id : FrameId) : Arena :=
  match a.slot? id with
  | some slot =>
    ⟨a.frames.setIfInBounds id.serial none, a.slots.setIfInBounds slot none, slot :: a.free⟩
  | none => a

/-- Takes a child away from a frame. -/
def loseChild (a : Arena) (id : FrameId) : Arena :=
  a.modify id fun f => { f with children := f.children - 1 }

/-- The frame and the frames around it, innermost first. Parents are older than their children. -/
def chain (a : Arena) (id : FrameId) : List Frame :=
  go (id.serial + 1) id
where
  go : Nat → FrameId → List Frame
    | 0, _ => []
    | steps + 1, id =>
      match a.get? id with
      | none => []
      | some f => f :: f.parent.elim [] (go steps)

/-- Frees a frame if nothing holds it, then its parent if nothing else held that, and so on. -/
def settle (a : Arena) (id : FrameId) : Arena :=
  go (id.serial + 1) a id
where
  go : Nat → Arena → FrameId → Arena
    | 0, a, _ => a
    | steps + 1, a, id =>
      match a.get? id with
      | none => a
      | some f =>
        if f.held = 0 then
          let a := a.vacate id
          match f.parent with
          | none => a
          | some parent => go steps (a.loseChild parent) parent
        else a

/-- Ends an activation of a frame, and frees the frame if nothing holds it any more. -/
def endActivation (a : Arena) (id : FrameId) : Arena :=
  (a.modify id Frame.deactivate).settle id

end Arena
end ScriptVM
