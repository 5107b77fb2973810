import ScriptVM.Frame.Trial

/-!
# Collection of frames

A closure that is stored in the frame it closes over holds that frame, so counting holders is not
enough to free frames. A `Holding` is an arena and a heap with the frames and values that their
owner keeps, and the tally of all references. A frame that nothing holds is freed at once;
collection looks for garbage among what some idle frames can reach.
-/
namespace ScriptVM

/-- An arena and a heap, what their owner keeps of them, and the tally of all references. -/
structure Holding extends Tally where
  heap : Heap
  frames : Bindings FrameId
  values : Bindings Value
  deriving Inhabited

namespace Holding

/-- The holding of an owner who keeps something, with a tally of all references that is made afresh. -/
def ofState (a : Arena) (h : Heap) (kept : List Reference) : Holding :=
  ⟨Tally.ofState a h kept, h, .numbered (kept.filterMap Reference.scope?),
    .numbered (kept.filterMap Reference.value?)⟩

/-- Changes the arena. -/
def mapArena : Holding → (Arena → Arena) → Holding
  | ⟨t, heap, frames, values⟩, change => ⟨t.mapArena change, heap, frames, values⟩

/-- Notes new references. -/
def hold : Holding → List Reference → Holding
  | ⟨t, heap, frames, values⟩, new =>
    ⟨(t.fit heap).hold heap (heap.objects.size + 1) new, heap, frames, values⟩

/-- Takes references back, in order. -/
def letGo : Holding → List Reference → Holding
  | ⟨t, heap, frames, values⟩, gone =>
    ⟨t.letGo heap (heap.objects.size + 1) gone, heap, frames, values⟩

/-- All live frames, in the order of their slots. -/
def liveFrames (s : Holding) : List FrameId :=
  (List.range s.arena.slots.size).filterMap s.arena.idInSlot?

/-- Whether an activation runs in a frame. -/
def isActive (s : Holding) (id : FrameId) : Bool := (s.arena.get? id).any Frame.isActive

/-- The live frames without running activations. -/
def idleFrames (s : Holding) : List FrameId := s.liveFrames.filter fun id => ! s.isActive id

/-- Frees a frame if nothing holds it, then its parent if nothing else held that, and so on. What
was in a frame is let go before its parent is looked at. -/
def settle (s : Holding) (id : FrameId) : Holding :=
  go (id.serial + 1) s id
where
  go : Nat → Holding → FrameId → Holding
    | 0, s, _ => s
    | steps + 1, s, id =>
      match s.arena.get? id with
      | none => s
      | some f =>
        if f.held = 0 then
          let s := s.mapArena fun a => a.vacate id
          match f.parent with
          | none => s.letGo f.parts
          | some parent => go steps ((s.mapArena fun a => a.loseChild parent).letGo f.parts) parent
        else s

/-- Takes the frames that are to be looked at, oldest first. -/
def takeDropped : Holding → List FrameId × Holding
  | ⟨⟨arena, counts, dropped⟩, heap, frames, values⟩ =>
    (dropped.reverse, ⟨⟨arena, counts, []⟩, heap, frames, values⟩)

/-- Looks at the frames whose last holder went away, and at those that lose theirs meanwhile. -/
def settleDropped (s : Holding) : Holding :=
  go (s.arena.slots.size + 1) s
where
  go : Nat → Holding → Holding
    | 0, s => s
    | rounds + 1, s =>
      match s.takeDropped with
      | ([], s) => s
      | (pending, s) => go rounds (pending.foldl settle s)

/-- What a search finds in a place. Frames with running activations are not looked into. -/
def references (s : Holding) : Reference → List Reference
  | .value v => (s.heap.get v).references
  | .code scope => [.frame scope]
  | .frame id =>
    match s.arena.get? id with
    | some f => if f.isActive then [] else f.references
    | none => []

/-- The search from some frames. -/
def trial (s : Holding) (start : List FrameId) : Trial := Trial.search s.references start

/-- Whether more refers to a place than was found. Code has one holder, where it was found. -/
def isHeld (s : Holding) (place : Reference) (found : Nat) : Bool :=
  match place with
  | .value v => found < s.count v
  | .code _ => false
  | .frame id => (s.arena.get? id).all fun f => found < f.held

/-- Frees the garbage among what some frames can reach. -/
def collectFrom (s : Holding) (start : List FrameId) : Holding :=
  let garbage := (s.trial start).garbage s.isHeld
  let freed := garbage.filterMap s.arena.get?
  let s := s.mapArena fun a => garbage.foldl Arena.vacate a
  let parents := (freed.filterMap Frame.parent).filter fun id => s.arena.isLive id
  let s := s.mapArena fun a => parents.foldl Arena.loseChild a
  parents.foldl settle (s.letGo (freed.flatMap Frame.parts))

/-- Ends an activation. A frame that nothing holds is freed at once, one that is still held is
checked for garbage. -/
def release (s : Holding) (id : FrameId) : Holding :=
  match s.arena.get? id with
  | none => s
  | some f =>
    let operands := if f.active ≤ 1 then f.operands else []
    let s := ((s.mapArena fun a => a.modify id Frame.deactivate).letGo operands).settle id
    let s := if s.arena.isLive id && ! s.isActive id then s.collectFrom [id] else s
    s.settleDropped

/-- Frees every frame that is not reachable, cycles included, as far as one search can tell. -/
def collect (s : Holding) : Holding :=
  let s := s.settleDropped
  (s.collectFrom s.idleFrames).settleDropped

end Holding
end ScriptVM
