import ScriptVM.Frame.Reference

/-!
# Counting references

An object exists as long as something that exists refers to it, and a frame knows how many
references hold it. A `Tally` keeps both counts up to date: an object that is referred to for the
first time begins to refer to its parts, and one that loses its last reference lets go of them,
each part and all that goes with it before the next. Objects that only refer to each other go on
existing, and so do the frames that they hold.
-/
namespace ScriptVM

/-- How often each object is referred to and each frame is held, and the frames that lost their
last holder and that have not been looked at since, latest first. -/
structure Tally where
  arena : Arena
  counts : Array Nat
  dropped : List FrameId
  deriving Inhabited

namespace Tally

/-- How often an object is referred to. -/
def count (t : Tally) (v : Value) : Nat := t.counts.getD v.address 0

/-- Sets the count of an object. -/
def setCount : Tally → Value → Nat → Tally
  | ⟨arena, counts, dropped⟩, v, n => ⟨arena, counts.setIfInBounds v.address n, dropped⟩

/-- Changes the arena. -/
def mapArena : Tally → (Arena → Arena) → Tally
  | ⟨arena, counts, dropped⟩, change => ⟨change arena, counts, dropped⟩

/-- Makes room for the counts of new objects, which nothing refers to yet. -/
def fit (h : Heap) : Tally → Tally
  | ⟨arena, counts, dropped⟩ =>
    ⟨arena, counts ++ Array.replicate (h.objects.size - counts.size) 0, dropped⟩

/-- Takes a holder away from a frame, if it is live. -/
def loseHolder : Tally → FrameId → Tally
  | ⟨arena, counts, dropped⟩, id =>
    let isLast := (arena.get? id).any fun f => f.holders = 1
    ⟨arena.modify id fun f => { f with holders := f.holders - 1 }, counts,
      if isLast then id :: dropped else dropped⟩

/-- Notes a reference without looking at what it refers to. -/
def note : Tally → Reference → Tally
  | ⟨arena, counts, dropped⟩, .value v => ⟨arena, counts.modify v.address (· + 1), dropped⟩
  | ⟨arena, counts, dropped⟩, .code id => ⟨arena.retain id, counts, dropped⟩
  | ⟨arena, counts, dropped⟩, .frame id => ⟨arena.retain id, counts, dropped⟩

/-- Notes new references. At most `births` objects begin to exist. -/
def hold (h : Heap) (births : Nat) (new : List Reference) (t : Tally) : Tally :=
  match births, new with
  | _, [] => t
  | births, .code id :: rest => hold h births rest (t.mapArena fun a => a.retain id)
  | births, .frame id :: rest => hold h births rest (t.mapArena fun a => a.retain id)
  | 0, .value _ :: _ => t
  | births + 1, .value v :: rest =>
    let count := t.count v
    if count = 0 then hold h births ((h.get v).parts ++ rest) (t.setCount v 1)
    else hold h (births + 1) rest (t.setCount v (count + 1))
termination_by (births, new.length)

/-- Takes references back, in order. At most `deaths` objects cease to exist. -/
def letGo (h : Heap) (deaths : Nat) (gone : List Reference) (t : Tally) : Tally :=
  match deaths, gone with
  | _, [] => t
  | deaths, .code id :: rest => letGo h deaths rest (t.loseHolder id)
  | deaths, .frame id :: rest => letGo h deaths rest (t.loseHolder id)
  | 0, .value _ :: _ => t
  | deaths + 1, .value v :: rest =>
    let count := t.count v
    if count = 1 then letGo h deaths ((h.get v).parts ++ rest) (t.setCount v 0)
    else letGo h (deaths + 1) rest (t.setCount v (count - 1))
termination_by (deaths, gone.length)

@[simp] theorem arena_setCount (t : Tally) (v : Value) (n : Nat) :
    (t.setCount v n).arena = t.arena := rfl

@[simp] theorem size_counts_setCount (t : Tally) (v : Value) (n : Nat) :
    (t.setCount v n).counts.size = t.counts.size := by
  simp [setCount]

theorem count_setCount (t : Tally) (v : Value) (n : Nat) (h : v.address < t.counts.size) :
    (t.setCount v n).count v = n := by
  simp [setCount, count, h]

theorem count_setCount_of_ne (t : Tally) {v w : Value} (n : Nat) (h : v.address ≠ w.address) :
    (t.setCount v n).count w = t.count w := by
  simp [setCount, count, Array.getElem?_setIfInBounds_ne h]

@[simp] theorem arena_fit (h : Heap) (t : Tally) : (t.fit h).arena = t.arena := rfl

/-- New objects begin without references, and no other count changes. -/
@[simp] theorem count_fit (h : Heap) (t : Tally) (v : Value) : (t.fit h).count v = t.count v := by
  simp only [fit, count, Array.getD_eq_getD_getElem?, Array.getElem?_append,
    Array.getElem?_replicate]
  split
  · rfl
  · split <;> simp_all

@[simp] theorem counts_loseHolder (t : Tally) (id : FrameId) :
    (t.loseHolder id).counts = t.counts := rfl

@[simp] theorem hold_nil (h : Heap) (births : Nat) (t : Tally) : t.hold h births [] = t := by
  unfold hold
  rfl

@[simp] theorem letGo_nil (h : Heap) (deaths : Nat) (t : Tally) : t.letGo h deaths [] = t := by
  unfold letGo
  rfl

/-- The tally of an arena and a heap whose owner keeps something. Every object is counted once for
itself, and this reference is taken back at last, so what nothing else refers to ceases to exist.
All live frames are to be looked at. -/
def ofState (a : Arena) (h : Heap) (kept : List Reference) : Tally :=
  let unheld := a.frames.map fun frame => frame.map fun f => { f with holders := 0 }
  let blank : Tally := ⟨{ a with frames := unheld }, Array.replicate h.objects.size 1, []⟩
  let fromObjects := h.objects.foldl (fun t o => o.parts.foldl note t) blank
  let fromFrames :=
    a.frames.foldl (fun t frame => (frame.elim [] Frame.parts).foldl note t) fromObjects
  let all := kept.foldl note fromFrames
  match (List.range h.objects.size).foldl
      (fun t i => t.letGo h (h.objects.size + 1) [.value ⟨i⟩]) all with
  | ⟨arena, counts, _⟩ =>
    ⟨arena, counts, (List.range arena.slots.size).reverse.filterMap arena.idInSlot?⟩

end Tally
end ScriptVM
