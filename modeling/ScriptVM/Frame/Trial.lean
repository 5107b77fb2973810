import Std.Data.HashMap
import ScriptVM.Frame.Tally

/-!
# Trial deletion

The search for garbage among what some frames can reach. A `Trial` numbers the objects, the code
and the frames that it meets, and counts how often it came upon each. What is referred to more
often than that is held from outside; what cannot be reached from there is garbage. Frames with
running activations are held from outside and are not looked into, and a search that has met too
much stops looking further, which can only make it find less garbage.
-/
namespace ScriptVM

/-- How many places a search may have met when it looks into another one. -/
def trialLimit : Nat := 0x10000

/-- A search for garbage: the numbers of the objects by address and of the frames by their own, what
was met, how often it was found, what was found in it, and what is still to be looked into, latest
first. -/
structure Trial where
  objects : Std.HashMap Nat Nat
  frames : Std.HashMap Nat Nat
  places : Array Reference
  found : Array Nat
  edges : Array (List Nat)
  pending : List Nat

namespace Trial

/-- Nothing met. -/
def empty : Trial := ⟨∅, ∅, #[], #[], #[], []⟩

/-- The number of a place that was met before. Code belongs to what was just looked into and is
always new. -/
def number? (t : Trial) : Reference → Option Nat
  | .value v => t.objects[v.address]?
  | .code _ => none
  | .frame id => t.frames[id.serial]?

/-- Meets a new place, which is to be looked into. -/
def add : Trial → Reference → Trial
  | ⟨objects, frames, places, found, edges, pending⟩, r =>
    let n := places.size
    let objects := match r with
      | .value v => objects.insert v.address n
      | _ => objects
    let frames := match r with
      | .frame id => frames.insert id.serial n
      | _ => frames
    ⟨objects, frames, places.push r, found.push 0, edges.push [], n :: pending⟩

/-- Meets a place, and gives its number. -/
def meet (t : Trial) (r : Reference) : Nat × Trial :=
  match t.number? r with
  | some n => (n, t)
  | none => (t.places.size, t.add r)

/-- Counts that a place was found once more. -/
def countFound : Trial → Nat → Trial
  | ⟨objects, frames, places, found, edges, pending⟩, n =>
    ⟨objects, frames, places, found.modify n (· + 1), edges, pending⟩

/-- Sets what was found in a place. -/
def setEdges : Trial → Nat → List Nat → Trial
  | ⟨objects, frames, places, found, edges, pending⟩, n, targets =>
    ⟨objects, frames, places, found, edges.setIfInBounds n targets, pending⟩

/-- Finds references one after the other; gives their numbers too. -/
def findAll : Trial → List Reference → List Nat → List Nat × Trial
  | t, [], targets => (targets, t)
  | t, r :: rest, targets =>
    let (n, t) := t.meet r
    findAll (t.countFound n) rest (n :: targets)

/-- Looks into a place. -/
def expand (next : Reference → List Reference) (t : Trial) (n : Nat) : Trial :=
  match t.places[n]? with
  | none => t
  | some place =>
    let (targets, t) := t.findAll (next place) []
    t.setEdges n targets

/-- Goes on until nothing is pending, or too much was met. -/
def run (next : Reference → List Reference) : Nat → Trial → Trial
  | 0, t => t
  | rounds + 1, ⟨objects, frames, places, found, edges, pending⟩ =>
    match pending with
    | [] => ⟨objects, frames, places, found, edges, []⟩
    | n :: rest =>
      if trialLimit < places.size then ⟨objects, frames, places, found, edges, n :: rest⟩
      else run next rounds (expand next ⟨objects, frames, places, found, edges, rest⟩ n)

/-- The search from some frames. -/
def search (next : Reference → List Reference) (start : List FrameId) : Trial :=
  run next (trialLimit + 1) (start.foldl (fun t id => (t.meet (.frame id)).2) empty)

@[simp] theorem places_add (t : Trial) (r : Reference) :
    (t.add r).places = t.places.push r := rfl

@[simp] theorem places_countFound (t : Trial) (n : Nat) :
    (t.countFound n).places = t.places := rfl

@[simp] theorem places_setEdges (t : Trial) (n : Nat) (targets : List Nat) :
    (t.setEdges n targets).places = t.places := rfl

/-- A search never forgets a place. -/
theorem size_le_size_meet (t : Trial) (r : Reference) :
    t.places.size ≤ (t.meet r).2.places.size := by
  unfold meet
  split <;> simp

theorem size_le_size_findAll (t : Trial) (rs : List Reference) (targets : List Nat) :
    t.places.size ≤ (t.findAll rs targets).2.places.size := by
  induction rs generalizing t targets with
  | nil => exact Nat.le_refl _
  | cons r rest ih =>
    refine Nat.le_trans (size_le_size_meet t r) ?_
    simpa [findAll] using ih ((t.meet r).2.countFound (t.meet r).1) ((t.meet r).1 :: targets)

/-- Whether a search met more than it may. -/
def isOverLimit (t : Trial) : Bool := trialLimit < t.places.size

/-- Marks what can be reached from marked places. -/
def spread (edges : Array (List Nat)) : Nat → List Nat → Array Bool → Array Bool
  | 0, _, marks => marks
  | _, [], marks => marks
  | rounds + 1, n :: rest, marks =>
    let (pending, marks) := (edges.getD n []).foldl
      (fun (pending, marks) target =>
        if marks.getD target true then (pending, marks)
        else (target :: pending, marks.setIfInBounds target true))
      (rest, marks)
    spread edges rounds pending marks

/-- The frames that cannot be reached from what is held from outside, in the order in which they
were met; `isHeld` says whether a place is referred to more often than it was found. -/
def garbage (t : Trial) (isHeld : Reference → Nat → Bool) : List FrameId :=
  let held := (t.places.zip t.found).map fun (place, found) => isHeld place found
  let start := (List.range t.places.size).filter fun n => held.getD n true
  let live := spread t.edges (t.places.size + 1) start held
  (t.places.toList.zip live.toList).filterMap fun (place, isLive) =>
    match place with
    | .frame id => if isLive then none else some id
    | _ => none

end Trial
end ScriptVM
