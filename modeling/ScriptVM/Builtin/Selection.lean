import ScriptVM.Machine.Protocol

/-!
# Positions and repetition

What the argument of `Index` selects from a sequence, and the repetition of a sequence. A
negative position counts from the end; a pair of positions selects the stretch between them. A
negative number of repetitions also reverses the result.
-/
namespace ScriptVM

/-- What is selected from a sequence. -/
inductive Selection where
  | single (position : Nat)
  /-- From a position up to another one that is not before it. -/
  | stretch (first last : Nat)
  deriving DecidableEq, Repr

/-- A position in a sequence, wrapped once if negative. A bound of a stretch may also stand at
the end. -/
def position? (length : Nat) (index : Int64) (isBound : Bool) : Option Nat :=
  let wrapped := if index < 0 then index.toInt + length else index.toInt
  let limit : Int := if isBound then length + 1 else length
  if 0 ≤ wrapped ∧ wrapped < limit then some wrapped.toNat else none

/-- The part of a list that is selected; a single item for a position. -/
def Selection.pick {α : Type} (items : List α) : Selection → List α
  | .single position => (items.drop position).take 1
  | .stretch first last => (items.take last).drop first

/-- A position of an item lies before the end. -/
theorem lt_of_position? {length : Nat} {index : Int64} {i : Nat}
    (h : position? length index false = some i) : i < length := by
  simp only [position?, Option.ite_none_right_eq_some, Bool.false_eq_true, if_false,
    Option.some.injEq] at h
  obtain ⟨hb, rfl⟩ := h
  omega

/-- A bound of a stretch lies at the end or before it. -/
theorem le_of_position? {length : Nat} {index : Int64} {i : Nat}
    (h : position? length index true = some i) : i ≤ length := by
  simp only [position?, Option.ite_none_right_eq_some, if_true, Option.some.injEq] at h
  obtain ⟨hb, rfl⟩ := h
  omega

theorem pick_single {α : Type} {items : List α} {i : Nat} (h : i < items.length) :
    (Selection.single i).pick items = [items[i]] := by
  rw [Selection.pick, List.drop_eq_getElem_cons h]
  rfl

theorem length_pick_stretch {α : Type} {items : List α} {first last : Nat}
    (h : last ≤ items.length) :
    ((Selection.stretch first last).pick items).length = last - first := by
  simp [Selection.pick, Nat.min_eq_left h]

open Run

/-- A position in a sequence, or a failure. -/
def expectPosition (length : Nat) (index : Int64) (isBound : Bool) : Run Nat :=
  match position? length index isBound with
  | some position => return position
  | none => fail (.indexOutOfRange length index)

/-- What an index value selects from a sequence of some length. -/
def select (length : Nat) (index : Value) : Run Selection := do
  match ← kindOf index with
  | .integer n => return .single (← expectPosition length n false)
  | .tuple [low, high] | .array [low, high] => do
    let first ← expectPosition length (← Engine.expectInteger low) true
    let last ← expectPosition length (← Engine.expectInteger high) true
    return .stretch first (max first last)
  | _ => failType index ["Integer", "Tuple"]

/-- So many bytes no memory holds: two to the power 47. -/
def memoryLimit : Nat := 0x800000000000

/-- A list of items, each so many bytes large, repeated; `none` when memory cannot hold it. -/
def repeat? {α : Type} (itemBytes : Nat) (items : List α) (times : Int64) : Option (List α) :=
  let count := times.toInt.natAbs
  if items.isEmpty ∨ count = 0 then some []
  else if memoryLimit ≤ items.length * count * itemBytes then none
  else
    let repeated := (List.replicate count items).flatten
    some (if times < 0 then repeated.reverse else repeated)

/-- A list of items repeated, or a failure. -/
def repetition {α : Type} (itemBytes : Nat) (items : List α) (times : Int64) : Run (List α) :=
  match repeat? itemBytes items times with
  | some repeated => return repeated
  | none => fail (.repetitionTooLarge items.length times)

end ScriptVM
