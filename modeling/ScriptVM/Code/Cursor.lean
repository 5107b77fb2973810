import ScriptVM.Code.Op
import ScriptVM.Text.Integer

/-!
# Views and cursors

Code lives in one buffer. A view is a stretch of that buffer, and a cursor is a view with a
position in it. Bodies of functions, classes and generators are views of the buffer that holds
their definition, so nothing is copied. A view never reaches outside the view it was cut from,
because offsets and lengths are clamped. A cursor may stand anywhere up to the largest machine
word; past the end of its view it has nothing to offer.
-/
namespace ScriptVM

/-- The sum of two counts, at most the largest machine word. -/
def saturatingAdd (a b : Nat) : Nat := min (a + b) Text.maxCount

/-- A stretch of a buffer of instructions. -/
structure View where
  buffer : Array Instruction
  start : Nat
  stop : Nat
  start_le_stop : start ≤ stop
  stop_le_size : stop ≤ buffer.size

namespace View

/-- The whole of a list of instructions. -/
def ofList (code : List Instruction) : View where
  buffer := code.toArray
  start := 0
  stop := code.toArray.size
  start_le_stop := Nat.zero_le _
  stop_le_size := Nat.le_refl _

instance : Inhabited View := ⟨ofList []⟩

/-- How many instructions the view holds. -/
def length (v : View) : Nat := v.stop - v.start

/-- The instructions of the view. -/
def instructions (v : View) : List Instruction := (v.buffer.extract v.start v.stop).toList

/-- The stretch of `length` instructions that starts `offset` instructions into the view, cut
off at the view's end. -/
def sub (v : View) (offset length : Nat) : View where
  buffer := v.buffer
  start := min (v.start + offset) v.stop
  stop := min (min (v.start + offset) v.stop + length) v.stop
  start_le_stop := by omega
  stop_le_size := Nat.le_trans (Nat.min_le_right _ _) v.stop_le_size

/-- The instructions of the view as a buffer of their own. -/
def detached (v : View) : View where
  buffer := v.buffer.extract v.start v.stop
  start := 0
  stop := (v.buffer.extract v.start v.stop).size
  start_le_stop := Nat.zero_le _
  stop_le_size := Nat.le_refl _

theorem detached_eq (v : View) : v.detached = ofList v.instructions := by
  simp only [detached, ofList, instructions, Array.toArray_toList]

@[simp] theorem length_ofList (code : List Instruction) : (ofList code).length = code.length := by
  simp [ofList, length]

@[simp] theorem instructions_ofList (code : List Instruction) :
    (ofList code).instructions = code := by
  simp [ofList, instructions]

@[simp] theorem length_sub (v : View) (offset count : Nat) :
    (v.sub offset count).length = min count (v.length - offset) := by
  simp only [sub, length]
  omega

theorem instructions_eq (v : View) :
    v.instructions = (v.buffer.toList.drop v.start).take v.length := by
  simp [instructions, length]

@[simp] theorem length_instructions (v : View) : v.instructions.length = v.length := by
  have h := v.stop_le_size
  simp [instructions, length]
  omega

/-- A stretch of a view holds the stretch of its instructions. -/
theorem instructions_sub (v : View) (offset count : Nat) :
    (v.sub offset count).instructions = (v.instructions.drop offset).take count := by
  have hs := v.start_le_stop
  have hb := v.stop_le_size
  rw [instructions_eq, instructions_eq, length_sub]
  simp only [sub, length, List.drop_take, List.take_take, List.drop_drop]
  by_cases h : v.start + offset ≤ v.stop
  · rw [Nat.min_eq_left h]
  · have hzero : v.stop - v.start - offset = 0 := by omega
    simp [hzero]

end View

/-- A view and a position in it, counted from the view's start. -/
structure Cursor extends View where
  index : Nat
  deriving Inhabited

namespace Cursor

/-- The cursor at the start of a view. -/
def ofView (v : View) : Cursor := ⟨v, 0⟩

/-- The cursor at the start of a list of instructions. -/
def ofList (code : List Instruction) : Cursor := ofView (View.ofList code)

/-- Whether an instruction stands under the cursor. -/
def hasNext (c : Cursor) : Bool := c.index < c.length

/-- The instruction under the cursor, and the cursor after it. -/
def next? (c : Cursor) : Option (Instruction × Cursor) :=
  if h : c.index < c.length then
    have inside : c.start + c.index < c.buffer.size := by
      have := c.stop_le_size
      unfold View.length at h
      omega
    some (c.buffer[c.start + c.index], { c with index := c.index + 1 })
  else none

/-- Skips forward. A target past the end leaves nothing under the cursor. -/
def jump (c : Cursor) (offset : Nat) : Cursor :=
  { c with index := saturatingAdd c.index offset }

/-- Goes back; `none` when the target lies before the start of the view. -/
def jumpBack? (c : Cursor) (offset : Nat) : Option Cursor :=
  if offset ≤ c.index then some { c with index := c.index - offset } else none

/-- The next `count` instructions as a view of their own, and the cursor after them. -/
def take (c : Cursor) (count : Nat) : View × Cursor :=
  (c.toView.sub c.index count,
    { c with index := min (c.index + count) c.length })

/-- The next `count` instructions as code of their own, and the cursor after them. -/
def cut (c : Cursor) (count : Nat) : View × Cursor :=
  ((c.take count).1.detached, (c.take count).2)

/-- The cursor at the start of the same view. -/
def rewound (c : Cursor) : Cursor := { c with index := 0 }

theorem next?_eq_none_iff (c : Cursor) : c.next? = none ↔ c.length ≤ c.index := by
  unfold next?
  split <;> simp_all

/-- The instruction under the cursor is the one at its position in the view. -/
theorem next?_eq (c : Cursor) :
    c.next? = (c.instructions[c.index]?).map fun i => (i, { c with index := c.index + 1 }) := by
  unfold next?
  split
  · rename_i h
    have hi : c.index < c.instructions.length := by simpa using h
    rw [List.getElem?_eq_getElem hi]
    simp [View.instructions]
  · rename_i h
    have hi : c.instructions.length ≤ c.index := by simpa using h
    simp [List.getElem?_eq_none hi]

@[simp] theorem toView_jump (c : Cursor) (offset : Nat) : (c.jump offset).toView = c.toView := rfl

theorem jumpBack?_eq_none_iff (c : Cursor) (offset : Nat) :
    c.jumpBack? offset = none ↔ c.index < offset := by
  unfold jumpBack?
  split <;> simp <;> omega

theorem toView_of_jumpBack? {c d : Cursor} {offset : Nat} (h : c.jumpBack? offset = some d) :
    d.toView = c.toView := by
  unfold jumpBack? at h
  split at h
  · cases h
    rfl
  · cases h

@[simp] theorem toView_take (c : Cursor) (count : Nat) : (c.take count).2.toView = c.toView := rfl

end Cursor
end ScriptVM
