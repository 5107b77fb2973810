import ScriptVM.Lowering.Expression
import ScriptVM.Code.Cursor

/-!
# Cursors before a piece of code

A cursor is at a piece of code when the piece is what comes next under it. Pieces follow each other,
and jumps and bodies move the cursor by lengths of pieces.
-/
namespace ScriptVM

/-- Code that is made from parts has the code of its parts. -/
theorem bind_eq_ok {ε α β : Type} {x : Except ε α} {f : α → Except ε β} {b : β}
    (h : x >>= f = .ok b) : ∃ a, x = .ok a ∧ f a = .ok b := by
  cases x with
  | error => cases h
  | ok a => exact ⟨a, rfl, h⟩

theorem eq_ok_of_toOption {ε α : Type} {x : Except ε α} {a : α} (h : x.toOption = some a) :
    x = .ok a := by
  cases x with
  | error => cases h
  | ok b =>
    cases h
    rfl

namespace Cursor

/-- The cursor a number of instructions further on. -/
def skip (c : Cursor) (count : Nat) : Cursor := { c with index := c.index + count }

@[simp] theorem index_skip (c : Cursor) (count : Nat) : (c.skip count).index = c.index + count := rfl

@[simp] theorem toView_skip (c : Cursor) (count : Nat) : (c.skip count).toView = c.toView := rfl

@[simp] theorem skip_zero (c : Cursor) : c.skip 0 = c := rfl

@[simp] theorem skip_skip (c : Cursor) (a b : Nat) : (c.skip a).skip b = c.skip (a + b) := by
  simp [skip, Nat.add_assoc]

/-- Whether a piece of code comes next. -/
def At (c : Cursor) (code : Block) : Prop := code <+: c.instructions.drop c.index

theorem at_append {c : Cursor} {a b : Block} :
    c.At (a ++ b) ↔ c.At a ∧ (c.skip a.length).At b := by
  unfold At
  simp only [toView_skip, index_skip]
  rw [← List.drop_drop]
  constructor
  · rintro ⟨rest, h⟩
    refine ⟨⟨b ++ rest, by rw [← h, List.append_assoc]⟩, rest, ?_⟩
    rw [← h, List.append_assoc, List.drop_left]
  · rintro ⟨⟨rest, h⟩, rest', h'⟩
    refine ⟨rest', ?_⟩
    rw [← h, List.drop_left] at h'
    rw [← h, ← h', List.append_assoc]

theorem At.next? {c : Cursor} {i : Instruction} {rest : Block} (h : c.At (i :: rest)) :
    c.next? = some (i, c.skip 1) := by
  obtain ⟨tail, htail⟩ := h
  have hi : c.instructions[c.index]? = some i := by
    have hhead : (c.instructions.drop c.index)[0]? = some i := by simp [← htail]
    simpa using hhead
  rw [next?_eq, hi]
  rfl

theorem At.tail {c : Cursor} {i : Instruction} {rest : Block} (h : c.At (i :: rest)) :
    (c.skip 1).At rest :=
  (at_append (a := [i]).1 h).2

theorem At.index_add_length_le {c : Cursor} {code : Block} (h : c.At code) (hc : code ≠ []) :
    c.index + code.length ≤ c.length := by
  have hle := h.length_le
  have hpos : 0 < code.length := List.length_pos_iff.2 hc
  rw [List.length_drop, View.length_instructions] at hle
  omega

/-- A cursor at the start of a list of instructions is at all of them. -/
theorem at_ofList (code : Block) : (ofList code).At code := by
  simp [At, ofList, ofView]

/-- Jumping forward over code moves the cursor behind it, unless the code is larger than any
buffer. -/
theorem jump_eq_skip {c : Cursor} {offset : Nat} (h : c.index + offset ≤ Text.maxCount) :
    c.jump offset = c.skip offset := by
  simp [jump, skip, saturatingAdd, Nat.min_eq_left h]

/-- A body that comes next is set aside as code of its own. -/
theorem At.cut {c : Cursor} {code : Block} (h : c.At code) (hc : code ≠ []) :
    c.cut code.length = (View.ofList code, c.skip code.length) := by
  have hlength := h.index_add_length_le hc
  obtain ⟨rest, hrest⟩ := h
  unfold Cursor.cut take
  rw [View.detached_eq, View.instructions_sub, ← hrest, List.take_left, Nat.min_eq_left hlength]
  rfl

end Cursor
end ScriptVM
