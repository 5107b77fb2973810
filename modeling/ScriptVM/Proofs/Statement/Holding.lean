import ScriptVM.Proofs.Code.Control
import ScriptVM.Proofs.Code.Locality

/-!
# Code with open loop controls

The code of a statement in a loop stands in longer code with jumps in the place of its marks. Each
jump leads to where the loop around the statement ends, tests or begins its body.
-/
namespace ScriptVM

/-- Where the controls of a loop lead. -/
structure LoopTargets where
  exit : Cursor
  test : Cursor
  body : Cursor

/-- An operation stands in longer code for an operation in front of a cursor. -/
structure Op.StandsFor (op : Op) (after : Cursor) (t : LoopTargets) (source : Op) : Prop where
  unmarked : source.isLoopMark = false → op = source
  breaks : source = .breakMark → ∃ offset, op = .jump offset ∧ after.jump offset = t.exit
  continues : source = .continueMark → ∃ offset, op = .jump offset ∧ after.jump offset = t.test
  redoes : source = .redoMark → ∃ offset, op = .jumpBack offset ∧
    after.jumpBack? offset = some t.body

/-- Code with jumps in the place of its marks comes next. -/
structure Cursor.Holds (c : Cursor) (t : LoopTargets) (code : Block) : Prop where
  inside : c.index + code.length ≤ c.length
  fits : c.length ≤ Text.maxCount
  here : ∀ p i, code[p]? = some i → ∃ op : Op,
    (c.skip p).next? = some (⟨op, i.line⟩, c.skip (p + 1)) ∧ op.StandsFor (c.skip (p + 1)) t i.op

section holding

variable {c : Cursor} {t : LoopTargets} {code a b : Block}

theorem Op.standsFor_self {op : Op} (h : op.isLoopMark = false) (after : Cursor) (t : LoopTargets) :
    op.StandsFor after t op := by
  refine ⟨fun _ => rfl, ?_, ?_, ?_⟩
  all_goals
    rintro rfl
    cases h

namespace Cursor

theorem Stands.append (h : c.Stands (a ++ b)) : c.Stands a ∧ (c.skip a.length).Stands b := by
  obtain ⟨ha, hb⟩ := at_append.1 h.here
  have hinside := h.inside
  rw [List.length_append] at hinside
  refine ⟨⟨ha, by omega, h.fits⟩, hb, ?_, h.fits⟩
  simp only [index_skip, toView_skip]
  omega

theorem Holds.append (h : c.Holds t (a ++ b)) : c.Holds t a ∧ (c.skip a.length).Holds t b := by
  have hinside := h.inside
  rw [List.length_append] at hinside
  refine ⟨⟨by omega, h.fits, fun p i hi => ?_⟩, ?_, h.fits, fun p i hi => ?_⟩
  · refine h.here p i ?_
    rw [List.getElem?_append_left (List.getElem?_eq_some_iff.1 hi).1, hi]
  · simp only [index_skip, toView_skip]
    omega
  · have hhere := h.here (a.length + p) i (by
      rw [List.getElem?_append_right (Nat.le_add_right _ _), Nat.add_sub_cancel_left, hi])
    simpa only [skip_skip, Nat.add_assoc] using hhere

/-- Code without marks stands as it is. -/
theorem Holds.stands (h : c.Holds t code) (hunmarked : ∀ i ∈ code, i.op.isLoopMark = false) :
    c.Stands code := by
  refine ⟨?_, h.inside, h.fits⟩
  rw [At, List.prefix_iff_getElem?]
  intro p hp
  obtain ⟨op, hnext, hop⟩ := h.here p code[p] (List.getElem?_eq_getElem hp)
  have heq := hop.unmarked (hunmarked _ (List.getElem_mem hp))
  rw [next?_eq, Option.map_eq_some_iff] at hnext
  obtain ⟨i, hi, hpair⟩ := hnext
  rw [List.getElem?_drop]
  simp only [toView_skip, index_skip] at hi
  rw [hi, (Prod.mk.inj hpair).1, heq]

theorem Stands.holds (h : c.Stands code) (hunmarked : ∀ i ∈ code, i.op.isLoopMark = false)
    (t : LoopTargets) : c.Holds t code := by
  refine ⟨h.inside, h.fits, fun p i hi => ⟨i.op, h.next? hi, ?_⟩⟩
  exact Op.standsFor_self (hunmarked i (List.mem_of_getElem? hi)) _ t

/-- The body of a loop, once its marks are jumps, holds the body with its marks. -/
theorem Stands.resolve {layout : LoopLayout} (hlayout : layout.bodyLength = code.length)
    (h : c.Stands (layout.resolveFrom 0 code))
    (hfits : c.index + code.length + layout.tail ≤ c.length) :
    c.Holds ⟨c.skip (code.length + layout.tail), c.skip code.length, c⟩ code := by
  have hinside := h.inside
  rw [length_resolveFrom] at hinside
  have hmax := h.fits
  refine ⟨hinside, h.fits, fun p i hi => ?_⟩
  have hp : p < code.length := (List.getElem?_eq_some_iff.1 hi).1
  have hresolved : (layout.resolveFrom 0 code)[p]? =
      some { i with op := layout.resolve p i.op } := by
    rw [LoopLayout.getElem?_resolveFrom, hi, Nat.zero_add]
    rfl
  refine ⟨layout.resolve p i.op, h.next? hresolved, fun hop =>
    layout.resolve_of_unmarked hop p, ?_, ?_, ?_⟩
  · intro hop
    refine ⟨code.length + layout.tail - (p + 1), ?_, ?_⟩
    · rw [hop]
      simp only [LoopLayout.resolve, LoopLayout.tail]
      split <;> congr 1 <;> omega
    · rw [jump_eq_skip (by simp only [index_skip]; omega), skip_skip]
      congr 1
      have : 1 ≤ layout.tail := by
        unfold LoopLayout.tail
        split <;> omega
      omega
  · intro hop
    refine ⟨layout.bodyLength - p - 1, by rw [hop]; rfl, ?_⟩
    rw [jump_eq_skip (by simp only [index_skip]; omega), skip_skip]
    congr 1
    omega
  · intro hop
    refine ⟨p + 1, by rw [hop]; rfl, ?_⟩
    rw [jumpBack?_skip (Nat.le_refl _), Nat.sub_self, skip_zero]

end Cursor

end holding
end ScriptVM
