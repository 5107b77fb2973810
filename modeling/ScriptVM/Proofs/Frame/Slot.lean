import ScriptVM.Proofs.Frame.Arena

/-!
# Slots

Slots are used again, so a frame is only told apart from those that lived in its slot before it, or
will live there after it, as long as it has the slot to itself. It does: a live frame stands in its
own slot, and the slots that are free have no frame and are listed once.
-/
namespace ScriptVM.Arena

/-- Live frames stand in slots of their own, and no frame stands in a free slot. -/
structure Slotted (a : Arena) : Prop where
  home : ∀ id f, a.get? id = some f → a.idInSlot? f.slot = some id
  vacant : ∀ slot ∈ a.free, slot < a.slots.size ∧ a.idInSlot? slot = none
  distinct : a.free.Nodup

instance (a : Arena) : Decidable a.Slotted :=
  decidable_of_iff
    (((List.range a.frames.size).all fun i =>
        (a.get? ⟨i⟩).all fun f => a.idInSlot? f.slot = some ⟨i⟩) ∧
      (∀ slot ∈ a.free, slot < a.slots.size ∧ a.idInSlot? slot = none) ∧ a.free.Nodup) (by
    constructor
    · rintro ⟨hhome, hvacant, hdistinct⟩
      refine ⟨fun id f hf => ?_, hvacant, hdistinct⟩
      have hlive := List.all_eq_true.1 hhome id.serial (List.mem_range.2 (serial_lt_of_get? hf))
      simpa [hf] using hlive
    · intro h
      refine ⟨List.all_eq_true.2 fun i _ => ?_, h.vacant, h.distinct⟩
      cases hf : a.get? ⟨i⟩ with
      | none => rfl
      | some f => exact decide_eq_true (h.home ⟨i⟩ f hf))

variable {a b : Arena} {id : FrameId} {f : Frame}

theorem slotted_empty : empty.Slotted where
  home _ _ hf := absurd (serial_lt_of_get? hf) (Nat.not_lt_zero _)
  vacant _ := nofun
  distinct := List.nodup_nil

theorem idInSlot?_congr (h : b.slots = a.slots) (slot : Nat) :
    b.idInSlot? slot = a.idInSlot? slot := by
  rw [idInSlot?, idInSlot?, h]

theorem lt_of_idInSlot? {slot : Nat} (h : a.idInSlot? slot = some id) : slot < a.slots.size := by
  refine Nat.lt_of_not_le fun hle => ?_
  rw [idInSlot?, Array.getElem?_eq_none hle] at h
  cases h

/-- The same slots, and frames that stand where they stood. -/
theorem Slotted.of_slot (h : a.Slotted) (hslots : b.slots = a.slots) (hfree : b.free = a.free)
    (hget : ∀ id f, b.get? id = some f → ∃ g, a.get? id = some g ∧ f.slot = g.slot) :
    b.Slotted where
  home id f hf := by
    obtain ⟨g, hg, hslot⟩ := hget id f hf
    rw [idInSlot?_congr hslots, hslot]
    exact h.home id g hg
  vacant slot hslot := by
    rw [idInSlot?_congr hslots, hslots]
    exact h.vacant slot (hfree ▸ hslot)
  distinct := hfree ▸ h.distinct

theorem Slotted.modify (h : a.Slotted) (id : FrameId) {change : Frame → Frame}
    (hslot : ∀ f, (change f).slot = f.slot) : (a.modify id change).Slotted := by
  refine h.of_slot rfl rfl fun other f hf => ?_
  rw [get?_modify] at hf
  split at hf
  · subst other
    obtain ⟨g, hg, rfl⟩ := Option.map_eq_some_iff.1 hf
    exact ⟨g, hg, hslot g⟩
  · exact ⟨f, hf, rfl⟩

theorem Slotted.retain (h : a.Slotted) (id : FrameId) : (a.retain id).Slotted := by
  refine h.modify id fun f => ?_
  rfl

theorem Slotted.activate (h : a.Slotted) (id : FrameId) : (a.activate id).Slotted := by
  refine h.modify id fun f => ?_
  rfl

theorem Slotted.deactivate (h : a.Slotted) (id : FrameId) :
    (a.modify id Frame.deactivate).Slotted :=
  h.modify id Frame.slot_deactivate

theorem Slotted.loseChild (h : a.Slotted) (parent : FrameId) : (a.loseChild parent).Slotted := by
  refine h.modify parent fun f => ?_
  rfl

/-! ## Slots that are taken and given back -/

theorem idInSlot?_setIfInBounds (frames : Array (Option Frame)) (slots : Array (Option FrameId))
    (free : List Nat) {slot : Nat} (hslot : slot < slots.size) (occupant : Option FrameId)
    (other : Nat) :
    (⟨frames, slots.setIfInBounds slot occupant, free⟩ : Arena).idInSlot? other =
      if other = slot then occupant else slots[other]?.getD none := by
  rw [idInSlot?, Array.getElem?_setIfInBounds]
  by_cases h : slot = other
  · rw [if_pos h, if_pos h.symm, if_pos (h ▸ hslot)]
    rfl
  · rw [if_neg h, if_neg (Ne.symm h)]

theorem idInSlot?_push (frames : Array (Option Frame)) (slots : Array (Option FrameId))
    (free : List Nat) (occupant : Option FrameId) (other : Nat) :
    (⟨frames, slots.push occupant, free⟩ : Arena).idInSlot? other =
      if other = slots.size then occupant else slots[other]?.getD none := by
  rw [idInSlot?, Array.getElem?_push]
  split <;> rfl

/-- The slot of a new frame was free, or there was no such slot. -/
theorem Slotted.vacant_nextSlot (h : a.Slotted) : a.idInSlot? a.nextSlot = none := by
  unfold nextSlot
  cases hfree : a.free with
  | nil =>
    rw [List.head?_nil, Option.getD_none, idInSlot?, Array.getElem?_eq_none (Nat.le_refl _)]
    rfl
  | cons slot rest => exact (h.vacant slot (hfree ▸ List.mem_cons_self)).2

theorem idInSlot?_place (h : a.Slotted) (f : Frame) (slot : Nat) :
    (a.place f).2.idInSlot? slot =
      if slot = a.nextSlot then some ⟨a.frames.size⟩ else a.idInSlot? slot := by
  unfold place nextSlot
  cases hfree : a.free with
  | nil => exact idInSlot?_push ..
  | cons first rest =>
    exact idInSlot?_setIfInBounds _ _ _ (h.vacant first (hfree ▸ List.mem_cons_self)).1 _ _

theorem free_place (a : Arena) (f : Frame) : (a.place f).2.free = a.free.tail := by
  unfold place
  split
  · rename_i hfree
    rw [hfree]
    rfl
  · rename_i hfree
    rw [hfree]
    rfl

theorem size_slots_place (a : Arena) (f : Frame) : a.slots.size ≤ (a.place f).2.slots.size := by
  unfold place
  split
  · exact Nat.le_of_eq (Array.size_setIfInBounds ..).symm
  · rw [Array.size_push]
    exact Nat.le_succ _

/-- A new frame takes a slot that no live frame stands in. -/
theorem Slotted.place (h : a.Slotted) (f : Frame) : (a.place f).2.Slotted where
  home id g hg := by
    rw [idInSlot?_place h]
    rw [get?_place] at hg
    split at hg
    · rename_i hserial
      cases hg
      rw [if_pos rfl, ← hserial]
    · have hhome := h.home id g hg
      have hne : g.slot ≠ a.nextSlot := by
        intro e
        rw [e, h.vacant_nextSlot] at hhome
        cases hhome
      rwa [if_neg hne]
  vacant slot hslot := by
    rw [free_place] at hslot
    obtain ⟨hlt, hnone⟩ := h.vacant slot (List.mem_of_mem_tail hslot)
    have hne : slot ≠ a.nextSlot := by
      unfold nextSlot
      cases hfree : a.free with
      | nil =>
        rw [hfree] at hslot
        cases hslot
      | cons first rest =>
        rw [hfree] at hslot
        have hdistinct := h.distinct
        rw [hfree] at hdistinct
        rintro rfl
        exact (List.nodup_cons.1 hdistinct).1 hslot
    rw [idInSlot?_place h, if_neg hne]
    exact ⟨Nat.lt_of_lt_of_le hlt (a.size_slots_place f), hnone⟩
  distinct := by
    rw [free_place]
    exact h.distinct.tail

theorem Slotted.alloc (h : a.Slotted) (parent : Option FrameId) (object : Option Value)
    (bindsObject : Bool) : (a.alloc parent object bindsObject).2.Slotted := by
  cases hparent : parent.filter a.isLive with
  | none =>
    rw [alloc_of_dead hparent]
    exact h.place _
  | some p =>
    rw [alloc_of_live hparent]
    refine Slotted.place (h.modify p fun f => ?_) _
    rfl

theorem vacate_of_live (hf : a.get? id = some f) :
    a.vacate id = ⟨a.frames.setIfInBounds id.serial none, a.slots.setIfInBounds f.slot none,
      f.slot :: a.free⟩ := by
  simp only [vacate, slot?, hf, Option.map_some]

theorem idInSlot?_vacate (h : a.Slotted) (hf : a.get? id = some f) (slot : Nat) :
    (a.vacate id).idInSlot? slot = if slot = f.slot then none else a.idInSlot? slot := by
  rw [vacate_of_live hf]
  exact idInSlot?_setIfInBounds _ _ _ (lt_of_idInSlot? (h.home id f hf)) _ _

theorem Slotted.vacate_live (h : a.Slotted) (hf : a.get? id = some f) : (a.vacate id).Slotted where
  home other g hg := by
    rw [get?_vacate] at hg
    split at hg
    · cases hg
    · rename_i hne
      have hother := h.home other g hg
      have hslot : g.slot ≠ f.slot := by
        intro e
        rw [e, h.home id f hf] at hother
        exact hne (Option.some.inj hother).symm
      rwa [idInSlot?_vacate h hf, if_neg hslot]
  vacant slot hslot := by
    have hsize : (a.vacate id).slots.size = a.slots.size := by
      rw [vacate_of_live hf, Array.size_setIfInBounds]
    rw [vacate_of_live hf] at hslot
    rw [idInSlot?_vacate h hf, hsize]
    rcases List.mem_cons.1 hslot with rfl | hslot
    · exact ⟨lt_of_idInSlot? (h.home id f hf), if_pos rfl⟩
    · obtain ⟨hbound, hnone⟩ := h.vacant slot hslot
      refine ⟨hbound, ?_⟩
      split
      · rfl
      · exact hnone
  distinct := by
    rw [vacate_of_live hf]
    refine List.nodup_cons.2 ⟨fun hmem => ?_, h.distinct⟩
    have hhome := h.home id f hf
    rw [(h.vacant f.slot hmem).2] at hhome
    cases hhome

/-- A frame that is freed gives its own slot back. -/
theorem Slotted.vacate (h : a.Slotted) (id : FrameId) : (a.vacate id).Slotted := by
  cases hf : a.get? id with
  | none =>
    simp only [Arena.vacate, slot?, hf, Option.map_none]
    exact h
  | some f => exact h.vacate_live hf

theorem Slotted.settle_go (h : a.Slotted) (steps : Nat) (id : FrameId) :
    (settle.go steps a id).Slotted := by
  induction steps generalizing a id with
  | zero => exact h
  | succ steps ih =>
    unfold settle.go
    split
    · exact h
    · split
      · split
        · exact h.vacate id
        · exact ih ((h.vacate id).loseChild _) _
      · exact h

end ScriptVM.Arena
