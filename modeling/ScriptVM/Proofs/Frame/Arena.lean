import ScriptVM.Frame.Scope

/-!
# Frames under the operations of the arena

What each operation of the arena does to the frame behind a reference. An arena is known by its
slots and by the frames behind all references.
-/
namespace ScriptVM

/-! ## Activations that end -/

namespace Frame

variable (f : Frame)

theorem active_deactivate : f.deactivate.active = f.active - 1 := by
  unfold deactivate
  split
  · rename_i h
    exact h.symm
  · rfl

@[simp] theorem parent_deactivate : f.deactivate.parent = f.parent := by
  unfold deactivate
  split <;> rfl

@[simp] theorem children_deactivate : f.deactivate.children = f.children := by
  unfold deactivate
  split <;> rfl

@[simp] theorem holders_deactivate : f.deactivate.holders = f.holders := by
  unfold deactivate
  split <;> rfl

@[simp] theorem slot_deactivate : f.deactivate.slot = f.slot := by
  unfold deactivate
  split <;> rfl

@[simp] theorem vars_deactivate : f.deactivate.vars = f.vars := by
  unfold deactivate
  split <;> rfl

end Frame

namespace Arena

/-- Arenas with the same slots and the same frames are the same. -/
theorem ext_get? {a b : Arena} (hslots : a.slots = b.slots) (hfree : a.free = b.free)
    (hsize : a.frames.size = b.frames.size) (hget : ∀ id, a.get? id = b.get? id) : a = b := by
  obtain ⟨frames, slots, free⟩ := a
  obtain ⟨frames', slots', free'⟩ := b
  cases hslots
  cases hfree
  congr 1
  refine Array.ext hsize fun i hi hi' => ?_
  simpa [get?, hi, hi'] using hget ⟨i⟩

/-! ## Changes of frames -/

@[simp] theorem size_frames_modify (a : Arena) (id : FrameId) (change : Frame → Frame) :
    (a.modify id change).frames.size = a.frames.size := by
  simp [modify]

@[simp] theorem slots_modify (a : Arena) (id : FrameId) (change : Frame → Frame) :
    (a.modify id change).slots = a.slots := rfl

@[simp] theorem free_modify (a : Arena) (id : FrameId) (change : Frame → Frame) :
    (a.modify id change).free = a.free := rfl

theorem get?_eq_none_of_size_le {a : Arena} {id : FrameId} (h : a.frames.size ≤ id.serial) :
    a.get? id = none := by
  simp [get?, h]

theorem isLive_of_get? {a : Arena} {id : FrameId} {f : Frame} (h : a.get? id = some f) :
    a.isLive id = true := by
  rw [isLive, h]
  rfl

theorem serial_lt_of_get? {a : Arena} {id : FrameId} {f : Frame} (h : a.get? id = some f) :
    id.serial < a.frames.size := by
  refine Nat.lt_of_not_le fun hle => ?_
  rw [get?_eq_none_of_size_le hle] at h
  cases h

/-- Changes that do not disturb each other can be made in any order. -/
theorem modify_comm (a : Arena) (i j : FrameId) {f g : Frame → Frame}
    (h : i = j → ∀ frame, f (g frame) = g (f frame)) :
    (a.modify i f).modify j g = (a.modify j g).modify i f := by
  refine ext_get? rfl rfl (by simp) fun id => ?_
  simp only [get?_modify]
  by_cases hi : id = i
  · by_cases hj : id = j
    · subst hi
      subst hj
      simp only [if_true]
      cases a.get? id with
      | none => rfl
      | some frame => simp [h rfl]
    · subst hi
      simp [hj]
  · by_cases hj : id = j
    · subst hj
      simp [hi]
    · simp [hi, hj]

/-! ## Freeing frames -/

theorem get?_vacate (a : Arena) (id other : FrameId) :
    (a.vacate id).get? other = if other = id then none else a.get? other := by
  unfold vacate slot?
  cases hf : a.get? id with
  | none =>
    simp only [Option.map_none]
    split
    · subst other
      exact hf
    · rfl
  | some f =>
    simp only [Option.map_some, get?, Array.getElem?_setIfInBounds]
    by_cases h : other = id
    · subst h
      simp only [if_true]
      split <;> rfl
    · have hs : id.serial ≠ other.serial := fun e => h (by cases other; cases id; simp_all)
      simp [h, hs]

@[simp] theorem size_frames_vacate (a : Arena) (id : FrameId) :
    (a.vacate id).frames.size = a.frames.size := by
  unfold vacate
  split <;> simp

/-! ## New frames -/

@[simp] theorem place_fst (a : Arena) (f : Frame) : (a.place f).1 = ⟨a.frames.size⟩ := by
  unfold place
  split <;> rfl

@[simp] theorem size_frames_place (a : Arena) (f : Frame) :
    (a.place f).2.frames.size = a.frames.size + 1 := by
  unfold place
  split <;> simp

/-- The slot that a new frame gets. -/
def nextSlot (a : Arena) : Nat := a.free.head?.getD a.slots.size

theorem get?_place (a : Arena) (f : Frame) (id : FrameId) :
    (a.place f).2.get? id =
      if id.serial = a.frames.size then some { f with slot := a.nextSlot } else a.get? id := by
  have hpush : ∀ g : Frame, (a.frames.push (some g))[id.serial]?.getD none =
      if id.serial = a.frames.size then some g else a.get? id := by
    intro g
    rw [Array.getElem?_push]
    split <;> rfl
  unfold place
  split
  · rename_i slot rest hfree
    simpa [get?, nextSlot, hfree] using hpush _
  · rename_i hfree
    simpa [get?, nextSlot, hfree] using hpush _

theorem alloc_of_dead {a : Arena} {parent : Option FrameId} (h : parent.filter a.isLive = none)
    (object : Option Value) (bindsObject : Bool) :
    a.alloc parent object bindsObject =
      a.place ⟨0, .empty, none, object, bindsObject, [], none, 1, 0, 0⟩ := by
  simp only [alloc, h]

theorem alloc_of_live {a : Arena} {parent : Option FrameId} {id : FrameId}
    (h : parent.filter a.isLive = some id) (object : Option Value) (bindsObject : Bool) :
    a.alloc parent object bindsObject =
      (a.modify id fun f => { f with children := f.children + 1 }).place
        ⟨0, .empty, some id, object, bindsObject, [], none, 1, 0, 0⟩ := by
  simp only [alloc, h]

@[simp] theorem alloc_fst (a : Arena) (parent : Option FrameId) (object : Option Value)
    (bindsObject : Bool) : (a.alloc parent object bindsObject).1 = ⟨a.frames.size⟩ := by
  cases h : parent.filter a.isLive with
  | none => simp [alloc_of_dead h]
  | some id => simp [alloc_of_live h]

@[simp] theorem size_frames_alloc (a : Arena) (parent : Option FrameId) (object : Option Value)
    (bindsObject : Bool) :
    (a.alloc parent object bindsObject).2.frames.size = a.frames.size + 1 := by
  cases h : parent.filter a.isLive with
  | none => simp [alloc_of_dead h]
  | some id => simp [alloc_of_live h]

/-- The new frame of an allocation. -/
theorem get?_alloc_self (a : Arena) (parent : Option FrameId) (object : Option Value)
    (bindsObject : Bool) :
    (a.alloc parent object bindsObject).2.get? ⟨a.frames.size⟩ =
      some ⟨a.nextSlot, .empty, parent.filter a.isLive, object, bindsObject, [], none, 1, 0, 0⟩ := by
  cases h : parent.filter a.isLive with
  | none => simp [alloc_of_dead h, get?_place]
  | some id => simp [alloc_of_live h, get?_place, nextSlot]

/-- The frames that are older than an allocation. The parent has one more child. -/
theorem get?_alloc_of_lt {a : Arena} {id : FrameId} (hlt : id.serial < a.frames.size)
    (parent : Option FrameId) (object : Option Value) (bindsObject : Bool) :
    (a.alloc parent object bindsObject).2.get? id =
      if parent = some id then
        (a.get? id).map fun f => { f with children := f.children + 1 }
      else a.get? id := by
  have hne : id.serial ≠ a.frames.size := Nat.ne_of_lt hlt
  cases h : parent.filter a.isLive with
  | none =>
    rw [alloc_of_dead h, get?_place, if_neg hne]
    split
    · rename_i hid
      subst hid
      have hdead : a.get? id = none := by
        cases hget : a.get? id with
        | none => rfl
        | some f => simp [Option.filter, isLive, hget] at h
      simp [hdead]
    · rfl
  | some p =>
    have hparent : parent = some p := (Option.filter_eq_some_iff.1 h).1
    rw [alloc_of_live h, get?_place, size_frames_modify, if_neg hne, get?_modify, hparent]
    by_cases hid : id = p
    · simp [hid]
    · have hid' : ¬ p = id := fun e => hid e.symm
      simp [hid, hid']

/-- A frame that was there before an allocation has one more child, if it is the parent. -/
theorem get?_alloc_of_get? {a : Arena} {id : FrameId} {f : Frame} (hf : a.get? id = some f)
    (parent : Option FrameId) (object : Option Value) (bindsObject : Bool) :
    (a.alloc parent object bindsObject).2.get? id =
      some { f with children := f.children + if parent = some id then 1 else 0 } := by
  rw [get?_alloc_of_lt (serial_lt_of_get? hf), hf]
  split <;> rfl

/-- A frame after an allocation is the new one, or it was there before. -/
theorem get?_of_alloc {a : Arena} {id : FrameId} {f : Frame} {parent : Option FrameId}
    {object : Option Value} {bindsObject : Bool}
    (hf : (a.alloc parent object bindsObject).2.get? id = some f) :
    (id = ⟨a.frames.size⟩ ∧ f = ⟨a.nextSlot, .empty, parent.filter a.isLive, object, bindsObject,
      [], none, 1, 0, 0⟩) ∨ ∃ g, a.get? id = some g ∧
        f = { g with children := g.children + if parent = some id then 1 else 0 } := by
  have hlt := serial_lt_of_get? hf
  rw [size_frames_alloc] at hlt
  rcases Nat.lt_succ_iff_lt_or_eq.1 hlt with hlt | he
  · rw [get?_alloc_of_lt hlt] at hf
    split at hf
    · rename_i hparent
      obtain ⟨g, hg, rfl⟩ := Option.map_eq_some_iff.1 hf
      exact .inr ⟨g, hg, by rw [if_pos hparent]⟩
    · rename_i hparent
      exact .inr ⟨f, hf, by rw [if_neg hparent]; rfl⟩
  · have hid : id = ⟨a.frames.size⟩ := by
      cases id
      cases he
      rfl
    subst hid
    rw [get?_alloc_self] at hf
    cases hf
    exact .inl ⟨rfl, rfl⟩

/-! ## Settling -/

/-- A frame that something holds stays as it is, except that it may lose children. -/
theorem get?_settle_go {a : Arena} {id other : FrameId} {f : Frame} (steps : Nat)
    (hf : a.get? other = some f) (hheld : 0 < f.active + f.holders) :
    ∃ n, (settle.go steps a id).get? other = some { f with children := n } := by
  induction steps generalizing a id f with
  | zero => exact ⟨f.children, hf⟩
  | succ steps ih =>
    unfold settle.go
    cases hid : a.get? id with
    | none => exact ⟨f.children, hf⟩
    | some g =>
      dsimp only
      split
      · rename_i hg
        have hne : other ≠ id := by
          intro e
          rw [e, hid] at hf
          cases hf
          unfold Frame.held at hg
          omega
        have hvacate : (a.vacate id).get? other = some f := by rw [get?_vacate, if_neg hne, hf]
        cases hp : g.parent with
        | none => exact ⟨f.children, hvacate⟩
        | some parent =>
          dsimp only
          by_cases hparent : other = parent
          · have hlose : ((a.vacate id).loseChild parent).get? other =
                some { f with children := f.children - 1 } := by
              rw [loseChild, get?_modify, if_pos hparent, ← hparent, hvacate, Option.map_some]
            obtain ⟨n, hn⟩ := ih hlose hheld
            exact ⟨n, hn⟩
          · have hlose : ((a.vacate id).loseChild parent).get? other = some f := by
              rw [loseChild, get?_modify, if_neg hparent, hvacate]
            exact ih hlose hheld
      · exact ⟨f.children, hf⟩

theorem get?_settle {a : Arena} (id : FrameId) {other : FrameId} {f : Frame}
    (hf : a.get? other = some f) (hheld : 0 < f.active + f.holders) :
    ∃ n, (a.settle id).get? other = some { f with children := n } :=
  get?_settle_go _ hf hheld

@[simp] theorem size_frames_settle_go (steps : Nat) (a : Arena) (id : FrameId) :
    (settle.go steps a id).frames.size = a.frames.size := by
  induction steps generalizing a id with
  | zero => rfl
  | succ steps ih =>
    unfold settle.go
    split
    · rfl
    · split
      · split
        · simp
        · simp [ih, loseChild]
      · rfl

@[simp] theorem size_frames_settle (a : Arena) (id : FrameId) :
    (a.settle id).frames.size = a.frames.size :=
  size_frames_settle_go _ a id

end Arena
end ScriptVM
