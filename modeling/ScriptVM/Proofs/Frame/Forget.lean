import ScriptVM.Proofs.Frame.Arena

/-!
# Arenas without the operands of one frame

Setting the operands and the last object of one frame aside commutes with everything that happens to
other frames, and with what happens to that frame besides its operands. Scopes do not depend on
operands.
-/
namespace ScriptVM

/-- A frame without operands and last object. -/
def Frame.forget (f : Frame) : Frame := { f with stack := [], last := none }

/-- An arena in which one frame, if any, has no operands and no last object. -/
def Arena.forget (spared : Option FrameId) (a : Arena) : Arena :=
  spared.elim a fun id => a.modify id Frame.forget

namespace Arena

variable {spared : Option FrameId}

@[simp] theorem forget_none (a : Arena) : a.forget none = a := rfl

@[simp] theorem size_frames_forget (a : Arena) :
    (a.forget spared).frames.size = a.frames.size := by
  cases spared <;> simp [forget]

@[simp] theorem slots_forget (a : Arena) : (a.forget spared).slots = a.slots := by
  cases spared <;> rfl

@[simp] theorem free_forget (a : Arena) : (a.forget spared).free = a.free := by
  cases spared <;> rfl

theorem get?_forget (a : Arena) (id : FrameId) :
    (a.forget spared).get? id =
      (a.get? id).map fun f => if spared = some id then f.forget else f := by
  cases spared with
  | none => simp
  | some s =>
    simp only [forget, Option.elim_some, get?_modify, Option.some.injEq]
    by_cases h : id = s
    · simp [h]
    · have h' : ¬ s = id := fun e => h e.symm
      simp [h, h']

theorem get?_forget_of_ne {id : FrameId} (h : spared ≠ some id) (a : Arena) :
    (a.forget spared).get? id = a.get? id := by
  rw [get?_forget]
  simp [h]

theorem isLive_forget (a : Arena) (id : FrameId) : (a.forget spared).isLive id = a.isLive id := by
  simp [isLive, get?_forget]

theorem forget_modify {g : Frame → Frame} (h : ∀ f, (g f).forget = g f.forget)
    (a : Arena) (id : FrameId) :
    (a.modify id g).forget spared = (a.forget spared).modify id g := by
  cases spared with
  | none => rfl
  | some s => exact modify_comm a id s fun _ f => (h f).symm

theorem forget_modify_of_ne {id : FrameId} (h : spared ≠ some id) (a : Arena)
    (change : Frame → Frame) :
    (a.modify id change).forget spared = (a.forget spared).modify id change := by
  cases spared with
  | none => rfl
  | some s => exact modify_comm a id s fun e => absurd (congrArg some e.symm) h

theorem forget_retain (a : Arena) (id : FrameId) :
    (a.retain id).forget spared = (a.forget spared).retain id :=
  forget_modify (g := fun f => { f with holders := f.holders + 1 }) (fun _ => rfl) a id

theorem forget_activate (a : Arena) (id : FrameId) :
    (a.activate id).forget spared = (a.forget spared).activate id :=
  forget_modify (g := fun f => { f with active := f.active + 1 }) (fun _ => rfl) a id

theorem forget_loseChild (a : Arena) (id : FrameId) :
    (a.loseChild id).forget spared = (a.forget spared).loseChild id :=
  forget_modify (g := fun f => { f with children := f.children - 1 }) (fun _ => rfl) a id

theorem slot?_forget (a : Arena) (id : FrameId) : (a.forget spared).slot? id = a.slot? id := by
  unfold slot?
  rw [get?_forget, Option.map_map]
  congr 1
  funext f
  simp only [Function.comp]
  split <;> rfl

theorem forget_vacate (a : Arena) (id : FrameId) :
    (a.vacate id).forget spared = (a.forget spared).vacate id := by
  have hparts : ∀ b : Arena, b.slots = a.slots → b.free = a.free → b.slot? id = a.slot? id →
      (b.vacate id).slots = (a.vacate id).slots ∧ (b.vacate id).free = (a.vacate id).free := by
    intro b hslots hfree hslot
    unfold vacate
    rw [hslot]
    split
    · exact ⟨by simp only [hslots], by simp only [hfree]⟩
    · exact ⟨hslots, hfree⟩
  obtain ⟨hslots, hfree⟩ :=
    hparts (a.forget spared) (slots_forget a) (free_forget a) (slot?_forget a id)
  refine ext_get? (by rw [slots_forget, hslots]) (by rw [free_forget, hfree]) (by simp) fun other => ?_
  rw [get?_forget, get?_vacate, get?_vacate, get?_forget]
  by_cases h : other = id
  · rw [if_pos h, if_pos h, Option.map_none]
  · rw [if_neg h, if_neg h]

theorem forget_place {a : Arena} (hspared : ∀ id ∈ spared, id.serial < a.frames.size)
    (f : Frame) :
    (a.place f).2.forget spared = ((a.forget spared).place f).2 := by
  have hparts : ∀ b : Arena, b.slots = a.slots → b.free = a.free →
      b.frames.size = a.frames.size →
      (b.place f).2.slots = (a.place f).2.slots ∧ (b.place f).2.free = (a.place f).2.free := by
    intro b hslots hfree hsize
    unfold place
    rw [hfree, hslots, hsize]
    split <;> exact ⟨rfl, rfl⟩
  obtain ⟨hslots, hfree⟩ :=
    hparts (a.forget spared) (slots_forget a) (free_forget a) (size_frames_forget a)
  refine ext_get? (by rw [slots_forget, hslots]) (by rw [free_forget, hfree]) (by simp) fun id => ?_
  have hslot : (a.forget spared).nextSlot = a.nextSlot := by simp [nextSlot]
  rw [get?_forget, get?_place, get?_place, get?_forget, size_frames_forget, hslot]
  by_cases hid : id.serial = a.frames.size
  · have hne : spared ≠ some id := fun e => Nat.ne_of_lt (hspared id e) hid
    simp [hid, hne]
  · rw [if_neg hid, if_neg hid]

theorem forget_alloc {a : Arena} (hspared : ∀ id ∈ spared, id.serial < a.frames.size)
    (parent : Option FrameId) (object : Option Value) (bindsObject : Bool) :
    (a.alloc parent object bindsObject).2.forget spared =
      ((a.forget spared).alloc parent object bindsObject).2 := by
  have hfilter : parent.filter (a.forget spared).isLive = parent.filter a.isLive := by
    congr 1
    funext id
    exact isLive_forget a id
  have hgain : ∀ p, (a.modify p fun f => { f with children := f.children + 1 }).forget spared =
      (a.forget spared).modify p fun f => { f with children := f.children + 1 } :=
    forget_modify (g := fun f => { f with children := f.children + 1 }) (fun _ => rfl) a
  cases h : parent.filter a.isLive with
  | none =>
    rw [alloc_of_dead h, alloc_of_dead (hfilter.trans h), forget_place hspared]
  | some p =>
    rw [alloc_of_live h, alloc_of_live (hfilter.trans h), forget_place (by simpa using hspared),
      hgain p]

theorem forget_settle_go (steps : Nat) (a : Arena) (id : FrameId) :
    (settle.go steps a id).forget spared = settle.go steps (a.forget spared) id := by
  induction steps generalizing a id with
  | zero => rfl
  | succ steps ih =>
    unfold settle.go
    rw [get?_forget]
    cases a.get? id with
    | none => rfl
    | some f =>
      have hheld : ∀ g : Frame, (if spared = some id then g.forget else g).held = g.held := by
        intro g
        split <;> rfl
      have hparent : ∀ g : Frame, (if spared = some id then g.forget else g).parent = g.parent := by
        intro g
        split <;> rfl
      simp only [Option.map_some, hheld, hparent]
      split
      · split
        · exact forget_vacate a id
        · rename_i parent _
          have hlose : ((a.vacate id).loseChild parent).forget spared =
              ((a.forget spared).vacate id).loseChild parent := by
            rw [forget_loseChild, forget_vacate]
          rw [ih, hlose]
      · rfl

theorem forget_settle (a : Arena) (id : FrameId) :
    (a.settle id).forget spared = (a.forget spared).settle id :=
  forget_settle_go _ a id

theorem forget_endActivation {id : FrameId} (h : spared ≠ some id) (a : Arena) :
    (a.endActivation id).forget spared = (a.forget spared).endActivation id := by
  unfold endActivation
  rw [forget_settle, forget_modify_of_ne h]

/-! ## Scopes -/

/-- What a chain of frames means does not depend on their operands. -/
theorem lookup?_forget (a : Arena) (h : Heap) (id : FrameId) (name : String) :
    (a.forget spared).lookup? h id name = a.lookup? h id name := by
  have hgo : ∀ steps id, (chain.go (a.forget spared) steps id).findSome? (fun f => f.resolve? h name) =
      (chain.go a steps id).findSome? fun f => f.resolve? h name := by
    intro steps
    induction steps with
    | zero => exact fun _ => rfl
    | succ steps ih =>
      intro id
      unfold chain.go
      rw [get?_forget]
      cases a.get? id with
      | none => rfl
      | some f =>
        have hresolve : (if spared = some id then f.forget else f).resolve? h name =
            f.resolve? h name := by
          split <;> rfl
        have hparent : (if spared = some id then f.forget else f).parent = f.parent := by
          split <;> rfl
        simp only [Option.map_some, List.findSome?_cons, hresolve, hparent]
        split
        · rfl
        · cases f.parent with
          | none => rfl
          | some parent => exact ih parent
  exact hgo _ id

end Arena
end ScriptVM
