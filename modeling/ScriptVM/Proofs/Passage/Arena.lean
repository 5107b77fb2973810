import ScriptVM.Proofs.Passage.Rename

/-!
# Frames and other names

Everything that is done with frames does the same whatever their values are called.
-/
namespace ScriptVM

variable (σ : Value → Value)

namespace Frame

theorem rename_deactivate (f : Frame) : (f.rename σ).deactivate = f.deactivate.rename σ := by
  by_cases h : f.active - 1 = 0
  · have h' : (f.rename σ).active - 1 = 0 := h
    rw [deactivate, if_pos h', deactivate, if_pos h]
    rfl
  · have h' : ¬(f.rename σ).active - 1 = 0 := h
    rw [deactivate, if_neg h', deactivate, if_neg h]
    rfl

theorem rename_pop? (f : Frame) :
    (f.rename σ).pop? = f.pop?.map fun r => (σ r.1, r.2.rename σ) := by
  obtain ⟨slot, vars, parent, object, bindsObject, stack, last, active, children, holders⟩ := f
  cases stack <;> rfl

theorem rename_popMany? (f : Frame) (count : Nat) :
    (f.rename σ).popMany? count = (f.popMany? count).map fun r => (r.1.map σ, r.2.rename σ) := by
  unfold popMany?
  simp only [rename, List.length_map]
  split <;> simp [List.map_take, List.map_drop]

end Frame

namespace Arena

/-- Renames what the frames refer to. -/
def rename (a : Arena) : Arena := { a with frames := a.frames.map (Option.map (Frame.rename σ)) }

variable (a : Arena) (id : FrameId)

theorem get?_rename : (a.rename σ).get? id = (a.get? id).map (Frame.rename σ) := by
  unfold get? rename
  simp only [Array.getElem?_map]
  cases a.frames[id.serial]? <;> simp

@[simp] theorem isLive_rename : (a.rename σ).isLive id = a.isLive id := by
  simp [isLive, get?_rename]

theorem slot?_rename : (a.rename σ).slot? id = a.slot? id := by
  unfold slot?
  rw [get?_rename]
  cases a.get? id <;> rfl

theorem rename_modify {change change' : Frame → Frame}
    (h : ∀ f, change' (f.rename σ) = (change f).rename σ) :
    (a.rename σ).modify id change' = (a.modify id change).rename σ := by
  unfold modify rename
  dsimp only
  congr 1
  apply Array.ext_getElem?
  intro i
  simp only [Array.getElem?_modify, Array.getElem?_map]
  split
  · cases a.frames[i]? with
    | none => rfl
    | some f => cases f <;> simp [h]
  · rfl

theorem rename_place (f : Frame) :
    (a.rename σ).place (f.rename σ) = ((a.place f).1, (a.place f).2.rename σ) := by
  obtain ⟨frames, slots, free⟩ := a
  cases free <;> simp [place, rename, Frame.rename]

theorem rename_alloc (parent : Option FrameId) (object : Option Value) (bindsObject : Bool) :
    (a.rename σ).alloc parent (object.map σ) bindsObject =
      ((a.alloc parent object bindsObject).1, (a.alloc parent object bindsObject).2.rename σ) := by
  have hlive : (a.rename σ).isLive = a.isLive := funext fun id => isLive_rename σ a id
  unfold alloc
  rw [hlive]
  cases parent.filter a.isLive with
  | none => exact rename_place σ a ⟨0, .empty, none, object, bindsObject, [], none, 1, 0, 0⟩
  | some id =>
    have hparent : (a.rename σ).modify id (fun f => { f with children := f.children + 1 }) =
        (a.modify id fun f => { f with children := f.children + 1 }).rename σ :=
      rename_modify σ a id fun _ => rfl
    simp only [hparent]
    exact rename_place σ _ ⟨0, .empty, some id, object, bindsObject, [], none, 1, 0, 0⟩

theorem rename_retain : (a.rename σ).retain id = (a.retain id).rename σ :=
  rename_modify σ a id fun _ => rfl

theorem rename_activate : (a.rename σ).activate id = (a.activate id).rename σ :=
  rename_modify σ a id fun _ => rfl

theorem rename_loseChild : (a.rename σ).loseChild id = (a.loseChild id).rename σ :=
  rename_modify σ a id fun _ => rfl

theorem rename_vacate : (a.rename σ).vacate id = (a.vacate id).rename σ := by
  unfold vacate
  rw [slot?_rename]
  cases a.slot? id with
  | none => rfl
  | some slot => simp [rename, Array.map_setIfInBounds]

theorem rename_settle : (a.rename σ).settle id = (a.settle id).rename σ := by
  have hgo : ∀ steps (a : Arena) id,
      settle.go steps (a.rename σ) id = (settle.go steps a id).rename σ := by
    intro steps
    induction steps with
    | zero => exact fun _ _ => rfl
    | succ steps ih =>
      intro a id
      unfold settle.go
      rw [get?_rename]
      cases a.get? id with
      | none => rfl
      | some f =>
        simp only [Option.map_some]
        by_cases hheld : f.held = 0
        · have hheld' : (f.rename σ).held = 0 := hheld
          have hparent : (f.rename σ).parent = f.parent := rfl
          rw [if_pos hheld', if_pos hheld, rename_vacate, hparent]
          cases f.parent with
          | none => rfl
          | some parent =>
            simp only
            rw [rename_loseChild, ih]
        · have hheld' : ¬(f.rename σ).held = 0 := hheld
          rw [if_neg hheld', if_neg hheld]
  exact hgo _ a id

theorem rename_endActivation : (a.rename σ).endActivation id = (a.endActivation id).rename σ := by
  unfold endActivation
  rw [rename_modify σ a id fun f => Frame.rename_deactivate σ f, rename_settle]

theorem chain_rename : (a.rename σ).chain id = (a.chain id).map (Frame.rename σ) := by
  have hgo : ∀ steps id, chain.go (a.rename σ) steps id =
      (chain.go a steps id).map (Frame.rename σ) := by
    intro steps
    induction steps with
    | zero => exact fun _ => rfl
    | succ steps ih =>
      intro id
      unfold chain.go
      rw [get?_rename]
      cases a.get? id with
      | none => rfl
      | some f =>
        simp only [Option.map_some, List.map_cons, Frame.rename]
        cases f.parent with
        | none => rfl
        | some parent => simp [ih]
  exact hgo _ id

end Arena
end ScriptVM
