import ScriptVM.Proofs.Frame.Arena

/-!
# Parents and children

A live frame counts its live children, so the parent of a live frame is live. An arena supports what
is known to be kept and active: such frames are live, and stay so while others are freed.
-/
namespace ScriptVM

/-- Where two predicates differ at one place only, one of them holds once more. -/
theorem List.countP_range_flip {p q : Nat → Bool} {k n : Nat} (hk : k < n) (hp : p k = true)
    (hq : q k = false) (hpq : ∀ i, i ≠ k → p i = q i) :
    (List.range n).countP p = (List.range n).countP q + 1 := by
  induction n with
  | zero => omega
  | succ n ih =>
    simp only [List.range_succ, List.countP_append, List.countP_singleton]
    rcases Nat.lt_succ_iff_lt_or_eq.1 hk with hlt | rfl
    · have hne : n ≠ k := by omega
      rw [ih hlt, hpq n hne]
      omega
    · have hrest : (List.range k).countP p = (List.range k).countP q := by
        refine List.countP_congr fun i hi => ?_
        have hne : i ≠ k := Nat.ne_of_lt (List.mem_range.1 hi)
        rw [hpq i hne]
      simp [hrest, hp, hq]

namespace Arena

/-- Whether the frame behind a reference is live and has a given parent. -/
def isChildOf (a : Arena) (parent id : FrameId) : Bool :=
  (a.get? id).any fun f => f.parent = some parent

/-- How many live frames have a given parent. -/
def childCount (a : Arena) (parent : FrameId) : Nat :=
  (List.range a.frames.size).countP fun i => a.isChildOf parent ⟨i⟩

/-- Parents of live frames are live, and count at least their live children. -/
def CountsChildren (a : Arena) : Prop :=
  ∀ p, 0 < a.childCount p → ∃ g, a.get? p = some g ∧ a.childCount p ≤ g.children

variable {a b : Arena} {id p : FrameId} {f : Frame}

theorem isChildOf_of_get? (h : a.get? id = some f) (q : FrameId) :
    a.isChildOf q id = decide (f.parent = some q) := by
  simp [isChildOf, h]

theorem childCount_pos (h : a.get? id = some f) (hp : f.parent = some p) : 0 < a.childCount p := by
  refine List.countP_pos_iff.2 ⟨id.serial, List.mem_range.2 (serial_lt_of_get? h), ?_⟩
  simp [isChildOf_of_get? h, hp]

instance (a : Arena) : Decidable a.CountsChildren :=
  decidable_of_iff ((List.range a.frames.size).all fun i => (a.get? ⟨i⟩).all fun f =>
      f.parent.all fun p => (a.get? p).any fun g => a.childCount p ≤ g.children) (by
    constructor
    · intro h p hp
      obtain ⟨i, hi, hchild⟩ := List.countP_pos_iff.1 hp
      obtain ⟨f, hf, hparent⟩ := Option.any_eq_true _ _ |>.1 hchild
      have hcounts := List.all_eq_true.1 h i hi
      simpa [hf, of_decide_eq_true hparent, Option.any_eq_true] using hcounts
    · intro h
      refine List.all_eq_true.2 fun i _ => ?_
      cases hf : a.get? ⟨i⟩ with
      | none => rfl
      | some f =>
        cases hparent : f.parent with
        | none => simp [hparent]
        | some p =>
          obtain ⟨g, hg, hle⟩ := h p (childCount_pos hf hparent)
          simp [hparent, hg, hle])

/-- The parent of a live frame is live. -/
theorem CountsChildren.live_parent (h : a.CountsChildren) (hf : a.get? id = some f)
    (hp : f.parent = some p) : ∃ g, a.get? p = some g := by
  obtain ⟨g, hg, -⟩ := h p (childCount_pos hf hp)
  exact ⟨g, hg⟩

theorem childCount_congr (hsize : b.frames.size = a.frames.size)
    (h : ∀ id, b.isChildOf p id = a.isChildOf p id) : b.childCount p = a.childCount p := by
  simp only [childCount, hsize, h]

theorem childCount_modify {change : Frame → Frame} (id : FrameId)
    (hc : ∀ f, (change f).parent = f.parent) (p : FrameId) :
    (a.modify id change).childCount p = a.childCount p := by
  refine childCount_congr (size_frames_modify ..) fun other => ?_
  unfold isChildOf
  rw [get?_modify]
  split
  · subst other
    cases a.get? id <;> simp [hc]
  · rfl

theorem CountsChildren.modify (h : a.CountsChildren) (id : FrameId) {change : Frame → Frame}
    (hparent : ∀ f, (change f).parent = f.parent)
    (hchildren : ∀ f, f.children ≤ (change f).children) : (a.modify id change).CountsChildren := by
  intro p hp
  rw [childCount_modify id hparent] at hp ⊢
  obtain ⟨g, hg, hle⟩ := h p hp
  rw [get?_modify]
  split
  · subst p
    exact ⟨change g, by rw [hg]; rfl, Nat.le_trans hle (hchildren g)⟩
  · exact ⟨g, hg, hle⟩

/-! ## New frames -/

theorem childCount_place (a : Arena) (f : Frame) (p : FrameId) :
    (a.place f).2.childCount p = a.childCount p + if f.parent = some p then 1 else 0 := by
  have hold : ∀ i ∈ List.range a.frames.size,
      (a.place f).2.isChildOf p ⟨i⟩ = true ↔ a.isChildOf p ⟨i⟩ = true := by
    intro i hi
    have hne : i ≠ a.frames.size := Nat.ne_of_lt (List.mem_range.1 hi)
    unfold isChildOf
    rw [get?_place, if_neg hne]
  have hnew : (a.place f).2.isChildOf p ⟨a.frames.size⟩ = decide (f.parent = some p) := by
    unfold isChildOf
    rw [get?_place, if_pos rfl]
    rfl
  unfold childCount
  rw [size_frames_place, List.range_succ, List.countP_append, List.countP_singleton,
    List.countP_congr hold, hnew]
  simp

theorem CountsChildren.alloc (h : a.CountsChildren) (parent : Option FrameId)
    (object : Option Value) (bindsObject : Bool) :
    (a.alloc parent object bindsObject).2.CountsChildren := by
  intro p hp
  cases hparent : parent.filter a.isLive with
  | none =>
    rw [alloc_of_dead hparent] at hp ⊢
    rw [childCount_place, if_neg nofun, Nat.add_zero] at hp ⊢
    obtain ⟨g, hg, hle⟩ := h p hp
    rw [get?_place, if_neg (Nat.ne_of_lt (serial_lt_of_get? hg))]
    exact ⟨g, hg, hle⟩
  | some s =>
    rw [alloc_of_live hparent] at hp ⊢
    have hsame : ∀ q, (a.modify s fun f => { f with children := f.children + 1 }).childCount q =
        a.childCount q := childCount_modify s fun _ => rfl
    rw [childCount_place, hsame] at hp ⊢
    obtain ⟨g, hg⟩ := Option.isSome_iff_exists.1 (Option.filter_eq_some_iff.1 hparent).2
    by_cases hs : s = p
    · subst hs
      have hlt := serial_lt_of_get? hg
      rw [get?_place, size_frames_modify, if_neg (Nat.ne_of_lt hlt), get?_modify_self, hg]
      refine ⟨_, rfl, ?_⟩
      rw [if_pos rfl]
      rcases Nat.eq_zero_or_pos (a.childCount s) with hzero | hpos
      · simp [hzero]
      · obtain ⟨g', hg', hle⟩ := h s hpos
        cases hg.symm.trans hg'
        exact Nat.succ_le_succ hle
    · have hne : (some s : Option FrameId) ≠ some p := fun e => hs (Option.some.inj e)
      rw [if_neg hne, Nat.add_zero] at hp ⊢
      obtain ⟨g', hg', hle⟩ := h p hp
      have hlt := serial_lt_of_get? hg'
      rw [get?_place, size_frames_modify, if_neg (Nat.ne_of_lt hlt),
        get?_modify_of_ne _ _ (Ne.symm hs)]
      exact ⟨g', hg', hle⟩

/-! ## Freeing frames -/

theorem childCount_vacate (h : a.get? id = some f) (p : FrameId) :
    a.childCount p = (a.vacate id).childCount p + if f.parent = some p then 1 else 0 := by
  have hself : (a.vacate id).isChildOf p id = false := by
    simp [isChildOf, get?_vacate]
  have hother : ∀ other, other ≠ id → (a.vacate id).isChildOf p other = a.isChildOf p other := by
    intro other hne
    unfold isChildOf
    rw [get?_vacate, if_neg hne]
  split
  · rename_i hparent
    unfold childCount
    rw [size_frames_vacate]
    refine List.countP_range_flip (serial_lt_of_get? h) ?_ hself fun i hi => ?_
    · simp [isChildOf_of_get? h, hparent]
    · exact (hother ⟨i⟩ fun e => hi (congrArg FrameId.serial e)).symm
  · rename_i hparent
    refine (childCount_congr (size_frames_vacate ..) fun other => ?_).symm
    by_cases hid : other = id
    · rw [hid, hself, isChildOf_of_get? h]
      exact (decide_eq_false hparent).symm
    · exact hother other hid

/-- A frame that nothing holds has no live children. -/
theorem CountsChildren.childCount_eq_zero (h : a.CountsChildren) (hf : a.get? id = some f)
    (hheld : f.held = 0) : a.childCount id = 0 := by
  refine Nat.eq_zero_of_not_pos fun hpos => ?_
  obtain ⟨g, hg, hle⟩ := h id hpos
  cases hf.symm.trans hg
  unfold Frame.held at hheld
  omega

theorem CountsChildren.vacate (h : a.CountsChildren) (hf : a.get? id = some f)
    (hheld : f.held = 0) (hparent : f.parent = none) : (a.vacate id).CountsChildren := by
  intro p hp
  have hcount := childCount_vacate hf p
  rw [hparent, if_neg nofun, Nat.add_zero] at hcount
  obtain ⟨g, hg, hle⟩ := h p (by omega)
  have hne : p ≠ id := by
    rintro rfl
    have := h.childCount_eq_zero hf hheld
    omega
  exact ⟨g, by rw [get?_vacate, if_neg hne, hg], by omega⟩

theorem childCount_loseChild (a : Arena) (parent p : FrameId) :
    (a.loseChild parent).childCount p = a.childCount p := by
  refine childCount_modify parent ?_ p
  exact fun _ => rfl

theorem get?_loseChild (a : Arena) (parent p : FrameId) :
    (a.loseChild parent).get? p =
      if p = parent then (a.get? parent).map fun f => { f with children := f.children - 1 }
      else a.get? p := by
  rw [loseChild, get?_modify]

theorem CountsChildren.vacate_child (h : a.CountsChildren) (hf : a.get? id = some f)
    (hheld : f.held = 0) {parent : FrameId} (hparent : f.parent = some parent) :
    ((a.vacate id).loseChild parent).CountsChildren := by
  intro p hp
  have hcount := childCount_vacate hf p
  rw [childCount_loseChild] at hp ⊢
  obtain ⟨g, hg, hle⟩ := h p (by omega)
  have hne : p ≠ id := by
    rintro rfl
    have := h.childCount_eq_zero hf hheld
    omega
  rw [get?_loseChild]
  by_cases hself : p = parent
  · subst hself
    rw [if_pos rfl, get?_vacate, if_neg hne, hg]
    rw [if_pos hparent] at hcount
    exact ⟨_, rfl, Nat.le_sub_of_add_le (hcount ▸ hle)⟩
  · rw [if_neg hself, get?_vacate, if_neg hne]
    exact ⟨g, hg, by omega⟩

theorem CountsChildren.settle_go (h : a.CountsChildren) (steps : Nat) (id : FrameId) :
    (settle.go steps a id).CountsChildren := by
  induction steps generalizing a id with
  | zero => exact h
  | succ steps ih =>
    unfold settle.go
    cases hf : a.get? id with
    | none => exact h
    | some f =>
      dsimp only
      split
      · rename_i hheld
        cases hparent : f.parent with
        | none => exact h.vacate hf hheld hparent
        | some parent => exact ih (h.vacate_child hf hheld hparent) parent
      · exact h

/-- What is live after settling was live before; it may have lost children. -/
theorem get?_of_settle_go {steps : Nat} {other : FrameId}
    (h : (settle.go steps a id).get? other = some f) :
    ∃ n, a.get? other = some { f with children := n } := by
  induction steps generalizing a id f with
  | zero => exact ⟨f.children, h⟩
  | succ steps ih =>
    unfold settle.go at h
    cases hid : a.get? id with
    | none =>
      rw [hid] at h
      exact ⟨f.children, h⟩
    | some g =>
      rw [hid] at h
      dsimp only at h
      split at h
      · have hold : ∀ {f}, (a.vacate id).get? other = some f → a.get? other = some f := by
          intro f hf
          rw [get?_vacate] at hf
          split at hf
          · cases hf
          · exact hf
        cases hp : g.parent with
        | none =>
          rw [hp] at h
          exact ⟨f.children, hold h⟩
        | some parent =>
          rw [hp] at h
          obtain ⟨n, hn⟩ := ih h
          rw [get?_loseChild] at hn
          split at hn
          · subst other
            obtain ⟨g', hg', he⟩ := Option.map_eq_some_iff.1 hn
            refine ⟨g'.children, ?_⟩
            rw [hold hg']
            cases f
            cases g'
            cases he
            rfl
          · exact ⟨n, hold hn⟩
      · exact ⟨f.children, h⟩

/-! ## Support -/

variable {kept kept' : FrameId → Prop} {active active' : FrameId → Nat}

/-- So many activations run in each frame. -/
def Runs (a : Arena) (active : FrameId → Nat) : Prop :=
  ∀ id, 0 < active id → ∃ f, a.get? id = some f ∧ active id ≤ f.active

namespace Runs

theorem mono (h : a.Runs active) (hactive : ∀ id, active' id ≤ active id) : a.Runs active' := by
  intro id hid
  obtain ⟨f, hf, hle⟩ := h id (Nat.lt_of_lt_of_le hid (hactive id))
  exact ⟨f, hf, Nat.le_trans (hactive id) hle⟩

theorem modify (h : a.Runs active) (id : FrameId) {change : Frame → Frame}
    (hactive : ∀ f, f.active ≤ (change f).active) : (a.modify id change).Runs active := by
  intro other hother
  obtain ⟨f, hf, hle⟩ := h other hother
  rw [get?_modify]
  split
  · subst other
    exact ⟨change f, by rw [hf]; rfl, Nat.le_trans hle (hactive f)⟩
  · exact ⟨f, hf, hle⟩

theorem activate (h : a.Runs active) (hf : a.get? id = some f) (hself : active' id ≤ active id + 1)
    (hother : ∀ other, other ≠ id → active' other = active other) :
    (a.activate id).Runs active' := by
  intro other hpos
  by_cases hid : other = id
  · subst hid
    refine ⟨{ f with active := f.active + 1 }, ?_, Nat.le_trans hself (Nat.succ_le_succ ?_)⟩
    · rw [Arena.activate, get?_modify_self, hf]
      rfl
    · rcases Nat.eq_zero_or_pos (active other) with hzero | hpos
      · rw [hzero]
        exact Nat.zero_le _
      · obtain ⟨g, hg, hle⟩ := h other hpos
        cases hf.symm.trans hg
        exact hle
  · rw [hother other hid] at hpos ⊢
    exact h.modify id (fun _ => Nat.le_succ _) other hpos

theorem alloc (h : a.Runs active) (parent : Option FrameId) (object : Option Value)
    (bindsObject : Bool) (hself : active' ⟨a.frames.size⟩ ≤ 1)
    (hother : ∀ other, other ≠ ⟨a.frames.size⟩ → active' other = active other) :
    (a.alloc parent object bindsObject).2.Runs active' := by
  intro other hpos
  by_cases hid : other = ⟨a.frames.size⟩
  · subst hid
    exact ⟨_, get?_alloc_self .., hself⟩
  · rw [hother other hid] at hpos ⊢
    obtain ⟨f, hf, hle⟩ := h other hpos
    exact ⟨_, get?_alloc_of_get? hf parent object bindsObject, hle⟩

theorem deactivate (h : a.Runs active) (hself : active' id ≤ active id - 1)
    (hother : ∀ other, other ≠ id → active' other = active other) :
    (a.modify id Frame.deactivate).Runs active' := by
  intro other hpos
  rw [get?_modify]
  split
  · subst other
    obtain ⟨f, hf, hle⟩ := h id (by omega)
    exact ⟨f.deactivate, by rw [hf]; rfl, by rw [Frame.active_deactivate]; omega⟩
  · rename_i hne
    rw [hother other hne] at hpos ⊢
    exact h other hpos

/-- No frame is freed in which an activation runs. -/
theorem settle (h : a.Runs active) (id : FrameId) : (a.settle id).Runs active := by
  intro other hpos
  obtain ⟨f, hf, hle⟩ := h other hpos
  obtain ⟨n, hn⟩ := get?_settle id hf (by omega)
  exact ⟨_, hn, hle⟩

/-- No activation runs in a frame that is not there yet. -/
theorem fresh (h : a.Runs active) : active ⟨a.frames.size⟩ = 0 := by
  refine Nat.eq_zero_of_not_pos fun hpos => ?_
  obtain ⟨f, hf, -⟩ := h _ hpos
  exact Nat.lt_irrefl _ (serial_lt_of_get? hf)

end Runs

/-- Some frames are kept by something, and so many activations run in each frame. -/
structure Supports (a : Arena) (kept : FrameId → Prop) (active : FrameId → Nat) : Prop where
  family : a.CountsChildren
  kept : ∀ id, kept id → ∃ f, a.get? id = some f ∧ 0 < f.holders
  active : a.Runs active

theorem Supports.mono (h : a.Supports kept active) (hkept : ∀ id, kept' id → kept id)
    (hactive : ∀ id, active' id ≤ active id) : a.Supports kept' active' where
  family := h.family
  kept id hid := h.kept id (hkept id hid)
  active := h.active.mono hactive

/-- Changes that let go of nothing. -/
theorem Supports.modify (h : a.Supports kept active) (id : FrameId) {change : Frame → Frame}
    (hparent : ∀ f, (change f).parent = f.parent)
    (hchildren : ∀ f, f.children ≤ (change f).children)
    (hholders : ∀ f, f.holders ≤ (change f).holders)
    (hactive : ∀ f, f.active ≤ (change f).active) : (a.modify id change).Supports kept active where
  family := h.family.modify id hparent hchildren
  kept other hother := by
    obtain ⟨f, hf, hpos⟩ := h.kept other hother
    rw [get?_modify]
    split
    · subst other
      exact ⟨change f, by rw [hf]; rfl, Nat.lt_of_lt_of_le hpos (hholders f)⟩
    · exact ⟨f, hf, hpos⟩
  active := h.active.modify id hactive

theorem Supports.retain (h : a.Supports kept active) (hf : a.get? id = some f) :
    (a.retain id).Supports (fun other => kept other ∨ other = id) active := by
  have hmodify : (a.retain id).Supports kept active :=
    h.modify id (fun _ => rfl) (fun _ => Nat.le_refl _) (fun _ => Nat.le_succ _)
      fun _ => Nat.le_refl _
  refine ⟨hmodify.family, fun other hother => ?_, hmodify.active⟩
  rcases hother with hother | rfl
  · exact hmodify.kept other hother
  · exact ⟨_, by rw [Arena.retain, get?_modify_self, hf]; rfl, Nat.succ_pos _⟩

theorem Supports.activate (h : a.Supports kept active) (hf : a.get? id = some f)
    (hself : active' id ≤ active id + 1) (hother : ∀ other, other ≠ id → active' other = active other) :
    (a.activate id).Supports kept active' :=
  have hmodify : (a.activate id).Supports kept active :=
    h.modify id (fun _ => rfl) (fun _ => Nat.le_refl _) (fun _ => Nat.le_refl _)
      fun _ => Nat.le_succ _
  ⟨hmodify.family, hmodify.kept, h.active.activate hf hself hother⟩

theorem Supports.alloc (h : a.Supports kept active) (parent : Option FrameId)
    (object : Option Value) (bindsObject : Bool) (hself : active' ⟨a.frames.size⟩ ≤ 1)
    (hother : ∀ other, other ≠ ⟨a.frames.size⟩ → active' other = active other) :
    (a.alloc parent object bindsObject).2.Supports kept active' where
  family := h.family.alloc parent object bindsObject
  kept other hkept := by
    obtain ⟨f, hf, hholders⟩ := h.kept other hkept
    exact ⟨_, get?_alloc_of_get? hf parent object bindsObject, hholders⟩
  active := h.active.alloc parent object bindsObject hself hother

/-- Ending one activation. -/
theorem Supports.deactivate (h : a.Supports kept active) (hself : active' id ≤ active id - 1)
    (hother : ∀ other, other ≠ id → active' other = active other) :
    (a.modify id Frame.deactivate).Supports kept active' where
  family := h.family.modify id Frame.parent_deactivate
    fun f => Nat.le_of_eq f.children_deactivate.symm
  kept other hkept := by
    obtain ⟨f, hf, hholders⟩ := h.kept other hkept
    rw [get?_modify]
    split
    · subst other
      exact ⟨f.deactivate, by rw [hf]; rfl, by rw [Frame.holders_deactivate]; exact hholders⟩
    · exact ⟨f, hf, hholders⟩
  active := h.active.deactivate hself hother

/-- What is kept or active is not freed. -/
theorem Supports.settle (h : a.Supports kept active) (id : FrameId) :
    (a.settle id).Supports kept active where
  family := h.family.settle_go _ id
  kept other hkept := by
    obtain ⟨f, hf, hholders⟩ := h.kept other hkept
    obtain ⟨n, hn⟩ := get?_settle id hf (by omega)
    exact ⟨_, hn, hholders⟩
  active := h.active.settle id

/-- Ending one activation, with all frames that are freed then. -/
theorem Supports.endActivation (h : a.Supports kept active) (hself : active' id ≤ active id - 1)
    (hother : ∀ other, other ≠ id → active' other = active other) :
    (a.endActivation id).Supports kept active' :=
  (h.deactivate hself hother).settle id

end Arena
end ScriptVM
