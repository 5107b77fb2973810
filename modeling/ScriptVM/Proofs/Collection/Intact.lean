import Mathlib.Data.List.Perm.Basic
import Mathlib.Data.List.Nodup
import ScriptVM.Proofs.Collection.Sweep

/-!
# Intact arenas

An arena is intact when the slots on its free list are the empty ones, each listed once, and live
frames stand in the others, when the parent of a live frame is live and older, and when every frame
counts its children exactly. New frames and changes to frames keep an arena intact, and so does
freeing frames together with all their children.
-/
namespace ScriptVM.Arena

/-- A slot is on the free list exactly when no live frame stands in it. -/
structure Filled (a : Arena) : Prop extends Slotted a where
  listed : ∀ slot, slot < a.slots.size → a.idInSlot? slot = none → slot ∈ a.free
  occupied : ∀ slot id, a.idInSlot? slot = some id → ∃ f, a.get? id = some f ∧ f.slot = slot

/-- Parents are live and older than their children, and count them exactly. -/
structure Lineage (a : Arena) : Prop where
  parent : ∀ id f p, a.get? id = some f → f.parent = some p → ∃ g, a.get? p = some g
  older : ∀ id f p, a.get? id = some f → f.parent = some p → p.serial < id.serial
  children : ∀ id f, a.get? id = some f → f.children = a.childCount id

/-- Slots and frames fit together, and so do parents and children. -/
structure Intact (a : Arena) : Prop where
  filled : a.Filled
  lineage : a.Lineage

variable {a b : Arena} {id p : FrameId} {f : Frame} {gone : List FrameId}

/-! ## Slots -/

theorem filled_empty : empty.Filled where
  toSlotted := slotted_empty
  listed _ hslot := absurd hslot (Nat.not_lt_zero _)
  occupied slot id h := by
    rw [idInSlot?, empty, Array.getElem?_empty] at h
    cases h

/-- The same slots, with frames that stand where they stood. -/
theorem Filled.of_slot (h : a.Filled) (hslots : b.slots = a.slots) (hfree : b.free = a.free)
    (hget : ∀ id, (b.get? id).map Frame.slot = (a.get? id).map Frame.slot) : b.Filled where
  toSlotted := h.toSlotted.of_slot hslots hfree fun id f hf => by
    have hid := hget id
    rw [hf] at hid
    obtain ⟨g, hg, hslot⟩ := Option.map_eq_some_iff.1 hid.symm
    exact ⟨g, hg, hslot.symm⟩
  listed slot hslot hnone := by
    rw [idInSlot?_congr hslots] at hnone
    rw [hfree]
    exact h.listed slot (hslots ▸ hslot) hnone
  occupied slot id hid := by
    rw [idInSlot?_congr hslots] at hid
    obtain ⟨f, hf, hslot⟩ := h.occupied slot id hid
    have hother := hget id
    rw [hf] at hother
    obtain ⟨g, hg, hgslot⟩ := Option.map_eq_some_iff.1 hother
    exact ⟨g, hg, hgslot.trans hslot⟩

theorem Filled.modify (h : a.Filled) (id : FrameId) {change : Frame → Frame}
    (hslot : ∀ f, a.get? id = some f → (change f).slot = f.slot) : (a.modify id change).Filled := by
  refine h.of_slot rfl rfl fun other => ?_
  rw [get?_modify]
  split
  · subst other
    cases hf : a.get? id with
    | none => rfl
    | some f => simp [hslot f hf]
  · rfl

/-- A new frame takes the first free slot, or a new one when all are taken. -/
theorem Filled.place (h : a.Filled) (f : Frame) : (a.place f).2.Filled where
  toSlotted := h.toSlotted.place f
  listed slot hslot hnone := by
    rw [idInSlot?_place h.toSlotted] at hnone
    split at hnone
    · cases hnone
    · rename_i hne
      rw [free_place]
      unfold nextSlot at hne
      cases hfree : a.free with
      | nil =>
        rw [hfree] at hne
        have hsize : (a.place f).2.slots.size = a.slots.size + 1 := by
          simp only [Arena.place, hfree, Array.size_push]
        have hlt : slot < a.slots.size := by
          rw [hsize] at hslot
          exact Nat.lt_of_le_of_ne (Nat.le_of_lt_succ hslot) hne
        have hmem := h.listed slot hlt hnone
        rw [hfree] at hmem
        cases hmem
      | cons first rest =>
        rw [hfree] at hne
        have hsize : (a.place f).2.slots.size = a.slots.size := by
          simp only [Arena.place, hfree, Array.size_setIfInBounds]
        have hmem := h.listed slot (hsize ▸ hslot) hnone
        rw [hfree] at hmem
        exact (List.mem_cons.1 hmem).resolve_left hne
  occupied slot id hid := by
    rw [idInSlot?_place h.toSlotted] at hid
    split at hid
    · rename_i hslot
      cases hid
      exact ⟨_, by rw [get?_place, if_pos rfl], hslot.symm⟩
    · obtain ⟨g, hg, hslot⟩ := h.occupied slot id hid
      exact ⟨g, by rw [get?_place, if_neg (Nat.ne_of_lt (serial_lt_of_get? hg)), hg], hslot⟩

theorem Filled.vacate (h : a.Filled) (id : FrameId) : (a.vacate id).Filled := by
  cases hf : a.get? id with
  | none =>
    rw [vacate_of_dead hf]
    exact h
  | some f =>
    refine ⟨h.toSlotted.vacate_live hf, fun slot hslot hnone => ?_, fun slot other hother => ?_⟩
    · rw [idInSlot?_vacate h.toSlotted hf] at hnone
      rw [vacate_of_live hf] at hslot ⊢
      split at hnone
      · rename_i he
        exact he ▸ List.mem_cons_self
      · rw [Array.size_setIfInBounds] at hslot
        exact List.mem_cons_of_mem _ (h.listed slot hslot hnone)
    · rw [idInSlot?_vacate h.toSlotted hf] at hother
      split at hother
      · cases hother
      · rename_i hne
        obtain ⟨g, hg, hslot⟩ := h.occupied slot other hother
        refine ⟨g, ?_, hslot⟩
        rw [get?_vacate, if_neg, hg]
        rintro rfl
        cases hf.symm.trans hg
        exact hne hslot.symm

theorem Filled.loseChild (h : a.Filled) (parent : FrameId) : (a.loseChild parent).Filled := by
  refine h.modify parent fun f _ => ?_
  rfl

theorem Filled.alloc (h : a.Filled) (parent : Option FrameId) (object : Option Value)
    (bindsObject : Bool) : (a.alloc parent object bindsObject).2.Filled := by
  cases hparent : parent.filter a.isLive with
  | none =>
    rw [alloc_of_dead hparent]
    exact h.place _
  | some p =>
    rw [alloc_of_live hparent]
    refine Filled.place (h.modify p fun f _ => ?_) _
    rfl

theorem Filled.freeAll (h : a.Filled) (gone : List FrameId) : (a.freeAll gone).Filled := by
  have hvacate : (gone.foldl Arena.vacate a).Filled :=
    List.foldlRecOn gone Arena.vacate h fun _ ha id _ => ha.vacate id
  exact List.foldlRecOn _ Arena.loseChild hvacate fun _ ha id _ => ha.loseChild id

/-! ## Live frames -/

/-- The live frames in the order of their slots. -/
def occupants (a : Arena) : List FrameId := (List.range a.slots.size).filterMap a.idInSlot?

theorem Filled.mem_occupants (h : a.Filled) : id ∈ a.occupants ↔ a.isLive id = true := by
  unfold occupants
  rw [List.mem_filterMap]
  constructor
  · rintro ⟨slot, -, hslot⟩
    obtain ⟨f, hf, -⟩ := h.occupied slot id hslot
    exact isLive_of_get? hf
  · intro hlive
    obtain ⟨f, hf⟩ := Option.isSome_iff_exists.1 hlive
    have hhome := h.home id f hf
    exact ⟨f.slot, List.mem_range.2 (lt_of_idInSlot? hhome), hhome⟩

theorem Filled.nodup_occupants (h : a.Filled) : a.occupants.Nodup := by
  refine List.Nodup.filterMap (fun slot slot' id hid hid' => ?_) List.nodup_range
  obtain ⟨f, hf, hslot⟩ := h.occupied slot id hid
  obtain ⟨g, hg, hslot'⟩ := h.occupied slot' id hid'
  cases hf.symm.trans hg
  exact hslot.symm.trans hslot'

/-- The slots that are not on the free list are those of the live frames. -/
theorem Filled.live_eq (h : a.Filled) : a.live = a.occupants.length := by
  have hfree : a.free.Perm ((List.range a.slots.size).filter fun i => (a.idInSlot? i).isNone) := by
    refine (List.perm_ext_iff_of_nodup h.distinct (List.nodup_range.filter _)).2 fun slot => ?_
    rw [List.mem_filter, List.mem_range, Option.isNone_iff_eq_none]
    exact ⟨h.vacant slot, fun ⟨hlt, hnone⟩ => h.listed slot hlt hnone⟩
  have hsplit : ∀ slots : List Nat, (slots.filterMap a.idInSlot?).length +
      (slots.filter fun i => (a.idInSlot? i).isNone).length = slots.length := by
    intro slots
    induction slots with
    | nil => rfl
    | cons slot rest ih =>
      cases hslot : a.idInSlot? slot <;> simp [hslot] <;> omega
  have hall := hsplit (List.range a.slots.size)
  rw [List.length_range] at hall
  rw [live, hfree.length_eq, occupants]
  omega

/-! ## Parents and children -/

theorem lineage_empty : empty.Lineage :=
  have hnone : ∀ {id f}, empty.get? id ≠ some f := fun hf =>
    absurd (serial_lt_of_get? hf) (Nat.not_lt_zero _)
  ⟨fun _ _ _ hf => absurd hf hnone, fun _ _ _ hf => absurd hf hnone,
    fun _ _ hf => absurd hf hnone⟩

theorem Lineage.countsChildren (h : a.Lineage) : a.CountsChildren := by
  intro p hp
  obtain ⟨i, -, hi⟩ := List.countP_pos_iff.1 hp
  obtain ⟨f, hf, hparent⟩ := (Option.any_eq_true ..).1 hi
  obtain ⟨g, hg⟩ := h.parent _ f p hf (of_decide_eq_true hparent)
  exact ⟨g, hg, Nat.le_of_eq (h.children p g hg).symm⟩

/-- The same frames, with the same parents and as many children. -/
theorem Lineage.of_kin (h : a.Lineage) (hsize : b.frames.size = a.frames.size)
    (hget : ∀ id, (b.get? id).map (fun f => (f.parent, f.children)) =
      (a.get? id).map fun f => (f.parent, f.children)) : b.Lineage := by
  have hold : ∀ {id f}, b.get? id = some f →
      ∃ g, a.get? id = some g ∧ g.parent = f.parent ∧ g.children = f.children := by
    intro id f hf
    have hid := hget id
    rw [hf] at hid
    obtain ⟨g, hg, he⟩ := Option.map_eq_some_iff.1 hid.symm
    exact ⟨g, hg, (Prod.mk.inj he).1, (Prod.mk.inj he).2⟩
  have hnew : ∀ {id g}, a.get? id = some g → ∃ f, b.get? id = some f := by
    intro id g hg
    have hid := hget id
    rw [hg] at hid
    obtain ⟨f, hf, -⟩ := Option.map_eq_some_iff.1 hid
    exact ⟨f, hf⟩
  have hcount : ∀ p, b.childCount p = a.childCount p := by
    refine fun p => childCount_congr hsize fun id => ?_
    have hid := congrArg (Option.map fun k => decide (k.1 = some p)) (hget id)
    unfold isChildOf
    cases hb : b.get? id <;> cases ha : a.get? id <;> simp_all
  refine ⟨fun id f p hf hp => ?_, fun id f p hf hp => ?_, fun id f hf => ?_⟩
  · obtain ⟨g, hg, hparent, -⟩ := hold hf
    obtain ⟨k, hk⟩ := h.parent id g p hg (hparent.trans hp)
    exact hnew hk
  · obtain ⟨g, hg, hparent, -⟩ := hold hf
    exact h.older id g p hg (hparent.trans hp)
  · obtain ⟨g, hg, -, hchildren⟩ := hold hf
    rw [hcount, ← hchildren]
    exact h.children id g hg

theorem childCount_alloc (parent : Option FrameId) (object : Option Value) (bindsObject : Bool)
    (p : FrameId) : (a.alloc parent object bindsObject).2.childCount p =
      a.childCount p + if parent.filter a.isLive = some p then 1 else 0 := by
  cases hparent : parent.filter a.isLive with
  | none => rw [alloc_of_dead hparent, childCount_place]
  | some q =>
    have hsame : (a.modify q fun f => { f with children := f.children + 1 }).childCount p =
        a.childCount p := by
      refine childCount_modify q ?_ p
      exact fun _ => rfl
    rw [alloc_of_live hparent, childCount_place, hsame]

/-- A frame that is not live has no live children. -/
theorem Lineage.childCount_eq_zero (h : a.Lineage) (hid : a.get? id = none) :
    a.childCount id = 0 := by
  refine Nat.eq_zero_of_not_pos fun hpos => ?_
  obtain ⟨g, hg, -⟩ := h.countsChildren id hpos
  rw [hid] at hg
  cases hg

theorem Lineage.alloc (h : a.Lineage) (parent : Option FrameId) (object : Option Value)
    (bindsObject : Bool) : (a.alloc parent object bindsObject).2.Lineage := by
  have hstays : ∀ {p g}, a.get? p = some g →
      ∃ g', (a.alloc parent object bindsObject).2.get? p = some g' :=
    fun hg => ⟨_, get?_alloc_of_get? hg parent object bindsObject⟩
  have hfilter : ∀ {p}, parent.filter a.isLive = some p → ∃ g, a.get? p = some g := fun hp =>
    Option.isSome_iff_exists.1 (Option.filter_eq_some_iff.1 hp).2
  refine ⟨fun id f p hf hp => ?_, fun id f p hf hp => ?_, fun id f hf => ?_⟩
  · rcases get?_of_alloc hf with ⟨rfl, rfl⟩ | ⟨g, hg, rfl⟩
    · obtain ⟨k, hk⟩ := hfilter hp
      exact hstays hk
    · obtain ⟨k, hk⟩ := h.parent id g p hg hp
      exact hstays hk
  · rcases get?_of_alloc hf with ⟨rfl, rfl⟩ | ⟨g, hg, rfl⟩
    · obtain ⟨k, hk⟩ := hfilter hp
      exact serial_lt_of_get? hk
    · exact h.older id g p hg hp
  · rw [childCount_alloc]
    rcases get?_of_alloc hf with ⟨rfl, rfl⟩ | ⟨g, hg, rfl⟩
    · have hnone : a.get? ⟨a.frames.size⟩ = none := get?_eq_none_of_size_le (Nat.le_refl _)
      have hparent : parent.filter a.isLive ≠ some ⟨a.frames.size⟩ := by
        intro hp
        obtain ⟨g, hg⟩ := hfilter hp
        rw [hnone] at hg
        cases hg
      rw [h.childCount_eq_zero hnone, if_neg hparent]
    · have hiff : parent.filter a.isLive = some id ↔ parent = some id := by
        rw [Option.filter_eq_some_iff]
        exact ⟨fun hp => hp.1, fun hp => ⟨hp, isLive_of_get? hg⟩⟩
      dsimp only
      rw [h.children id g hg]
      simp only [hiff]

theorem childCount_freeAll (hnodup : gone.Nodup) (p : FrameId) :
    a.childCount p = (a.freeAll gone).childCount p +
      ((gone.filterMap a.get?).filterMap Frame.parent).count p := by
  rw [childCount_foldl_vacate hnodup p]
  congr 1
  refine (childCount_congr (by simp [Arena.freeAll]) fun id => ?_).symm
  unfold isChildOf
  rw [get?_freeAll, get?_foldl_vacate]
  split
  · rfl
  · cases a.get? id <;> rfl

/-- Frames may be freed together with all their children. -/
theorem Lineage.freeAll (h : a.Lineage) (hnodup : gone.Nodup)
    (hchildren : ∀ id f p, a.get? id = some f → f.parent = some p → p ∈ gone → id ∈ gone) :
    (a.freeAll gone).Lineage := by
  have hold : ∀ {id f}, (a.freeAll gone).get? id = some f → id ∉ gone ∧
      ∃ g, a.get? id = some g ∧ f.parent = g.parent ∧ f.children =
        g.children - ((gone.filterMap a.get?).filterMap Frame.parent).count id := by
    intro id f hf
    rw [get?_freeAll] at hf
    split at hf
    · cases hf
    · rename_i hid
      obtain ⟨g, hg, rfl⟩ := Option.map_eq_some_iff.1 hf
      exact ⟨hid, g, hg, rfl, rfl⟩
  refine ⟨fun id f p hf hp => ?_, fun id f p hf hp => ?_, fun id f hf => ?_⟩
  · obtain ⟨hid, g, hg, hparent, -⟩ := hold hf
    obtain ⟨k, hk⟩ := h.parent id g p hg (hparent ▸ hp)
    have hstays : p ∉ gone := fun hgone => hid (hchildren id g p hg (hparent ▸ hp) hgone)
    exact ⟨_, by rw [get?_freeAll, if_neg hstays, hk]; rfl⟩
  · obtain ⟨-, g, hg, hparent, -⟩ := hold hf
    exact h.older id g p hg (hparent ▸ hp)
  · obtain ⟨-, g, hg, -, hcount⟩ := hold hf
    have hsum := childCount_freeAll (a := a) hnodup id
    have hexact := h.children id g hg
    omega

/-- Every chain of parents ends with a frame that has none. -/
theorem Lineage.chain_ends (h : a.Lineage) (hf : a.get? id = some f) :
    ∃ g, (a.chain id).getLast? = some g ∧ g.parent = none := by
  have hgo : ∀ steps {id f}, a.get? id = some f → id.serial < steps →
      ∃ g, (chain.go a steps id).getLast? = some g ∧ g.parent = none := by
    intro steps
    induction steps with
    | zero => exact fun _ hlt => absurd hlt (Nat.not_lt_zero _)
    | succ steps ih =>
      intro id f hf hlt
      rw [chain.go, hf]
      cases hp : f.parent with
      | none => exact ⟨f, by simp [hp], hp⟩
      | some p =>
        obtain ⟨k, hk⟩ := h.parent id f p hf hp
        have hyounger := h.older id f p hf hp
        obtain ⟨g, hg, hnone⟩ := ih hk (by omega)
        refine ⟨g, ?_, hnone⟩
        simp only [hp, Option.elim_some]
        rw [List.getLast?_cons, hg]
        rfl
  exact hgo _ hf (Nat.lt_succ_self _)

/-! ## Intact arenas -/

theorem intact_empty : empty.Intact := ⟨filled_empty, lineage_empty⟩

theorem Intact.alloc (h : a.Intact) (parent : Option FrameId) (object : Option Value)
    (bindsObject : Bool) : (a.alloc parent object bindsObject).2.Intact :=
  ⟨h.filled.alloc parent object bindsObject, h.lineage.alloc parent object bindsObject⟩

/-- Changes that leave the slot, the parent and the children of a frame alone. -/
theorem Intact.modify (h : a.Intact) (id : FrameId) {change : Frame → Frame}
    (hslot : ∀ f, a.get? id = some f → (change f).slot = f.slot)
    (hkin : ∀ f, a.get? id = some f →
      (change f).parent = f.parent ∧ (change f).children = f.children) :
    (a.modify id change).Intact := by
  refine ⟨h.filled.modify id hslot, h.lineage.of_kin (by simp) fun other => ?_⟩
  rw [get?_modify]
  split
  · subst other
    cases hf : a.get? id with
    | none => rfl
    | some f => simp [hkin f hf]
  · rfl

theorem Intact.sameBut (h : a.Intact) (hab : a.SameButHolders b) : b.Intact :=
  ⟨h.filled.of_slot hab.slots hab.free (hab.map fun _ => rfl),
    h.lineage.of_kin hab.size (hab.map fun _ => rfl)⟩

theorem Intact.freeAll (h : a.Intact) (hnodup : gone.Nodup)
    (hchildren : ∀ id f p, a.get? id = some f → f.parent = some p → p ∈ gone → id ∈ gone) :
    (a.freeAll gone).Intact :=
  ⟨h.filled.freeAll gone, h.lineage.freeAll hnodup hchildren⟩

end ScriptVM.Arena
