import ScriptVM.Frame.Holding
import ScriptVM.Proofs.Collection.Balance
import ScriptVM.Proofs.Collection.Intact
import ScriptVM.Proofs.Collection.Release

/-!
# Orderly holdings

A holding is exact when its tally is balanced and its arena is intact. It is orderly when, besides,
nothing refers to what was never made, and every live frame that nothing holds is still to be looked
at. Noting references, taking them back, changing single frames and freeing abandoned frames keep a
holding orderly, and a frame that was settled need not be looked at again.
-/
namespace ScriptVM

/-- What refers to as much as before, but for what it gives up and what it takes on, refers to nothing
else. -/
theorem forall_target_of_hits {new gone old owed : List Reference} {p : Target → Prop}
    (hmoved : ∀ x, hits x new + hits x gone = hits x old + hits x owed)
    (hold : ∀ r ∈ old, p r.target) (howed : ∀ r ∈ owed, p r.target) : ∀ r ∈ new, p r.target := by
  intro r hr
  have hpos := hits_pos hr
  have hmove := hmoved r.target
  rcases Nat.eq_zero_or_pos (hits r.target old) with hzero | hpos'
  · obtain ⟨q, hq, he⟩ := hits_pos_iff.1 (show 0 < hits r.target owed by omega)
    exact he ▸ howed q hq
  · obtain ⟨q, hq, he⟩ := hits_pos_iff.1 hpos'
    exact he ▸ hold q hq

/-! ## Balanced tallies of changed frames and objects -/

namespace Tally

variable {t t' : Tally} {h h' : Heap} {others owed gone : List Reference} {freed : List FrameId}

/-- The same counts, while what exists refers to things otherwise. -/
theorem Balanced.change (ht : t.Balanced h others []) (hcounts : t'.counts = t.counts)
    (hsize : h'.objects.size = h.objects.size)
    (hholders : ∀ id n, t'.tracked (.frame id) = some n → t.tracked (.frame id) = some n)
    (hdemand : ∀ x, t'.demand h' x + hits x gone = t.demand h x + hits x owed) :
    t'.Balanced h' (gone ++ others) owed := by
  refine ⟨by rw [hcounts, hsize, ht.size], fun x n hn => ?_⟩
  have hold : t.tracked x = some n := by
    cases x with
    | object v => rwa [tracked, ← hcounts]
    | frame id => exact hholders id n hn
  have hbalance := ht.balance x n hold
  have hmoved := hdemand x
  rw [hits_nil] at hbalance
  rw [hits_append]
  omega

/-- What was in freed frames is to be let go. -/
theorem Balanced.freeAll (ht : t.Balanced h others []) (hnodup : freed.Nodup) :
    (t.mapArena fun a => a.freeAll freed).Balanced h
      ((freed.filterMap t.arena.get?).flatMap Frame.parts ++ others) [] := by
  refine ht.change rfl rfl (fun id n hn => ?_) fun x => ?_
  · have hn' : ((t.arena.freeAll freed).get? id).map Frame.holders = some n := hn
    rw [Arena.get?_freeAll] at hn'
    split at hn'
    · cases hn'
    · rw [tracked, ← hn']
      cases t.arena.get? id <;> rfl
  · have hsum := Arena.demand_freeAll (a := t.arena) hnodup x
    change h.demand t.has x + (t.arena.freeAll freed).demand x + _ = _
    rw [demand, hits_nil]
    omega

/-- There is room for all counts. -/
theorem fit_of_size (hsize : t.counts.size = h.objects.size) : t.fit h = t := by
  cases t
  dsimp only at hsize
  simp [fit, hsize]

end Tally

namespace Holding

variable {s s' : Holding} {gone owed : List Reference} {due due' : List FrameId} {x : Target}
  {r : Reference} {id : FrameId} {f : Frame}

/-! ## Exact counts -/

/-- Everything is counted exactly, among frames that are intact. -/
structure Exact (s : Holding) : Prop where
  balanced : s.toTally.Balanced s.heap s.kept []
  intact : s.arena.Intact

theorem Exact.sound (h : s.Exact) : s.Sound :=
  ⟨h.balanced.covers, h.intact.lineage.countsChildren⟩

/-- Whatever a collection frees, counts stay exact. -/
theorem persistent_exact : Persistent Exact where
  sound h := h.sound
  free {s gone _} h hlost hnodup hgone := by
    refine ⟨(h.balanced.freeAll hnodup).letGo ?_, ?_⟩
    · have hsize : (s.mapArena fun a => a.freeAll gone).counts.size = s.heap.objects.size :=
        h.balanced.size
      exact Nat.lt_succ_of_le (hsize ▸ Tally.existing_le _)
    · exact (h.intact.freeAll hnodup fun _ _ _ => hlost.children h.sound hgone).sameBut
        (s.sameBut_free gone)
  take h := ⟨⟨h.balanced.size, h.balanced.balance⟩, h.intact⟩

/-- When a live frame changes, what it gives up is gone and what it takes on is owed. -/
theorem Exact.modify (h : s.Exact) (hf : s.arena.get? id = some f) {change : Frame → Frame}
    (hslot : (change f).slot = f.slot)
    (hkin : (change f).parent = f.parent ∧ (change f).children = f.children)
    (hholders : (change f).holders = f.holders)
    (hparts : ∀ x, hits x (change f).parts + hits x gone = hits x f.parts + hits x owed) :
    (s.toTally.mapArena fun a => a.modify id change).Balanced s.heap (gone ++ s.kept) owed ∧
      (s.arena.modify id change).Intact := by
  refine ⟨h.balanced.change rfl rfl (fun other n hn => ?_) fun x => ?_,
    h.intact.modify id (fun g hg => ?_) fun g hg => ?_⟩
  · obtain ⟨g, hg, rfl⟩ := Option.map_eq_some_iff.1 hn
    change (s.arena.modify id change).get? other = some g at hg
    rw [Arena.get?_modify] at hg
    split at hg
    · subst other
      obtain ⟨k, hk, rfl⟩ := Option.map_eq_some_iff.1 hg
      cases hf.symm.trans hk
      rw [hholders]
      exact Tally.tracked_frame hf
    · exact Tally.tracked_frame hg
  · have hmoved := s.arena.demand_modify hf change x
    have hframe := hparts x
    change s.heap.demand s.toTally.has x + (s.arena.modify id change).demand x +
      _ = s.heap.demand s.toTally.has x + s.arena.demand x + _
    omega
  · cases hf.symm.trans hg
    exact hslot
  · cases hf.symm.trans hg
    exact hkin

/-- Counts stay exact when an activation ends and its frame is let go of. -/
theorem Exact.release (h : s.Exact) (hf : s.arena.get? id = some f) : (s.release id).Exact := by
  have hended : (s.ended id).Exact := by
    obtain ⟨hbalanced, hintact⟩ :
        (s.toTally.mapArena fun a => a.modify id Frame.deactivate).Balanced s.heap
          ((if f.active ≤ 1 then f.operands else []) ++ s.kept) [] ∧
        (s.arena.modify id Frame.deactivate).Intact := by
      refine h.modify hf f.slot_deactivate ⟨f.parent_deactivate, f.children_deactivate⟩
        f.holders_deactivate fun x => ?_
      rw [hits_nil, Nat.add_zero]
      exact f.hits_parts_deactivate x
    unfold Holding.ended
    rw [hf, Option.elim_some]
    refine ⟨hbalanced.letGo ?_, hintact.sameBut (Tally.sameBut_letGo s.heap _ _
      (s.toTally.mapArena fun a => a.modify id Frame.deactivate))⟩
    exact Nat.lt_succ_of_le (h.balanced.size ▸ Tally.existing_le _)
  have hsettle := persistent_exact.steady.settle id hended
  rw [release_eq hf]
  split
  · exact persistent_exact.steady.settleDropped (persistent_exact.collectFrom [id] hsettle)
  · exact persistent_exact.steady.settleDropped hsettle

/-! ## What was made -/

/-- Whether an object or a frame was ever made. -/
def Made (s : Holding) : Target → Prop
  | .object v => v.address < s.heap.objects.size
  | .frame id => id.serial < s.arena.frames.size

/-- Objects, frames and the owner only refer to what was made. -/
structure Bounded (s : Holding) : Prop where
  objects : ∀ v, ∀ r ∈ (s.heap.get v).parts, s.Made r.target
  frames : ∀ id f, s.arena.get? id = some f → ∀ r ∈ f.parts, s.Made r.target
  kept : ∀ r ∈ s.kept, s.Made r.target

theorem Made.of_size (hx : s.Made x) (hheap : s.heap.objects.size ≤ s'.heap.objects.size)
    (hframes : s.arena.frames.size ≤ s'.arena.frames.size) : s'.Made x := by
  cases x with
  | object v => exact Nat.lt_of_lt_of_le hx hheap
  | frame id => exact Nat.lt_of_lt_of_le hx hframes

/-- Frames that refer to no more than before, among the same objects. -/
theorem Bounded.of_frames (h : s.Bounded) (hheap : s'.heap = s.heap) (hkept : s'.kept = s.kept)
    (hsize : s'.arena.frames.size = s.arena.frames.size)
    (hframes : ∀ id f, s'.arena.get? id = some f →
      ∃ g, s.arena.get? id = some g ∧ f.parts = g.parts) : s'.Bounded := by
  have hmade : ∀ {x}, s.Made x → s'.Made x := fun hx =>
    hx.of_size (hheap ▸ Nat.le_refl _) (Nat.le_of_eq hsize.symm)
  refine ⟨fun v r hr => hmade (h.objects v r (hheap ▸ hr)), fun id f hf r hr => ?_,
    fun r hr => hmade (h.kept r (hkept ▸ hr))⟩
  obtain ⟨g, hg, hparts⟩ := hframes id f hf
  exact hmade (h.frames id g hg r (hparts ▸ hr))

/-- Nothing that exists refers to what was never made. -/
theorem Bounded.demand_eq_zero (h : s.Bounded) (hx : ¬s.Made x) :
    s.toTally.demand s.heap x = 0 := by
  have hzero : ∀ rs : List Reference, (∀ r ∈ rs, s.Made r.target) → hits x rs = 0 := fun rs hrs =>
    Nat.eq_zero_of_not_pos fun hpos => by
      obtain ⟨r, hr, rfl⟩ := hits_pos_iff.1 hpos
      exact hx (hrs r hr)
  have hobjects : s.heap.demand s.has x = 0 := Finset.sum_eq_zero fun i _ => by
    rw [hzero _ (h.objects ⟨i⟩)]
    split <;> rfl
  have hframes : s.arena.demand x = 0 := Finset.sum_eq_zero fun i _ => by
    cases hf : s.arena.get? ⟨i⟩ with
    | none => rfl
    | some f => exact hzero _ (h.frames ⟨i⟩ f hf)
  rw [Tally.demand, hobjects, hframes]

theorem Bounded.kept_eq_zero (h : s.Bounded) (hx : ¬s.Made x) : hits x s.kept = 0 :=
  Nat.eq_zero_of_not_pos fun hpos => by
    obtain ⟨r, hr, rfl⟩ := hits_pos_iff.1 hpos
    exact hx (h.kept r hr)

/-! ## Orderly holdings -/

/-- Everything is counted, but for what is gone and for what is owed, and the frames that nothing
holds are dropped or due. -/
structure Orderly (s : Holding) (gone owed : List Reference) (due : List FrameId) : Prop where
  balanced : s.toTally.Balanced s.heap (gone ++ s.kept) owed
  intact : s.arena.Intact
  bounded : s.Bounded
  names : s.frames.names.Nodup ∧ s.values.names.Nodup
  pending : ∀ id f, s.arena.get? id = some f → f.held = 0 → id ∈ s.dropped ∨ id ∈ due

theorem Orderly.exact (h : s.Orderly [] [] due) : s.Exact := ⟨h.balanced, h.intact⟩

theorem Orderly.sound (h : s.Orderly [] [] due) : s.Sound := h.exact.sound

/-- Frames that are held, or not there at all, need not be looked at. -/
theorem Orderly.due_of (h : s.Orderly gone owed due)
    (hdue : ∀ id f, s.arena.get? id = some f → f.held = 0 → id ∈ due → id ∈ due') :
    s.Orderly gone owed due' :=
  { h with pending := fun id f hf hheld => (h.pending id f hf hheld).imp_right (hdue id f hf hheld) }

/-- Changes of counts, as long as the frames that lost their last holder are noticed. -/
theorem Orderly.of_tally (h : s.Orderly gone owed due) {t : Tally} {gone' owed' : List Reference}
    (ht : t.Balanced s.heap (gone' ++ s.kept) owed') (hsame : s.arena.SameButHolders t.arena)
    (hnotices : s.toTally.Notices t) :
    Orderly { s with toTally := t } gone' owed' due where
  balanced := ht
  intact := h.intact.sameBut hsame
  bounded := h.bounded.of_frames rfl rfl hsame.size fun id f hf => by
    obtain ⟨n, hn⟩ := hsame.get? hf
    exact ⟨_, hn, rfl⟩
  names := h.names
  pending id f hf hheld := by
    rcases hnotices.unheld id f hf hheld with hdropped | ⟨g, hg, hunheld⟩
    · exact .inl hdropped
    · exact (h.pending id g hg hunheld).imp_left (hnotices.dropped id)

/-- References to what was made can be noted. -/
theorem Orderly.hold (h : s.Orderly gone owed due) (howed : ∀ r ∈ owed, s.Made r.target) :
    (s.hold owed).Orderly gone [] due := by
  obtain ⟨t, heap, frames, values⟩ := s
  have hsize := h.balanced.size
  have hhold : Holding.hold ⟨t, heap, frames, values⟩ owed =
      ⟨t.hold heap (heap.objects.size + 1) owed, heap, frames, values⟩ := by
    rw [Holding.hold, Tally.fit_of_size hsize]
  rw [hhold]
  refine h.of_tally (h.balanced.hold (fun v hv => howed _ hv) (fun u v hv => ?_) ?_)
    (Tally.sameBut_hold ..) (Tally.notices_hold ..)
  · exact h.bounded.objects u _ hv
  · exact Nat.lt_succ_of_le (hsize ▸ t.missing_le)

/-- What is gone can be let go. -/
theorem Orderly.letGo (h : s.Orderly gone [] due) : (s.letGo gone).Orderly [] [] due := by
  obtain ⟨t, heap, frames, values⟩ := s
  refine h.of_tally (h.balanced.letGo ?_) (Tally.sameBut_letGo ..) (Tally.notices_letGo ..)
  exact Nat.lt_succ_of_le (h.balanced.size ▸ t.existing_le)

/-- A change of a live frame, which gives up some references and takes on others. -/
theorem Orderly.modify (h : s.Orderly [] [] due) (hf : s.arena.get? id = some f)
    {change : Frame → Frame} (hslot : (change f).slot = f.slot)
    (hkin : (change f).parent = f.parent ∧ (change f).children = f.children)
    (hholders : (change f).holders = f.holders)
    (hparts : ∀ x, hits x (change f).parts + hits x gone = hits x f.parts + hits x owed)
    (howed : ∀ r ∈ owed, s.Made r.target)
    (hheld : (change f).held = 0 → id ∈ due' ∨ f.held = 0) (hdue : ∀ id ∈ due, id ∈ due') :
    (s.mapArena fun a => a.modify id change).Orderly gone owed due' := by
  obtain ⟨hbalanced, hintact⟩ := h.exact.modify hf hslot hkin hholders hparts
  have hget : ∀ {other g}, (s.arena.modify id change).get? other = some g →
      other = id ∧ g = change f ∨ other ≠ id ∧ s.arena.get? other = some g := by
    intro other g hg
    rw [Arena.get?_modify] at hg
    split at hg
    · rename_i he
      obtain ⟨k, hk, rfl⟩ := Option.map_eq_some_iff.1 hg
      cases hf.symm.trans hk
      exact .inl ⟨he, rfl⟩
    · rename_i hne
      exact .inr ⟨hne, hg⟩
  have hmade : ∀ {x}, s.Made x →
      (s.mapArena fun a => a.modify id change).Made x := fun hx =>
    hx.of_size (Nat.le_refl _) (Nat.le_of_eq (s.arena.size_frames_modify id change).symm)
  refine ⟨hbalanced, hintact,
    ⟨fun v r hr => hmade (h.bounded.objects v r hr), fun other g hg r hr => ?_,
    fun r hr => hmade (h.bounded.kept r hr)⟩, h.names, fun other g hg hunheld => ?_⟩
  · rcases hget hg with ⟨rfl, rfl⟩ | ⟨-, hold⟩
    · exact hmade (forall_target_of_hits hparts (h.bounded.frames other f hf) howed r hr)
    · exact hmade (h.bounded.frames other g hold r hr)
  · rcases hget hg with ⟨rfl, rfl⟩ | ⟨-, hold⟩
    · rcases hheld hunheld with hdue' | hunheld'
      · exact .inr hdue'
      · exact (h.pending other f hf hunheld').imp_right (hdue other)
    · exact (h.pending other g hold hunheld).imp_right (hdue other)

/-! ## Freeing frames -/

theorem Orderly.freeAll {freed : List FrameId} (h : s.Orderly [] [] due) (hnodup : freed.Nodup)
    (hchildren : ∀ id f p, s.arena.get? id = some f → f.parent = some p → p ∈ freed → id ∈ freed) :
    (s.mapArena fun a => a.freeAll freed).Orderly
      ((freed.filterMap s.arena.get?).flatMap Frame.parts) []
      ((freed.filterMap s.arena.get?).filterMap Frame.parent ++ due) := by
  have hold : ∀ {id f}, (s.arena.freeAll freed).get? id = some f →
      ∃ g, s.arena.get? id = some g ∧ f = { g with children := g.children -
        ((freed.filterMap s.arena.get?).filterMap Frame.parent).count id } := by
    intro id f hf
    rw [Arena.get?_freeAll] at hf
    split at hf
    · cases hf
    · obtain ⟨g, hg, rfl⟩ := Option.map_eq_some_iff.1 hf
      exact ⟨g, hg, rfl⟩
  refine ⟨h.balanced.freeAll hnodup, h.intact.freeAll hnodup hchildren,
    h.bounded.of_frames rfl rfl (Arena.size_frames_freeAll ..) fun id f hf => ?_, h.names,
    fun id f hf hheld => ?_⟩
  · obtain ⟨g, hg, rfl⟩ := hold hf
    exact ⟨g, hg, rfl⟩
  · obtain ⟨g, hg, rfl⟩ := hold hf
    rcases Nat.eq_zero_or_pos
      (((freed.filterMap s.arena.get?).filterMap Frame.parent).count id) with hzero | hpos
    · have hunheld : g.held = 0 := by
        unfold Frame.held at hheld ⊢
        dsimp only at hheld
        omega
      exact (h.pending id g hg hunheld).imp_right (List.mem_append_right _)
    · exact .inr (List.mem_append_left _ (List.count_pos_iff.1 hpos))

/-- Abandoned frames can be freed. Their parents are to be looked at. -/
theorem Orderly.free {lost : Target → Prop} {freed : List FrameId} (h : s.Orderly [] [] due)
    (hlost : s.Abandoned lost) (hnodup : freed.Nodup)
    (hfreed : ∀ id, s.arena.isLive id = true → (id ∈ freed ↔ lost (.frame id))) :
    (s.free freed).Orderly [] [] ((freed.filterMap s.arena.get?).filterMap Frame.parent ++ due) :=
  (h.freeAll hnodup fun _ _ _ => hlost.children h.sound hfreed).letGo

theorem get?_free_of_mem {freed : List FrameId} (hid : id ∈ freed) :
    (s.free freed).arena.get? id = none := by
  have hsame := s.sameBut_free freed
  refine Option.eq_none_iff_forall_ne_some.2 fun f hf => ?_
  obtain ⟨n, hn⟩ := hsame.get? hf
  rw [Arena.get?_freeAll, if_pos hid] at hn
  cases hn

/-- A frame that is held, or not there at all, need not be looked at. -/
theorem Orderly.due_tail (h : s.Orderly gone owed (id :: due))
    (hid : ∀ f, s.arena.get? id = some f → f.held ≠ 0) : s.Orderly gone owed due := by
  refine h.due_of fun other f hf hheld hother => ?_
  rcases List.mem_cons.1 hother with rfl | hother
  · exact absurd hheld (hid f hf)
  · exact hother

/-- A frame that nothing holds can be freed. Its parent is to be looked at next. -/
theorem Orderly.free_unheld (h : s.Orderly [] [] (id :: due)) (hf : s.arena.get? id = some f)
    (hheld : f.held = 0) : (s.free [id]).Orderly [] [] (f.parent.toList ++ due) := by
  have hfree := h.free (h.sound.abandoned_of_unheld hf hheld) (List.nodup_singleton id)
    fun other _ => by simp
  have hgone : (s.free [id]).arena.get? id = none := get?_free_of_mem List.mem_cons_self
  have hfreed : ([id].filterMap s.arena.get?).filterMap Frame.parent = f.parent.toList := by
    cases hp : f.parent <;> simp [hf, hp]
  rw [hfreed] at hfree
  refine hfree.due_of fun other g hg _ hother => ?_
  rcases List.mem_append.1 hother with hparent | hother
  · exact List.mem_append_left _ hparent
  · rcases List.mem_cons.1 hother with rfl | hother
    · rw [hgone] at hg
      cases hg
    · exact List.mem_append_right _ hother

theorem Orderly.settle_go (steps : Nat) (id : FrameId) (h : s.Orderly [] [] (id :: due))
    (hsteps : id.serial < steps) : (settle.go steps s id).Orderly [] [] due := by
  induction steps generalizing s id with
  | zero => exact absurd hsteps (Nat.not_lt_zero _)
  | succ steps ih =>
    unfold settle.go
    cases hf : s.arena.get? id with
    | none => exact h.due_tail fun f hlive => absurd (hf.symm.trans hlive) (Option.some_ne_none f).symm
    | some f =>
      dsimp only
      split
      · rename_i hheld
        have hnext := h.free_unheld hf hheld
        rw [settle_step_eq h.sound hf hheld] at hnext
        cases hp : f.parent with
        | none =>
          rw [hp] at hnext
          exact hnext
        | some parent =>
          rw [hp] at hnext
          have hyounger := h.intact.lineage.older id f parent hf hp
          exact ih parent hnext (by omega)
      · rename_i hheld
        refine h.due_tail fun g hg => ?_
        cases hf.symm.trans hg
        exact hheld

/-- A frame that was settled need not be looked at. -/
theorem Orderly.settle (h : s.Orderly [] [] (id :: due)) : (s.settle id).Orderly [] [] due :=
  h.settle_go _ id (Nat.lt_succ_self _)

theorem Orderly.settles (ids : List FrameId) (h : s.Orderly [] [] (ids ++ due)) :
    (ids.foldl Holding.settle s).Orderly [] [] due := by
  induction ids generalizing s with
  | nil => exact h
  | cons id rest ih => exact ih h.settle

theorem Orderly.takeDropped (h : s.Orderly [] [] due) :
    s.takeDropped.2.Orderly [] [] (s.takeDropped.1 ++ due) := by
  obtain ⟨⟨arena, counts, dropped⟩, heap, frames, values⟩ := s
  refine ⟨⟨h.balanced.size, h.balanced.balance⟩, h.intact, ⟨h.bounded.objects, h.bounded.frames,
    h.bounded.kept⟩, h.names, fun id f hf hheld => .inr (List.mem_append.2 ?_)⟩
  exact (h.pending id f hf hheld).imp_left List.mem_reverse.2

end Holding
end ScriptVM
