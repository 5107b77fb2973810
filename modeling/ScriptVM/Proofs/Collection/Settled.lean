import Mathlib.Data.List.Perm.Subperm
import ScriptVM.Proofs.Collection.Orderly

/-!
# Settled holdings

A holding is settled when something holds every live frame. Each round of looking at the frames that
lost their last holder frees a frame or is the last one, so there are rounds enough to settle an
orderly holding. The end of an activation and a collection leave a holding settled.
-/
namespace ScriptVM.Holding

variable {s s' s'' : Holding} {due : List FrameId} {id : FrameId} {f : Frame}

/-- Something holds every live frame: an activation, a live child or a reference. -/
def Settled (s : Holding) : Prop :=
  ∀ id f, s.arena.get? id = some f → 0 < f.active + f.children + f.holders

theorem Orderly.settled (h : s.Orderly [] [] []) (hdropped : s.dropped = []) : s.Settled := by
  intro id f hf
  refine Nat.pos_of_ne_zero fun hheld => ?_
  rcases h.pending id f hf hheld with hid | hid
  · rw [hdropped] at hid
    cases hid
  · cases hid

/-! ## Rounds -/

/-- Nothing happened, or a live frame was freed. -/
def Progress (s s' : Holding) : Prop :=
  s' = s ∨ ∃ id, s.arena.isLive id = true ∧ s'.arena.isLive id = false

theorem Shrinks.isLive_of (h : s.Shrinks s') (hid : s'.arena.isLive id = true) :
    s.arena.isLive id = true := by
  obtain ⟨f', hf'⟩ := Option.isSome_iff_exists.1 hid
  obtain ⟨f, hf, -⟩ := h.old id f' hf'
  exact Arena.isLive_of_get? hf

/-- Freed frames stay freed. -/
theorem Progress.trans (h : s.Progress s') (h' : s'.Progress s'') (hshrinks : s.Shrinks s')
    (hshrinks' : s'.Shrinks s'') : s.Progress s'' := by
  rcases h with rfl | ⟨id, hlive, hdead⟩
  · exact h'
  · refine .inr ⟨id, hlive, Bool.eq_false_iff.2 fun hid => ?_⟩
    rw [hshrinks'.isLive_of hid] at hdead
    cases hdead

/-- Settling frees the frame unless something holds it. -/
theorem progress_settle (hs : s.Sound) (id : FrameId) : s.Progress (s.settle id) := by
  unfold settle settle.go
  cases hf : s.arena.get? id with
  | none => exact .inl rfl
  | some f =>
    dsimp only
    split
    · rename_i hheld
      have hfree : s.Shrinks (s.free [id]) := s.persistent_shrinks.steady.free (.refl hs) hf hheld
      have hdead : (s.free [id]).arena.isLive id = false := by
        rw [Arena.isLive, get?_free_of_mem List.mem_cons_self]
        rfl
      have hlive : s.arena.isLive id = true := Arena.isLive_of_get? hf
      rw [settle_step_eq hs hf hheld] at hfree hdead
      cases hp : f.parent with
      | none =>
        rw [hp] at hdead
        exact .inr ⟨id, hlive, hdead⟩
      | some parent =>
        rw [hp] at hfree hdead
        refine .inr ⟨id, hlive, Bool.eq_false_iff.2 fun hid => ?_⟩
        have hrest := (persistent_shrinks _).steady.settle_go id.serial parent (.refl hfree.sound)
        rw [hrest.isLive_of hid] at hdead
        cases hdead
    · exact .inl rfl

theorem progress_settles (ids : List FrameId) (hs : s.Sound) :
    s.Progress (ids.foldl settle s) := by
  induction ids generalizing s with
  | nil => exact .inl rfl
  | cons id rest ih =>
    have hfirst := shrinks_settle id hs
    exact (progress_settle hs id).trans (ih hfirst.sound) hfirst (shrinks_settles rest hfirst.sound)

/-- Fewer frames are live once one was freed. -/
theorem Shrinks.length_occupants_lt (h : s.Shrinks s') (hs : s.arena.Intact)
    (hs' : s'.arena.Intact) (hlive : s.arena.isLive id = true)
    (hdead : s'.arena.isLive id = false) :
    s'.arena.occupants.length < s.arena.occupants.length := by
  have hnodup : (id :: s'.arena.occupants).Nodup := by
    refine List.nodup_cons.2 ⟨fun hid => ?_, hs'.filled.nodup_occupants⟩
    rw [hs'.filled.mem_occupants.1 hid] at hdead
    cases hdead
  refine (List.subperm_of_subset hnodup fun other hother => ?_).length_le
  rcases List.mem_cons.1 hother with rfl | hother
  · exact hs.filled.mem_occupants.2 hlive
  · exact hs.filled.mem_occupants.2 (h.isLive_of (hs'.filled.mem_occupants.1 hother))

theorem Exact.dropped_settleDropped_go (rounds : Nat) (h : s.Exact)
    (hrounds : s.arena.occupants.length < rounds) : (settleDropped.go rounds s).dropped = [] := by
  induction rounds generalizing s with
  | zero => exact absurd hrounds (Nat.not_lt_zero _)
  | succ rounds ih =>
    have htake := persistent_exact.take h
    have harena : s.takeDropped.2.arena = s.arena := rfl
    have hdropped : s.takeDropped.2.dropped = [] := rfl
    unfold settleDropped.go
    generalize s.takeDropped = taken at htake harena hdropped ⊢
    obtain ⟨pending, s'⟩ := taken
    cases pending with
    | nil => exact hdropped
    | cons id rest =>
      dsimp only at htake harena hdropped ⊢
      have hsettles := persistent_exact.steady.settles (id :: rest) htake
      rcases progress_settles (id :: rest) htake.sound with hsame | ⟨other, hlive, hdead⟩
      · -- Nothing was freed, so nothing was dropped, and the next round is the last.
        rw [hsame]
        cases rounds with
        | zero => exact hdropped
        | succ rounds =>
          obtain ⟨⟨arena, counts, dropped⟩, heap, frames, values⟩ := s'
          cases hdropped
          rfl
      · have hfewer := (shrinks_settles (id :: rest) htake.sound).length_occupants_lt htake.intact
          hsettles.intact hlive hdead
        rw [harena] at hfewer
        exact ih hsettles (by omega)

/-- There is at most one live frame to a slot, so there are rounds enough. -/
theorem Exact.dropped_settleDropped (h : s.Exact) : s.settleDropped.dropped = [] := by
  have hrounds : s.arena.occupants.length ≤ s.arena.slots.size :=
    Nat.le_trans (List.length_filterMap_le ..) (Nat.le_of_eq List.length_range)
  exact h.dropped_settleDropped_go _ (Nat.lt_succ_of_le hrounds)

theorem Orderly.settleDropped_go (rounds : Nat) (h : s.Orderly [] [] []) :
    (settleDropped.go rounds s).Orderly [] [] [] := by
  induction rounds generalizing s with
  | zero => exact h
  | succ rounds ih =>
    have htake := h.takeDropped
    unfold settleDropped.go
    split
    · rename_i he
      rw [he] at htake
      exact htake
    · rename_i he
      rw [he] at htake
      exact ih (htake.settles _)

theorem Orderly.settleDropped (h : s.Orderly [] [] []) :
    s.settleDropped.Orderly [] [] [] ∧ s.settleDropped.Settled :=
  ⟨h.settleDropped_go _, (h.settleDropped_go _).settled h.exact.dropped_settleDropped⟩

/-! ## Collection -/

theorem Orderly.collectFrom (start : List FrameId) (h : s.Orderly [] [] []) :
    (s.collectFrom start).Orderly [] [] [] := by
  have hexplores := Trial.explores_search h.sound start
  have hfree := h.free (hexplores.abandoned h.sound) (hexplores.numbered.nodup_garbage _)
    fun id _ => by
      rw [hexplores.numbered.mem_garbage]
      exact ⟨fun hid => ⟨trivial, hid⟩, fun hid => hid.2⟩
  rw [collectFrom_eq]
  refine Orderly.settles _ (hfree.due_of fun id f hf _ hid => ?_)
  -- A frame that is live now was not freed, so it was live right after the others were.
  rw [List.append_nil] at hid ⊢
  refine List.mem_filter.2 ⟨hid, ?_⟩
  obtain ⟨n, hn⟩ := (s.sameBut_free _).get? hf
  rw [Arena.get?_freeAll] at hn
  rw [Arena.isLive, Arena.get?_foldl_vacate]
  split at hn
  · cases hn
  · rename_i hgarbage
    obtain ⟨g, hg, -⟩ := Option.map_eq_some_iff.1 hn
    rw [if_neg hgarbage, hg]
    rfl

theorem Orderly.collect (h : s.Orderly [] [] []) :
    s.collect.Orderly [] [] [] ∧ s.collect.Settled :=
  (h.settleDropped.1.collectFrom _).settleDropped

/-! ## Ends of activations -/

theorem Orderly.ended (h : s.Orderly [] [] []) (hf : s.arena.get? id = some f) :
    (s.ended id).Orderly [] [] [id] := by
  unfold Holding.ended
  rw [hf, Option.elim_some]
  refine Orderly.letGo (h.modify hf f.slot_deactivate ⟨f.parent_deactivate, f.children_deactivate⟩
    f.holders_deactivate (fun x => ?_) (fun _ hr => nomatch hr) (fun _ => .inl List.mem_cons_self)
    fun _ hid => nomatch hid)
  rw [hits_nil, Nat.add_zero]
  exact f.hits_parts_deactivate x

theorem Orderly.release (h : s.Orderly [] [] []) (hf : s.arena.get? id = some f) :
    (s.release id).Orderly [] [] [] ∧ (s.release id).Settled := by
  have hsettle := (h.ended hf).settle
  rw [release_eq hf]
  split
  · exact (hsettle.collectFrom [id]).settleDropped
  · exact hsettle.settleDropped

end ScriptVM.Holding
