import ScriptVM.Proofs.Collection.Abandoned

/-!
# Freeing what is abandoned

Collection frees frames, one at a time as nothing holds them any more, or all that a search left
unmarked. Whatever is freed was abandoned, so everything that can be reached from running
activations and from what the owner keeps stays as it is, and what is counted covers it as before.
-/
namespace ScriptVM

/-- A frame but for its counts. -/
def Frame.bare (f : Frame) : Frame := { f with children := 0, holders := 0 }

/-- What does not depend on the counts of a frame is the same. -/
theorem Frame.map_of_bare {α : Type} {f f' : Frame} (h : f'.bare = f.bare) (g : Frame → α)
    (hg : ∀ f, g f.bare = g f) : g f' = g f := by
  rw [← hg f', h, hg f]

/-! ## Freeing several frames -/

namespace Arena

variable {a : Arena} {id p : FrameId} {f : Frame} {gone : List FrameId}

theorem vacate_of_dead (h : a.get? id = none) : a.vacate id = a := by
  simp [vacate, slot?, h]

theorem get?_foldl_vacate (a : Arena) (gone : List FrameId) (id : FrameId) :
    (gone.foldl vacate a).get? id = if id ∈ gone then none else a.get? id := by
  induction gone generalizing a with
  | nil => simp
  | cons other rest ih =>
    rw [List.foldl_cons, ih, get?_vacate]
    by_cases hid : id = other <;> simp [hid]

@[simp] theorem size_frames_foldl_vacate (a : Arena) (gone : List FrameId) :
    (gone.foldl vacate a).frames.size = a.frames.size := by
  induction gone generalizing a with
  | nil => rfl
  | cons id rest ih => rw [List.foldl_cons, ih, size_frames_vacate]

/-- What is added up over the live frames falls by what the freed ones contribute. -/
theorem sum_foldl_vacate {total : Arena → Nat} {part : Frame → Nat}
    (htotal : ∀ (a : Arena) id f, a.get? id = some f → total a = total (a.vacate id) + part f)
    (hnodup : gone.Nodup) (a : Arena) :
    total a = total (gone.foldl vacate a) + ((gone.filterMap a.get?).map part).sum := by
  induction gone generalizing a with
  | nil => simp
  | cons id rest ih =>
    obtain ⟨hid, hrest⟩ := List.nodup_cons.1 hnodup
    have hsame : rest.filterMap (a.vacate id).get? = rest.filterMap a.get? :=
      List.filterMap_congr fun other hother => by
        rw [get?_vacate, if_neg fun e : other = id => hid (e ▸ hother)]
    rw [List.foldl_cons, List.filterMap_cons, ← hsame]
    cases hf : a.get? id with
    | none => rw [vacate_of_dead hf, ← ih hrest a]
    | some f =>
      rw [htotal a id f hf, ih hrest (a.vacate id), List.map_cons, List.sum_cons]
      omega

theorem childCount_foldl_vacate (hnodup : gone.Nodup) (p : FrameId) :
    a.childCount p = (gone.foldl vacate a).childCount p +
      ((gone.filterMap a.get?).filterMap Frame.parent).count p := by
  have hsum := sum_foldl_vacate (fun _ _ _ hf => childCount_vacate hf p) hnodup a
  rw [hsum]
  congr 1
  induction gone.filterMap a.get? with
  | nil => rfl
  | cons f rest ih =>
    rw [List.map_cons, List.sum_cons, ih, List.filterMap_cons]
    cases f.parent with
    | none => simp
    | some q => by_cases hq : q = p <;> simp [hq, Nat.add_comm]

theorem demand_foldl_vacate (hnodup : gone.Nodup) (x : Target) :
    a.demand x = (gone.foldl vacate a).demand x +
      hits x ((gone.filterMap a.get?).flatMap Frame.parts) := by
  have hsum := sum_foldl_vacate (fun _ _ _ hf => demand_vacate hf x) hnodup a
  rw [hsum]
  congr 1
  induction gone.filterMap a.get? with
  | nil => rfl
  | cons f rest ih => rw [List.map_cons, List.sum_cons, ih, List.flatMap_cons, hits_append]

theorem get?_foldl_loseChild (a : Arena) (parents : List FrameId) (id : FrameId) :
    (parents.foldl loseChild a).get? id =
      (a.get? id).map fun f => { f with children := f.children - parents.count id } := by
  induction parents generalizing a with
  | nil => simp
  | cons p rest ih =>
    rw [List.foldl_cons, ih, get?_loseChild]
    by_cases hp : id = p
    · subst hp
      cases a.get? id <;> simp [Nat.sub_sub, Nat.add_comm]
    · rw [if_neg hp, List.count_cons_of_ne (Ne.symm hp)]

@[simp] theorem size_frames_foldl_loseChild (a : Arena) (parents : List FrameId) :
    (parents.foldl loseChild a).frames.size = a.frames.size := by
  induction parents generalizing a with
  | nil => rfl
  | cons p rest ih => rw [List.foldl_cons, ih, loseChild, size_frames_modify]

/-- The frames that are left when some are freed, with the children that they lose. -/
def freeAll (a : Arena) (gone : List FrameId) : Arena :=
  let left := gone.foldl vacate a
  (((gone.filterMap a.get?).filterMap Frame.parent).filter fun id => left.isLive id).foldl
    loseChild left

theorem size_frames_freeAll (a : Arena) (gone : List FrameId) :
    (a.freeAll gone).frames.size = a.frames.size := by
  simp [freeAll]

theorem get?_freeAll (a : Arena) (gone : List FrameId) (id : FrameId) :
    (a.freeAll gone).get? id = if id ∈ gone then none else (a.get? id).map fun f =>
      { f with children :=
        f.children - ((gone.filterMap a.get?).filterMap Frame.parent).count id } := by
  rw [freeAll, get?_foldl_loseChild, get?_foldl_vacate]
  split
  · rfl
  · rename_i hid
    cases hf : a.get? id with
    | none => rfl
    | some f =>
      have hlive : (gone.foldl vacate a).isLive id = true := by
        rw [isLive, get?_foldl_vacate, if_neg hid, hf]
        rfl
      rw [List.count_filter hlive]

theorem demand_freeAll (hnodup : gone.Nodup) (x : Target) :
    a.demand x = (a.freeAll gone).demand x + hits x ((gone.filterMap a.get?).flatMap Frame.parts) := by
  have hsame : (a.freeAll gone).demand x = (gone.foldl vacate a).demand x := by
    refine demand_congr (by simp [freeAll]) (fun id => ?_) x
    rw [get?_freeAll, get?_foldl_vacate]
    split
    · rfl
    · cases a.get? id <;> rfl
  rw [hsame]
  exact demand_foldl_vacate hnodup x

/-- Freeing a frame that nothing holds takes a child away from its parent. -/
theorem CountsChildren.freeAll_unheld (h : a.CountsChildren) (hf : a.get? id = some f)
    (hheld : f.held = 0) :
    a.freeAll [id] = f.parent.elim (a.vacate id) (a.vacate id).loseChild := by
  cases hp : f.parent with
  | none => simp [Arena.freeAll, hf, hp]
  | some parent =>
    have hne : parent ≠ id := by
      rintro rfl
      have hpos := childCount_pos hf hp
      have hzero := h.childCount_eq_zero hf hheld
      omega
    obtain ⟨g, hg⟩ := h.live_parent hf hp
    have hlive : (a.vacate id).isLive parent = true := by
      simp [isLive, get?_vacate, hne, hg]
    simp [Arena.freeAll, hf, hp, hlive]

theorem Slotted.freeAll (h : a.Slotted) (gone : List FrameId) : (a.freeAll gone).Slotted := by
  have hvacate : (gone.foldl Arena.vacate a).Slotted :=
    List.foldlRecOn gone Arena.vacate h fun _ ha id _ => ha.vacate id
  exact List.foldlRecOn _ Arena.loseChild hvacate fun _ ha id _ => ha.loseChild id

/-- Frames may be freed together with all their children. -/
theorem CountsChildren.freeAll (h : a.CountsChildren) (hnodup : gone.Nodup)
    (hchildren : ∀ id f p, a.get? id = some f → f.parent = some p → p ∈ gone → id ∈ gone) :
    (a.freeAll gone).CountsChildren := by
  have hcount : ∀ p, (a.freeAll gone).childCount p = (gone.foldl Arena.vacate a).childCount p := by
    intro p
    refine childCount_congr (by simp [Arena.freeAll]) fun id => ?_
    unfold isChildOf
    rw [get?_freeAll, get?_foldl_vacate]
    split
    · rfl
    · cases a.get? id <;> rfl
  intro p hp
  rw [hcount] at hp ⊢
  have hsum := childCount_foldl_vacate (a := a) hnodup p
  obtain ⟨g, hg, hle⟩ := h p (by omega)
  have hstays : p ∉ gone := by
    intro hgone
    obtain ⟨i, -, hi⟩ := List.countP_pos_iff.1 hp
    obtain ⟨f, hf, hparent⟩ := (Option.any_eq_true ..).1 hi
    rw [get?_foldl_vacate] at hf
    split at hf
    · cases hf
    · rename_i hi'
      exact hi' (hchildren _ f p hf (of_decide_eq_true hparent) hgone)
  rw [get?_freeAll, if_neg hstays, hg]
  exact ⟨_, rfl, by simp only; omega⟩

end Arena

/-- Freeing frames leaves what they referred to without a holder that was counted. -/
theorem Tally.Covers.freeAll {t : Tally} {h : Heap} {others : List Reference}
    {gone : List FrameId} (ht : t.Covers h others) (hnodup : gone.Nodup) :
    (t.mapArena fun a => a.freeAll gone).Covers h
      ((gone.filterMap t.arena.get?).flatMap Frame.parts ++ others) where
  size := ht.size
  covers x n hn := by
    have hsum := Arena.demand_freeAll (a := t.arena) hnodup x
    have hdemand : (t.mapArena fun a => a.freeAll gone).demand h x =
        h.demand t.has x + (t.arena.freeAll gone).demand x := rfl
    have hold : t.tracked x = some n := by
      cases x with
      | object v => exact hn
      | frame id =>
        have hn' : ((t.arena.freeAll gone).get? id).map Frame.holders = some n := hn
        rw [Arena.get?_freeAll] at hn'
        split at hn'
        · cases hn'
        · rw [Tally.tracked, ← hn']
          cases t.arena.get? id <;> rfl
    have hcover := ht.covers x n hold
    rw [Tally.demand] at hcover
    rw [hdemand, hits_append]
    omega

/-! ## What collection keeps -/

namespace Holding

/-- What can be reached from running activations and from what the owner keeps. -/
inductive Rooted (s : Holding) : Target → Prop where
  | active {id : FrameId} {f : Frame} (hf : s.arena.get? id = some f) (hactive : 0 < f.active) :
    Rooted s (.frame id)
  | kept {r : Reference} (hr : r ∈ s.kept) : Rooted s r.target
  | refers {x : Target} {r : Reference} (hx : Rooted s x) (hr : r ∈ s.referents x) :
    Rooted s r.target

/-- Some frames were freed, none of which was rooted, and the counts of the others fell at most as
far as they may. -/
structure Shrinks (s s' : Holding) : Prop where
  sound : s'.Sound
  heap : s'.heap = s.heap
  kept : s'.kept = s.kept
  size : s'.arena.frames.size = s.arena.frames.size
  old : ∀ id f', s'.arena.get? id = some f' →
    ∃ f, s.arena.get? id = some f ∧ f'.bare = f.bare
  rooted : ∀ id f, s.arena.get? id = some f → s.Rooted (.frame id) →
    ∃ f', s'.arena.get? id = some f' ∧ f'.bare = f.bare
  slotted : s.arena.Slotted → s'.arena.Slotted

variable {s s' s'' : Holding} {x : Target} {r : Reference} {id : FrameId} {f : Frame}
  {gone : List FrameId}

/-- Whatever is rooted and refers to something exists. -/
theorem Sound.exists_of_rooted (hs : s.Sound) (hx : s.Rooted x) (hr : r ∈ s.referents x) :
    s.Exists x := by
  have hframe : ∀ {r} id, r ∈ s.referents (.frame id) → s.Exists (.frame id) := by
    intro r id hr
    rw [referents] at hr
    cases hf : s.arena.get? id with
    | none =>
      rw [hf] at hr
      cases hr
    | some f => simp [Exists, Arena.isLive, hf]
  induction hx generalizing r with
  | active hf _ => exact hframe _ hr
  | @kept q hq =>
    cases q with
    | value v => exact hs.exists_of_kept hq (within_of_referents hr)
    | code scope => exact hframe _ hr
    | frame id => exact hframe _ hr
  | @refers y q hy hq ih =>
    cases q with
    | value v => exact hs.exists_of_referent (ih hq) hq rfl (within_of_referents hr)
    | code scope => exact hframe _ hr
    | frame id => exact hframe _ hr

/-- What is abandoned is not rooted. -/
theorem Abandoned.not_rooted {lost : Target → Prop} (h : s.Abandoned lost) (hs : s.Sound)
    (hx : s.Rooted x) : ¬lost x := by
  induction hx with
  | active hf hactive => exact h.active _ _ hf hactive
  | kept hr => exact h.kept _ hr
  | refers hx hr ih => exact h.closed _ (hs.exists_of_rooted hx hr) ih _ hr

theorem Shrinks.refl (hs : s.Sound) : s.Shrinks s :=
  ⟨hs, rfl, rfl, rfl, fun _ f hf => ⟨f, hf, rfl⟩, fun _ f hf _ => ⟨f, hf, rfl⟩, fun h => h⟩

/-- What was rooted stays rooted. -/
theorem Shrinks.rooted_of (h : s.Shrinks s') (hx : s.Rooted x) : s'.Rooted x := by
  induction hx with
  | active hf hactive =>
    obtain ⟨f', hf', hbare⟩ := h.rooted _ _ hf (.active hf hactive)
    exact .active hf' (Frame.map_of_bare hbare Frame.active (fun _ => rfl) ▸ hactive)
  | kept hr => exact .kept (h.kept ▸ hr)
  | @refers y q hy hq ih =>
    refine .refers ih ?_
    cases y with
    | object v => rwa [referents, h.heap]
    | frame id =>
      rw [referents] at hq ⊢
      cases hf : s.arena.get? id with
      | none =>
        rw [hf] at hq
        cases hq
      | some f =>
        obtain ⟨f', hf', hbare⟩ := h.rooted id f hf hy
        rw [hf] at hq
        rw [hf', Option.elim_some, Frame.map_of_bare hbare Frame.references fun _ => rfl]
        exact hq

theorem Shrinks.trans (h : s.Shrinks s') (h' : s'.Shrinks s'') : s.Shrinks s'' where
  sound := h'.sound
  heap := h'.heap.trans h.heap
  kept := h'.kept.trans h.kept
  size := h'.size.trans h.size
  old id f'' hf'' := by
    obtain ⟨f', hf', hbare'⟩ := h'.old id f'' hf''
    obtain ⟨f, hf, hbare⟩ := h.old id f' hf'
    exact ⟨f, hf, hbare'.trans hbare⟩
  rooted id f hf hrooted := by
    obtain ⟨f', hf', hbare⟩ := h.rooted id f hf hrooted
    obtain ⟨f'', hf'', hbare'⟩ := h'.rooted id f' hf' (h.rooted_of hrooted)
    exact ⟨f'', hf'', hbare'.trans hbare⟩
  slotted hslotted := h'.slotted (h.slotted hslotted)

/-! ## Freeing abandoned frames -/

/-- Frees frames, and lets go of what was in them. -/
def free (s : Holding) (gone : List FrameId) : Holding :=
  (s.mapArena fun a => a.freeAll gone).letGo ((gone.filterMap s.arena.get?).flatMap Frame.parts)

theorem sameBut_free (s : Holding) (gone : List FrameId) :
    (s.arena.freeAll gone).SameButHolders (s.free gone).arena :=
  Tally.sameBut_letGo s.heap _ _ (s.toTally.mapArena fun a => a.freeAll gone)

/-- The children of abandoned frames are abandoned. -/
theorem Abandoned.children {lost : Target → Prop} (hlost : s.Abandoned lost) (hs : s.Sound)
    (hgone : ∀ id, s.arena.isLive id = true → (id ∈ gone ↔ lost (.frame id))) {p : FrameId}
    (hf : s.arena.get? id = some f) (hp : f.parent = some p) (hparent : p ∈ gone) : id ∈ gone := by
  have hlive : s.arena.isLive id = true := by simp [Arena.isLive, hf]
  obtain ⟨g, hg⟩ := hs.family.live_parent hf hp
  have hlost' : lost (.frame p) := (hgone p (by simp [Arena.isLive, hg])).1 hparent
  refine (hgone id hlive).2 (Classical.not_not.1 fun hstays => ?_)
  refine hlost.closed (.frame id) hlive hstays (.frame p) ?_ hlost'
  rw [referents, hf]
  simp [Frame.references, hp]

/-- Abandoned frames can be freed. -/
theorem Sound.free {lost : Target → Prop} (hs : s.Sound) (hlost : s.Abandoned lost)
    (hnodup : gone.Nodup) (hgone : ∀ id, s.arena.isLive id = true → (id ∈ gone ↔ lost (.frame id))) :
    s.Shrinks (s.free gone) := by
  have hsame := s.sameBut_free gone
  refine ⟨⟨?_, ?_⟩, rfl, rfl, ?_, fun id f' hf' => ?_, fun id f hf hrooted => ?_,
    fun hslotted => hsame.slotted (hslotted.freeAll gone)⟩
  · exact (hs.covers.freeAll hnodup).letGo _
  · exact hsame.countsChildren (hs.family.freeAll hnodup fun _ _ _ => hlost.children hs hgone)
  · rw [hsame.size, Arena.size_frames_freeAll]
  · obtain ⟨n, hn⟩ := hsame.get? hf'
    rw [Arena.get?_freeAll] at hn
    split at hn
    · cases hn
    · obtain ⟨f, hf, he⟩ := Option.map_eq_some_iff.1 hn
      exact ⟨f, hf, (congrArg Frame.bare he).symm⟩
  · have hstays : id ∉ gone := fun h =>
      hlost.not_rooted hs hrooted ((hgone id (by simp [Arena.isLive, hf])).1 h)
    have hleft : (s.arena.freeAll gone).get? id = some { f with
        children := f.children - ((gone.filterMap s.arena.get?).filterMap Frame.parent).count id } := by
      rw [Arena.get?_freeAll, if_neg hstays, hf]
      rfl
    obtain ⟨n, hn⟩ := hsame.symm.get? hleft
    exact ⟨_, hn, rfl⟩

/-- A frame that nothing holds is abandoned. -/
theorem Sound.abandoned_of_unheld (hs : s.Sound) (hf : s.arena.get? id = some f)
    (hheld : f.held = 0) : s.Abandoned fun x => x = .frame id := by
  have hbound := hs.held hf
  rw [hheld] at hbound
  refine ⟨?_, ?_, ?_⟩
  · intro other g hg hactive he
    cases he
    cases hf.symm.trans hg
    omega
  · intro r hr he
    have hpos := hits_pos hr
    rw [he] at hpos
    omega
  · intro y hy _ r hr he
    have hpos := hits_pos hr
    have hle := hits_le_standing hy r.target
    rw [he] at hpos hle
    omega

/-- One step of settling. -/
theorem settle_step_eq (hs : s.Sound) (hf : s.arena.get? id = some f) (hheld : f.held = 0) :
    s.free [id] = match f.parent with
      | none => (s.mapArena fun a => a.vacate id).letGo f.parts
      | some parent =>
        ((s.mapArena fun a => a.vacate id).mapArena fun a => a.loseChild parent).letGo f.parts := by
  have hparts : ([id].filterMap s.arena.get?).flatMap Frame.parts = f.parts := by simp [hf]
  have harena := hs.family.freeAll_unheld hf hheld
  obtain ⟨⟨arena, counts, dropped⟩, heap, frames, values⟩ := s
  rw [Holding.free, hparts]
  cases hp : f.parent <;> rw [hp] at harena <;> simp only [mapArena, Tally.mapArena] <;>
    rw [harena] <;> rfl

/-! ## Collection -/

/-- A collection frees the garbage that a search found, and settles the frames around it. -/
theorem collectFrom_eq (s : Holding) (start : List FrameId) :
    s.collectFrom start =
      let garbage := (s.trial start).garbage s.isHeld
      ((((garbage.filterMap s.arena.get?).filterMap Frame.parent).filter fun id =>
        (garbage.foldl Arena.vacate s.arena).isLive id).foldl settle (s.free garbage)) := rfl

/-- What stays true when a frame is freed that nothing holds, and when the frames that are to be looked
at are taken. -/
structure Steady (P : Holding → Prop) : Prop where
  sound : ∀ {s}, P s → s.Sound
  free : ∀ {s id f}, P s → s.arena.get? id = some f → f.held = 0 → P (s.free [id])
  take : ∀ {s}, P s → P s.takeDropped.2

/-- What stays true when abandoned frames are freed, and when the frames that are to be looked at are
taken. -/
structure Persistent (P : Holding → Prop) : Prop where
  sound : ∀ {s}, P s → s.Sound
  free : ∀ {s gone lost}, P s → s.Abandoned lost → gone.Nodup →
    (∀ id, s.arena.isLive id = true → (id ∈ gone ↔ lost (.frame id))) → P (s.free gone)
  take : ∀ {s}, P s → P s.takeDropped.2

/-- A frame that nothing holds is abandoned. -/
theorem Persistent.steady {P : Holding → Prop} (hP : Persistent P) : Steady P where
  sound := hP.sound
  free h hf hheld := hP.free h ((hP.sound h).abandoned_of_unheld hf hheld)
    (List.nodup_singleton _) fun _ _ => by simp
  take := hP.take

namespace Steady

variable {P : Holding → Prop} (hP : Steady P)

include hP

theorem settle_go (steps : Nat) (id : FrameId) (h : P s) : P (settle.go steps s id) := by
  induction steps generalizing s id with
  | zero => exact h
  | succ steps ih =>
    unfold settle.go
    cases hf : s.arena.get? id with
    | none => exact h
    | some f =>
      dsimp only
      split
      · rename_i hheld
        have hfree := hP.free h hf hheld
        rw [settle_step_eq (hP.sound h) hf hheld] at hfree
        cases hp : f.parent with
        | none =>
          rw [hp] at hfree
          exact hfree
        | some parent =>
          rw [hp] at hfree
          exact ih parent hfree
      · exact h

theorem settle (id : FrameId) (h : P s) : P (s.settle id) := hP.settle_go _ id h

theorem settles (ids : List FrameId) (h : P s) : P (ids.foldl Holding.settle s) :=
  List.foldlRecOn ids _ h fun _ hs id _ => hP.settle id hs

theorem settleDropped_go (rounds : Nat) (h : P s) : P (settleDropped.go rounds s) := by
  induction rounds generalizing s with
  | zero => exact h
  | succ rounds ih =>
    have htake := hP.take h
    unfold settleDropped.go
    split
    · rename_i he
      rw [he] at htake
      exact htake
    · rename_i he
      rw [he] at htake
      exact ih (hP.settles _ htake)

theorem settleDropped (h : P s) : P s.settleDropped := hP.settleDropped_go _ h

end Steady

namespace Persistent

variable {P : Holding → Prop} (hP : Persistent P)

include hP

/-- The garbage that a search found is abandoned. -/
theorem free_garbage {t : Trial} (h : P s) (ht : t.Explores s) : P (s.free (t.garbage s.isHeld)) := by
  refine hP.free h (ht.abandoned (hP.sound h)) (ht.numbered.nodup_garbage _) fun id _ => ?_
  rw [ht.numbered.mem_garbage]
  exact ⟨fun h => ⟨trivial, h⟩, fun h => h.2⟩

theorem collectFrom (start : List FrameId) (h : P s) : P (s.collectFrom start) := by
  rw [collectFrom_eq]
  exact hP.steady.settles _ (hP.free_garbage h (Trial.explores_search (hP.sound h) start))

theorem collect (h : P s) : P s.collect :=
  hP.steady.settleDropped (hP.collectFrom _ (hP.steady.settleDropped h))

end Persistent

theorem shrinks_takeDropped (hs : s.Sound) : s.Shrinks s.takeDropped.2 :=
  ⟨⟨hs.covers.congr rfl rfl, hs.family⟩, rfl, rfl, rfl, fun _ f hf => ⟨f, hf, rfl⟩,
    fun _ f hf _ => ⟨f, hf, rfl⟩, fun h => h⟩

/-- Step by step, only frames are freed that were not rooted. -/
theorem persistent_shrinks (s : Holding) : Persistent s.Shrinks where
  sound h := h.sound
  free h hlost hnodup hgone := h.trans (h.sound.free hlost hnodup hgone)
  take h := h.trans (shrinks_takeDropped h.sound)

/-- Settling frees only what nothing holds. -/
theorem shrinks_settle (id : FrameId) (hs : s.Sound) : s.Shrinks (s.settle id) :=
  s.persistent_shrinks.steady.settle id (.refl hs)

theorem shrinks_settles (ids : List FrameId) (hs : s.Sound) : s.Shrinks (ids.foldl settle s) :=
  s.persistent_shrinks.steady.settles ids (.refl hs)

theorem shrinks_settleDropped (hs : s.Sound) : s.Shrinks s.settleDropped :=
  s.persistent_shrinks.steady.settleDropped (.refl hs)

theorem shrinks_collectFrom (start : List FrameId) (hs : s.Sound) :
    s.Shrinks (s.collectFrom start) :=
  s.persistent_shrinks.collectFrom start (.refl hs)

theorem shrinks_collect (hs : s.Sound) : s.Shrinks s.collect :=
  s.persistent_shrinks.collect (.refl hs)

end Holding
end ScriptVM
