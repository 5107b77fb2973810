import Mathlib.Logic.Function.Basic
import ScriptVM.Proofs.Collection.Operation

/-!
# Frames under an owner

An owner allocates frames, starts and ends activations in them, keeps and drops what it likes and
collects when it likes, in any order, and ends no more activations than were started. Whatever it
does, the free list consists of the empty slots, the live frames form trees whose edges are counted,
frames with running activations are live, and once an activation has ended or a collection was made
every live frame is held.
-/
namespace ScriptVM.Holding

variable {s s' : Holding} {running : FrameId → Nat} {id : FrameId} {f : Frame}

/-! ## Running activations -/

/-- How many activations run in a frame. -/
def activations (s : Holding) (id : FrameId) : Nat := (s.arena.get? id).elim 0 Frame.active

theorem activations_of_sameBut (h : s.arena.SameButHolders s'.arena) (id : FrameId) :
    s'.activations id = s.activations id := by
  have hactive := h.map (g := Frame.active) (fun _ => rfl) id
  unfold activations
  cases hs : s.arena.get? id <;> cases hs' : s'.arena.get? id <;> simp_all

@[simp] theorem activations_hold (s : Holding) (new : List Reference) :
    (s.hold new).activations = s.activations :=
  funext (activations_of_sameBut (Tally.sameBut_hold s.heap _ new (s.toTally.fit s.heap)))

@[simp] theorem activations_letGo (s : Holding) (gone : List Reference) :
    (s.letGo gone).activations = s.activations :=
  funext (activations_of_sameBut (Tally.sameBut_letGo s.heap _ gone s.toTally))

theorem activations_modify (s : Holding) (id : FrameId) (change : Frame → Frame) (other : FrameId) :
    (s.mapArena fun a => a.modify id change).activations other =
      if other = id then (s.arena.get? id).elim 0 fun f => (change f).active
      else s.activations other := by
  change ((s.arena.modify id change).get? other).elim 0 Frame.active = _
  rw [Arena.get?_modify]
  split
  · cases s.arena.get? id <;> rfl
  · rfl

/-- Changes of a frame that leave its activations alone. -/
theorem activations_modify_same (s : Holding) (id : FrameId) {change : Frame → Frame}
    (hchange : ∀ f, s.arena.get? id = some f → (change f).active = f.active) :
    (s.mapArena fun a => a.modify id change).activations = s.activations := by
  funext other
  rw [activations_modify]
  split
  · subst other
    unfold activations
    cases hf : s.arena.get? id with
    | none => rfl
    | some f => exact hchange f hf
  · rfl

/-- What is freed has no running activation. -/
theorem Shrinks.activations (h : s.Shrinks s') (id : FrameId) :
    s'.activations id = s.activations id := by
  unfold Holding.activations
  cases hf' : s'.arena.get? id with
  | some f' =>
    obtain ⟨f, hf, hbare⟩ := h.old id f' hf'
    rw [hf]
    exact Frame.map_of_bare hbare Frame.active fun _ => rfl
  | none =>
    cases hf : s.arena.get? id with
    | none => rfl
    | some f =>
      refine (Nat.eq_zero_of_not_pos fun hactive => ?_).symm
      obtain ⟨f', hlive, -⟩ := h.rooted id f hf (.active hf hactive)
      rw [hf'] at hlive
      cases hlive

theorem Orderly.activations_allocate (h : s.Orderly [] [] []) (parent : Option FrameId)
    (object : Option Value) (bindsObject : Bool) :
    (s.allocate parent object bindsObject).2.activations =
      Function.update s.activations (s.allocate parent object bindsObject).1 1 := by
  have hshrinks := shrinks_settleDropped h.sound
  have hid : (s.allocate parent object bindsObject).1 = ⟨s.settleDropped.arena.frames.size⟩ :=
    Arena.alloc_fst ..
  have hstate : (s.allocate parent object bindsObject).2.activations =
      Holding.activations { s.settleDropped with
        arena := (s.settleDropped.arena.alloc parent object bindsObject).2 } :=
    activations_hold ..
  rw [hid, hstate]
  funext other
  unfold Holding.activations
  dsimp only
  rcases eq_or_ne other ⟨s.settleDropped.arena.frames.size⟩ with rfl | hne
  · rw [Function.update_self, Arena.get?_alloc_self]
    rfl
  · rw [Function.update_of_ne hne, ← Holding.activations, ← hshrinks.activations other]
    unfold Holding.activations
    rcases Nat.lt_or_ge other.serial s.settleDropped.arena.frames.size with hlt | hge
    · rw [Arena.get?_alloc_of_lt hlt]
      split
      · cases s.settleDropped.arena.get? other <;> rfl
      · rfl
    · have hgt : s.settleDropped.arena.frames.size < other.serial :=
        Nat.lt_of_le_of_ne hge fun he => hne (by cases other; cases he; rfl)
      have hafter : (s.settleDropped.arena.alloc parent object bindsObject).2.get? other = none :=
        Arena.get?_eq_none_of_size_le (by rw [Arena.size_frames_alloc]; omega)
      rw [hafter, Arena.get?_eq_none_of_size_le hge]

theorem Orderly.activations_release (h : s.Orderly [] [] []) (hf : s.arena.get? id = some f) :
    (s.release id).activations = Function.update s.activations id (s.activations id - 1) := by
  have hended : (s.ended id).activations =
      (s.mapArena fun a => a.modify id Frame.deactivate).activations := activations_letGo ..
  funext other
  rw [(shrinks_release h.sound hf).activations, hended, activations_modify, Function.update_apply]
  unfold Holding.activations
  rw [hf, Option.elim_some, Option.elim_some, f.active_deactivate]

theorem activations_keepFrame (s : Holding) (name : String) (id : FrameId) :
    (s.keepFrame name id).activations = s.activations := by
  rw [keepFrame, activations_letGo, activations_hold]
  rfl

theorem activations_dropFrame (s : Holding) (name : String) :
    (s.dropFrame name).activations = s.activations := by
  rw [dropFrame, activations_letGo]
  rfl

theorem activations_keepValue (s : Holding) (name : String) (v : Value) :
    (s.keepValue name v).activations = s.activations := by
  rw [keepValue, activations_letGo, activations_hold]
  rfl

theorem activations_dropValue (s : Holding) (name : String) :
    (s.dropValue name).activations = s.activations := by
  rw [dropValue, activations_letGo]
  rfl

theorem activations_activate (hf : s.arena.get? id = some f) :
    (s.activate id).activations = Function.update s.activations id (s.activations id + 1) := by
  have hself : s.activations id = f.active := by rw [activations, hf, Option.elim_some]
  funext other
  rw [Function.update_apply, hself]
  refine (s.activations_modify id _ other).trans ?_
  rw [hf, Option.elim_some]

theorem activations_define (s : Holding) (id : FrameId) (name : String) (v : Value) :
    (s.define id name v).activations = s.activations := by
  rw [define, activations_letGo, activations_hold]
  exact s.activations_modify_same id fun _ _ => rfl

theorem activations_assign (s : Holding) (id : FrameId) (name : String) (v : Value) :
    (s.assign id name v).activations = s.activations := by
  unfold assign
  split
  · exact s.activations_define id name v
  · rw [activations_letGo, activations_hold]
    rfl

theorem activations_push (s : Holding) (id : FrameId) (v : Value) :
    (s.push id v).activations = s.activations := by
  rw [push, activations_hold]
  exact s.activations_modify_same id fun _ _ => rfl

theorem activations_popMany {count : Nat} {vs : List Value}
    (hpop : s.popMany id count = .ok (vs, s')) : s'.activations = s.activations := by
  unfold popMany at hpop
  cases hf : s.arena.get? id with
  | none =>
    rw [hf] at hpop
    cases hpop
  | some f =>
    rw [hf, Option.bind_some] at hpop
    unfold Frame.popMany? at hpop
    split at hpop
    · rename_i heq
      split at heq
      · cases heq
        cases hpop
        rw [activations_letGo]
        refine activations_modify_same s id fun g hg => ?_
        cases hf.symm.trans hg
        rfl
      · cases heq
    · cases hpop

/-! ## What an owner does -/

/-- What an owner can make of a holding, and how many of the activations that it started in each
frame it has not ended yet. It works in live frames, with objects and frames that were made. -/
inductive Owned : Holding → (FrameId → Nat) → Prop where
  | start : Owned (.ofHeap .empty) fun _ => 0
  | make {s : Holding} {running : FrameId → Nat} {heap : Heap} (h : Owned s running)
    (hsize : s.heap.objects.size ≤ heap.objects.size)
    (hget : ∀ v : Value, v.address < s.heap.objects.size → heap.get v = s.heap.get v)
    (hbounded : Bounded { s with heap := heap }) : Owned (s.make heap) running
  | allocate {s : Holding} {running : FrameId → Nat} {object : Option Value} (h : Owned s running)
    (parent : Option FrameId) (hobject : ∀ v, object = some v → s.Made (.object v))
    (bindsObject : Bool) : Owned (s.allocate parent object bindsObject).2
      (Function.update running (s.allocate parent object bindsObject).1 1)
  | keepFrame {s : Holding} {running : FrameId → Nat} {id : FrameId} (h : Owned s running)
    (hid : s.Made (.frame id)) (name : String) : Owned (s.keepFrame name id) running
  | dropFrame {s : Holding} {running : FrameId → Nat} (h : Owned s running) (name : String) :
    Owned (s.dropFrame name) running
  | keepValue {s : Holding} {running : FrameId → Nat} {v : Value} (h : Owned s running)
    (hv : s.Made (.object v)) (name : String) : Owned (s.keepValue name v) running
  | dropValue {s : Holding} {running : FrameId → Nat} (h : Owned s running) (name : String) :
    Owned (s.dropValue name) running
  | activate {s : Holding} {running : FrameId → Nat} {id : FrameId} (h : Owned s running)
    (hid : s.arena.isLive id = true) :
    Owned (s.activate id) (Function.update running id (running id + 1))
  | release {s : Holding} {running : FrameId → Nat} {id : FrameId} (h : Owned s running)
    (hid : 0 < running id) : Owned (s.release id) (Function.update running id (running id - 1))
  | collect {s : Holding} {running : FrameId → Nat} (h : Owned s running) : Owned s.collect running
  | define {s : Holding} {running : FrameId → Nat} {id : FrameId} {v : Value} (h : Owned s running)
    (hid : s.arena.isLive id = true) (hv : s.Made (.object v)) (name : String) :
    Owned (s.define id name v) running
  | assign {s : Holding} {running : FrameId → Nat} {id : FrameId} {v : Value} (h : Owned s running)
    (hid : s.arena.isLive id = true) (hv : s.Made (.object v)) (name : String) :
    Owned (s.assign id name v) running
  | push {s : Holding} {running : FrameId → Nat} {id : FrameId} {v : Value} (h : Owned s running)
    (hid : s.arena.isLive id = true) (hv : s.Made (.object v)) : Owned (s.push id v) running
  | popMany {s s' : Holding} {running : FrameId → Nat} {id : FrameId} {count : Nat}
    {vs : List Value} (h : Owned s running) (hpop : s.popMany id count = .ok (vs, s')) :
    Owned s' running

theorem orderly_ofHeap_empty : (ofHeap .empty).Orderly [] [] [] where
  balanced := by
    refine ⟨rfl, fun x n hn => ?_⟩
    cases x <;> simp [Tally.tracked, ofHeap, Arena.get?, Arena.empty] at hn
  intact := Arena.intact_empty
  bounded := by
    refine ⟨fun v r hr => ?_, fun id f hf => ?_, fun r hr => absurd hr List.not_mem_nil⟩
    · have hget : (ofHeap .empty).heap.get v = default := by simp [ofHeap, Heap.empty, Heap.get]
      rw [hget] at hr
      cases hr
    · simp [ofHeap, Arena.get?, Arena.empty] at hf
  names := ⟨List.nodup_nil, List.nodup_nil⟩
  pending id f hf := by simp [ofHeap, Arena.get?, Arena.empty] at hf

/-- A live frame has a frame behind it in every state in which activations run in it. -/
theorem get?_of_activations_pos (h : 0 < s.activations id) :
    ∃ f, s.arena.get? id = some f ∧ f.active = s.activations id := by
  unfold activations at h ⊢
  cases hf : s.arena.get? id with
  | none =>
    rw [hf] at h
    exact absurd h (Nat.lt_irrefl 0)
  | some f => exact ⟨f, rfl, rfl⟩

/-- An owner keeps its holding orderly, and each frame counts the activations that run in it. -/
theorem Owned.orderly (h : Owned s running) :
    s.Orderly [] [] [] ∧ s.activations = running := by
  induction h with
  | start =>
    refine ⟨orderly_ofHeap_empty, funext fun id => ?_⟩
    simp [activations, ofHeap, Arena.get?, Arena.empty]
  | make h hsize hget hbounded ih =>
    exact ⟨ih.1.make hsize hget hbounded, (activations_hold ..).trans ih.2⟩
  | allocate h parent hobject bindsObject ih =>
    obtain ⟨horderly, rfl⟩ := ih
    exact ⟨horderly.allocate parent hobject bindsObject,
      horderly.activations_allocate parent _ bindsObject⟩
  | keepFrame h hid name ih =>
    exact ⟨ih.1.keepFrame hid name, (activations_keepFrame ..).trans ih.2⟩
  | dropFrame h name ih => exact ⟨ih.1.dropFrame name, (activations_dropFrame ..).trans ih.2⟩
  | keepValue h hv name ih =>
    exact ⟨ih.1.keepValue hv name, (activations_keepValue ..).trans ih.2⟩
  | dropValue h name ih => exact ⟨ih.1.dropValue name, (activations_dropValue ..).trans ih.2⟩
  | activate h hid ih =>
    obtain ⟨horderly, rfl⟩ := ih
    obtain ⟨f, hf⟩ := Option.isSome_iff_exists.1 hid
    exact ⟨horderly.activate hf, activations_activate hf⟩
  | release h hid ih =>
    obtain ⟨horderly, rfl⟩ := ih
    obtain ⟨f, hf, -⟩ := get?_of_activations_pos hid
    exact ⟨(horderly.release hf).1, horderly.activations_release hf⟩
  | collect h ih =>
    exact ⟨ih.1.collect.1, (funext (shrinks_collect ih.1.sound).activations).trans ih.2⟩
  | define h hid hv name ih =>
    obtain ⟨f, hf⟩ := Option.isSome_iff_exists.1 hid
    exact ⟨ih.1.define hf hv name, (activations_define ..).trans ih.2⟩
  | assign h hid hv name ih =>
    obtain ⟨f, hf⟩ := Option.isSome_iff_exists.1 hid
    exact ⟨ih.1.assign hf hv name, (activations_assign ..).trans ih.2⟩
  | push h hid hv ih =>
    obtain ⟨f, hf⟩ := Option.isSome_iff_exists.1 hid
    exact ⟨ih.1.push hf hv, (activations_push ..).trans ih.2⟩
  | popMany h hpop ih => exact ⟨ih.1.popMany hpop, (activations_popMany hpop).trans ih.2⟩

/-- One more object, which refers to what was made. -/
theorem Owned.makeObject (h : Owned s running) {kind : Kind}
    (hkind : ∀ r ∈ kind.parts, s.Made r.target) : Owned (s.make (s.heap.alloc kind).2) running := by
  have hbounded := h.orderly.1.bounded
  have hsize : (s.heap.alloc kind).2.objects.size = s.heap.objects.size + 1 := s.heap.size_alloc kind
  have hmade : ∀ {x}, s.Made x → Made { s with heap := (s.heap.alloc kind).2 } x := fun hx =>
    hx.of_size (Nat.le.intro hsize.symm) (Nat.le_refl _)
  refine h.make (Nat.le.intro hsize.symm) (fun v hv => Heap.get_alloc_of_lt kind hv)
    ⟨fun v r hr => hmade ?_, fun id f hf r hr => hmade (hbounded.frames id f hf r hr),
      fun r hr => hmade (hbounded.kept r hr)⟩
  rcases Nat.lt_trichotomy v.address s.heap.objects.size with hlt | heq | hgt
  · exact hbounded.objects v r (Heap.get_alloc_of_lt kind hlt ▸ hr)
  · have hself : (s.heap.alloc kind).2.get v = ⟨kind, .empty, 0⟩ := by
      cases v
      cases heq
      exact s.heap.get_alloc kind
    dsimp only at hr
    rw [hself] at hr
    exact hkind r (by simpa [Object.parts, Bindings.values, Bindings.empty] using hr)
  · have houtside : (s.heap.alloc kind).2.get v = default := by
      rw [Heap.get, Array.getD_eq_getD_getElem?, Array.getElem?_eq_none (by omega)]
      rfl
    dsimp only at hr
    rw [houtside] at hr
    cases hr

/-! ## What an owner finds -/

/-- How many references hold a frame: of the objects that something refers to, and of the owner. -/
def handles (s : Holding) (id : FrameId) : Nat :=
  s.heap.demand s.has (.frame id) + hits (.frame id) s.kept

/-- An arena as it is to be: its slots, its frames with what they count, the activations that run in
them, and what the next end of an activation and the next collection leave. -/
structure Represented (s : Holding) (running : FrameId → Nat) : Prop where
  nodup_free : s.arena.free.Nodup
  mem_free : ∀ slot, slot ∈ s.arena.free ↔
    slot < s.arena.slots.size ∧ s.arena.idInSlot? slot = none
  mem_liveFrames : ∀ id, id ∈ s.liveFrames ↔ s.arena.isLive id = true
  nodup_liveFrames : s.liveFrames.Nodup
  live : s.arena.live = s.liveFrames.length
  parent_live : ∀ id f p, s.arena.get? id = some f → f.parent = some p → s.arena.isLive p = true
  parent_older : ∀ id f p, s.arena.get? id = some f → f.parent = some p → p.serial < id.serial
  chain_ends : ∀ id f, s.arena.get? id = some f →
    ∃ g, (s.arena.chain id).getLast? = some g ∧ g.parent = none
  children : ∀ id f, s.arena.get? id = some f → f.children = s.arena.childCount id
  holders : ∀ id f, s.arena.get? id = some f → f.holders = s.handles id
  active : ∀ id f, s.arena.get? id = some f → f.active = running id
  running_live : ∀ id, 0 < running id → s.arena.isLive id = true
  settled_release : ∀ id, 0 < running id → (s.release id).Settled
  settled_collect : s.collect.Settled

theorem Orderly.holders_eq {due : List FrameId} (h : s.Orderly [] [] due)
    (hf : s.arena.get? id = some f) : f.holders = s.handles id := by
  have hbalance := h.balanced.balance _ _ (Tally.tracked_frame hf)
  rw [Tally.demand, Arena.demand_frame] at hbalance
  exact hbalance

/-- Whatever an owner does, its arena is as it is to be. -/
theorem Owned.represented (h : Owned s running) : s.Represented running := by
  obtain ⟨horderly, rfl⟩ := h.orderly
  obtain ⟨hfilled, hlineage⟩ := horderly.intact
  refine
    { nodup_free := hfilled.distinct
      mem_free := fun slot =>
        ⟨hfilled.vacant slot, fun ⟨hlt, hnone⟩ => hfilled.listed slot hlt hnone⟩
      mem_liveFrames := fun _ => hfilled.mem_occupants
      nodup_liveFrames := hfilled.nodup_occupants
      live := hfilled.live_eq
      parent_live := fun id f p hf hp => ?_
      parent_older := hlineage.older
      chain_ends := fun _ _ => hlineage.chain_ends
      children := hlineage.children
      holders := fun _ _ => horderly.holders_eq
      active := fun id f hf => ?_
      running_live := fun id hid => ?_
      settled_release := fun id hid => ?_
      settled_collect := horderly.collect.2 }
  · obtain ⟨g, hg⟩ := hlineage.parent id f p hf hp
    exact Arena.isLive_of_get? hg
  · rw [activations, hf]
    rfl
  · obtain ⟨f, hf, -⟩ := get?_of_activations_pos hid
    exact Arena.isLive_of_get? hf
  · obtain ⟨f, hf, -⟩ := get?_of_activations_pos hid
    exact (horderly.release hf).2

/-- A frame with a variable that is a closure over the frame itself. -/
def closed : Holding :=
  let s := ((ofHeap .empty).allocate none none false).2
  (s.make (s.heap.alloc (.function ⟨.code ⟨none, 0, .ofList [], ⟨0⟩⟩, none⟩)).2).define ⟨0⟩ "f" ⟨0⟩

/-- The closure holds its frame, and the end of the only activation is checked for garbage. -/
theorem Owned.represented_closed :
    closed.Owned (Function.update (fun _ => 0) ⟨0⟩ 1) ∧
      closed.Represented (Function.update (fun _ => 0) ⟨0⟩ 1) := by
  have hnone : ∀ v, (Option.none : Option Value) = some v → (ofHeap .empty).Made (.object v) := nofun
  have hframe := Owned.start.allocate none hnone false
  have hlive : ∀ {s : Holding}, s.Owned (Function.update (fun _ => 0) ⟨0⟩ 1) →
      ∃ f, s.arena.get? ⟨0⟩ = some f := by
    intro s hs
    obtain ⟨-, hactivations⟩ := hs.orderly
    have hpos : 0 < s.activations ⟨0⟩ := by
      rw [hactivations]
      decide
    obtain ⟨f, hf, -⟩ := get?_of_activations_pos hpos
    exact ⟨f, hf⟩
  obtain ⟨f, hf⟩ := hlive hframe
  have hscope : ∀ r ∈ (Kind.function ⟨.code ⟨Option.none, 0, .ofList [], ⟨0⟩⟩, Option.none⟩).parts,
      Made _ r.target := List.forall_mem_singleton.2 (Arena.serial_lt_of_get? hf)
  have hobject := hframe.makeObject hscope
  obtain ⟨g, hg⟩ := hlive hobject
  have howned : closed.Owned (Function.update (fun _ => 0) ⟨0⟩ 1) :=
    hobject.define (Arena.isLive_of_get? hg) (show 0 < 1 from Nat.one_pos) "f"
  exact ⟨howned, howned.represented⟩

end ScriptVM.Holding
