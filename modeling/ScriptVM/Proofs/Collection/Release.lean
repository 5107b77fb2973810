import ScriptVM.Machine.State
import ScriptVM.Proofs.Collection.Balance
import ScriptVM.Proofs.Collection.Sweep

/-!
# What a machine frees

A machine makes its tally afresh when it looks at frames that lost their holders, when an activation
ends, and when it collects its garbage. Everything that can be reached stays live and as it was: from
the running activations, from the built-in types, and from what the machine holds on to, together with
what is held on to besides. A frame that something reachable refers to has a holder.

When an activation ends, its operands are let go, the frame is freed if nothing holds it, and otherwise
searched for garbage, while other activations run. Of what can be reached then nothing is freed.
-/
namespace ScriptVM

/-! ## Tallies that are made afresh -/

namespace Holding

/-- What an owner keeps is counted once for each time that it is kept. -/
theorem hits_kept_ofState (a : Arena) (h : Heap) (kept : List Reference) (x : Target) :
    hits x (ofState a h kept).kept = hits x kept := by
  simp only [ofState, Holding.kept, Bindings.values_numbered]
  induction kept with
  | nil => rfl
  | cons r rest ih =>
    rw [hits_cons, ← ih]
    cases r with
    | value v =>
      simp only [List.filterMap_cons, Reference.scope?, Reference.value?, List.map_cons, hits_append,
        hits_cons]
      omega
    | code id => exact hits_cons x (.code id) _
    | frame id => exact hits_cons x (.frame id) _

theorem target_of_mem_kept {a : Arena} {h : Heap} {kept : List Reference} {r : Reference}
    (hr : r ∈ (ofState a h kept).kept) : ∃ q ∈ kept, q.target = r.target :=
  hits_pos_iff.1 (Nat.lt_of_lt_of_eq (hits_pos hr) (hits_kept_ofState a h kept r.target))

theorem balanced_ofState (a : Arena) (h : Heap) (kept : List Reference) :
    (ofState a h kept).toTally.Balanced h (ofState a h kept).kept [] :=
  (Tally.balanced_ofState a kept).mono fun x => by rw [hits_kept_ofState]

theorem sound_ofState {a : Arena} (ha : a.CountsChildren) (h : Heap) (kept : List Reference) :
    (ofState a h kept).Sound :=
  ⟨(balanced_ofState a h kept).covers, (Tally.sameBut_ofState a kept).countsChildren ha⟩

/-- A holding of the frames and objects of a machine, whose owner keeps all that the machine does, and
something else. -/
structure Mirrors (s : Holding) (m : Machine) (also : List Reference) : Prop where
  sound : s.Sound
  heap : s.heap = m.heap
  frames : m.arena.SameButHolders s.arena
  types : ∀ v ∈ m.types.values, ∃ r ∈ s.kept, r.target = .object v
  held : ∀ r ∈ m.held ++ also, ∃ q ∈ s.kept, q.target = r.target

end Holding

/-! ## What a machine can reach -/

namespace Machine

/-- What an object or a live frame refers to. -/
def referents (m : Machine) : Target → List Reference
  | .object v => (m.heap.get v).references
  | .frame id => (m.arena.get? id).elim [] Frame.references

/-- What can be reached from the running activations, from the built-in types, from what the machine
holds on to, and from something else. -/
inductive Rooted (m : Machine) (also : List Reference) : Target → Prop
  | active {id : FrameId} {f : Frame} (hf : m.arena.get? id = some f) (hactive : 0 < f.active) :
    Rooted m also (.frame id)
  | type {v : Value} (hv : v ∈ m.types.values) : Rooted m also (.object v)
  | held {r : Reference} (hr : r ∈ m.held ++ also) : Rooted m also r.target
  | refers {x : Target} {r : Reference} (hx : Rooted m also x) (hr : r ∈ m.referents x) :
    Rooted m also r.target

variable {m : Machine} {id : FrameId} {f : Frame} {v : Value} {r : Reference} {x : Target}
  {also : List Reference} {a : Arena} {s s' : Holding}

theorem Rooted.object (hv : m.Rooted also (.object v)) (hr : r ∈ (m.heap.get v).references) :
    m.Rooted also r.target :=
  .refers hv hr

theorem Rooted.frame (hid : m.Rooted also (.frame id)) (hf : m.arena.get? id = some f)
    (hr : r ∈ f.references) : m.Rooted also r.target :=
  .refers hid (by rwa [referents, hf])

/-- The frames are the same but for what is counted for them. -/
theorem referents_of_same (hheap : s.heap = m.heap) (hframes : m.arena.SameButHolders s.arena)
    (x : Target) : s.referents x = m.referents x := by
  cases x with
  | object v => rw [Holding.referents, hheap, referents]
  | frame id =>
    have hsame := hframes.map (fun _ : Frame => rfl : ∀ f, Frame.references f.unheld = _) id
    have helim : ∀ a : Arena, (a.get? id).elim [] Frame.references =
        ((a.get? id).map Frame.references).getD [] := fun a => by cases a.get? id <;> rfl
    rw [Holding.referents, helim, hsame, referents, helim]

/-- What the machine can reach can be reached from what the owner keeps. -/
theorem Rooted.mirror (h : s.Mirrors m also) (hx : m.Rooted also x) : s.Rooted x := by
  induction hx with
  | active hf hactive =>
    obtain ⟨n, hn⟩ := h.frames.symm.get? hf
    exact .active hn hactive
  | type hv =>
    obtain ⟨r, hr, htarget⟩ := h.types _ hv
    exact htarget ▸ .kept hr
  | held hr =>
    obtain ⟨q, hq, htarget⟩ := h.held _ hr
    exact htarget ▸ .kept hq
  | refers hx hr ih => exact .refers ih (referents_of_same h.heap h.frames _ ▸ hr)

/-! ## What is left of the frames -/

/-- Some frames were freed, none of which can be reached. What is left has as many holders as it
needs. -/
structure Collected (m : Machine) (also : List Reference) (a : Arena) : Prop where
  family : a.CountsChildren
  size : a.frames.size = m.arena.frames.size
  old : ∀ id f', a.get? id = some f' → ∃ f, m.arena.get? id = some f ∧ f'.bare = f.bare
  rooted : ∀ id f, m.arena.get? id = some f → m.Rooted also (.frame id) →
    ∃ f', a.get? id = some f' ∧ f'.bare = f.bare
  part : ∀ v r id f', m.Rooted also (.object v) → r ∈ (m.heap.get v).references →
    r.target = .frame id → a.get? id = some f' → 0 < f'.holders
  held : ∀ r id f', r ∈ m.held ++ also → r.target = .frame id → a.get? id = some f' → 0 < f'.holders
  slotted : m.arena.Slotted → a.Slotted

/-- Frames in which activations run are left. -/
theorem Collected.active (h : m.Collected also a) (hf : m.arena.get? id = some f)
    (hactive : 0 < f.active) : ∃ f', a.get? id = some f' ∧ f'.bare = f.bare :=
  h.rooted id f hf (.active hf hactive)

/-- What is freed of a holding is freed of the machine. -/
theorem collected_of_shrinks (h : s.Mirrors m also) (hshrinks : s.Shrinks s') :
    m.Collected also s'.arena := by
  refine ⟨hshrinks.sound.family, hshrinks.size.trans h.frames.size, fun id f' hf' => ?_,
    fun id f hf hrooted => ?_, fun v r id f' hv hr hid hf' => ?_, fun r id f' hr hid hf' => ?_,
    fun hslotted => hshrinks.slotted (h.frames.slotted hslotted)⟩
  · obtain ⟨f, hf, hbare⟩ := hshrinks.old id f' hf'
    obtain ⟨n, hn⟩ := h.frames.get? hf
    exact ⟨_, hn, hbare⟩
  · obtain ⟨n, hn⟩ := h.frames.symm.get? hf
    obtain ⟨f', hf', hbare⟩ := hshrinks.rooted id _ hn (hrooted.mirror h)
    exact ⟨f', hf', hbare⟩
  · have hheap : s'.heap = m.heap := hshrinks.heap.trans h.heap
    have hmem : r ∈ s'.referents (.object v) := by
      rw [Holding.referents, hheap]
      exact hr
    have hexists := hshrinks.sound.exists_of_rooted (hshrinks.rooted_of (hv.mirror h)) hmem
    have hdemand := Heap.hits_le_demand (Holding.within_of_referents hmem) hexists (.frame id)
    have hholders := hshrinks.sound.covers.holders hf'
    have hpos := hits_pos hr
    rw [hid, Object.hits_references, ← hheap] at hpos
    rw [Tally.demand] at hholders
    omega
  · obtain ⟨q, hq, htarget⟩ := h.held r hr
    have hholders := hshrinks.sound.covers.holders hf'
    have hpos : 0 < hits (.frame id) s'.kept :=
      hshrinks.kept ▸ hits_pos_iff.2 ⟨q, hq, htarget.trans hid⟩
    omega

/-! ## Tallies of a machine -/

theorem sameBut_holding (m : Machine) (also : List Reference) :
    m.arena.SameButHolders (m.holding also).arena :=
  Tally.sameBut_ofState m.arena _

theorem mirrors_holding (h : m.arena.CountsChildren) (also : List Reference) :
    (m.holding also).Mirrors m also := by
  have hkept : ∀ r ∈ m.types.values.map .value ++ (m.held ++ also),
      ∃ q ∈ (m.holding also).kept, q.target = r.target := fun r hr =>
    hits_pos_iff.1 (Nat.lt_of_lt_of_eq (hits_pos hr) (Holding.hits_kept_ofState ..).symm)
  exact ⟨Holding.sound_ofState h _ _, rfl, m.sameBut_holding also,
    fun v hv => hkept _ (List.mem_append_left _ (List.mem_map_of_mem hv)),
    fun r hr => hkept r (List.mem_append_right _ hr)⟩

theorem sound_holding (h : m.arena.CountsChildren) (also : List Reference) :
    (m.holding also).Sound :=
  (mirrors_holding h also).sound

/-- Looking at the frames that lost their holders frees nothing that can be reached. -/
theorem collected_settleDropped (h : m.arena.CountsChildren) (also : List Reference) :
    m.Collected also (m.holding also).settleDropped.arena :=
  collected_of_shrinks (mirrors_holding h also) (Holding.shrinks_settleDropped (sound_holding h also))

/-- The frames that a collection leaves. -/
def collected (m : Machine) : Arena := (m.holding []).collect.arena

theorem collectGarbage_eq (m : Machine) : m.collectGarbage = { m with arena := m.collected } := by
  simp only [collectGarbage, collected]

/-- A collection frees nothing that can be reached. -/
theorem collected_spec (h : m.arena.CountsChildren) : m.Collected [] m.collected :=
  collected_of_shrinks (mirrors_holding h []) (Holding.shrinks_collect (sound_holding h []))

end Machine

/-! ## Ends of activations -/

open Finset (range)

/-- What live frames refer to when one of them changes. -/
theorem Arena.demand_modify {a : Arena} {id : FrameId} {f : Frame} (hf : a.get? id = some f)
    (change : Frame → Frame) (x : Target) :
    (a.modify id change).demand x + hits x f.parts = a.demand x + hits x (change f).parts := by
  have hflip := sum_range_flip
    (f := fun i => ((a.modify id change).get? ⟨i⟩).elim 0 fun f => hits x f.parts)
    (g := fun i => (a.get? ⟨i⟩).elim 0 fun f => hits x f.parts)
    (serial_lt_of_get? hf) fun i hi => by
      rw [get?_modify, if_neg fun e => hi (congrArg FrameId.serial e)]
  simpa [demand, hf, get?_modify] using hflip

/-- The last activation of a frame takes the operands with it. -/
theorem Frame.hits_parts_deactivate (f : Frame) (x : Target) :
    hits x f.deactivate.parts + hits x (if f.active ≤ 1 then f.operands else []) = hits x f.parts := by
  unfold Frame.deactivate
  by_cases hactive : f.active ≤ 1
  · rw [if_pos (Nat.sub_eq_zero_of_le hactive), if_pos hactive]
    simp [Frame.parts, Frame.operands, Nat.add_assoc]
  · rw [if_neg (fun e => hactive (Nat.le_of_sub_eq_zero e)), if_neg hactive]
    rfl

namespace Holding

variable {s : Holding} {id : FrameId} {f : Frame}

/-- The activation has ended, and nothing was freed yet. -/
def ended (s : Holding) (id : FrameId) : Holding :=
  (s.mapArena fun a => a.modify id Frame.deactivate).letGo
    ((s.arena.get? id).elim [] fun f => if f.active ≤ 1 then f.operands else [])

theorem sameBut_ended (s : Holding) (id : FrameId) :
    (s.arena.modify id Frame.deactivate).SameButHolders (s.ended id).arena :=
  Tally.sameBut_letGo s.heap _ _ (s.toTally.mapArena fun a => a.modify id Frame.deactivate)

/-- An activation that ends leaves everything counted. -/
theorem Sound.ended (hs : s.Sound) (hf : s.arena.get? id = some f) : (s.ended id).Sound := by
  refine ⟨Tally.Covers.letGo _ ?_, ?_⟩
  · rw [hf, Option.elim_some]
    refine ⟨hs.covers.size, fun x n hn => ?_⟩
    have hdemand := s.arena.demand_modify hf Frame.deactivate x
    have hparts := f.hits_parts_deactivate x
    have htracked : s.toTally.tracked x = some n := by
      cases x with
      | object v => exact hn
      | frame other =>
        change ((s.arena.modify id Frame.deactivate).get? other).map Frame.holders = some n at hn
        change (s.arena.get? other).map Frame.holders = some n
        rw [Arena.get?_modify] at hn
        split at hn
        · subst other
          rw [hf] at hn ⊢
          rw [← hn]
          exact congrArg some f.holders_deactivate.symm
        · exact hn
    have hcover := hs.covers.covers x n htracked
    change s.heap.demand s.toTally.has x + (s.arena.modify id Frame.deactivate).demand x +
      hits x (_ ++ s.kept) ≤ n
    rw [Tally.demand] at hcover
    rw [hits_append]
    omega
  · exact (s.sameBut_ended id).countsChildren (hs.family.modify id
      Frame.parent_deactivate fun f => Nat.le_of_eq f.children_deactivate.symm)

/-- A frame whose activation ended is settled, and looked into if it stays. -/
theorem release_eq (hf : s.arena.get? id = some f) : s.release id =
    (if ((s.ended id).settle id).arena.isLive id && !((s.ended id).settle id).isActive id then
      ((s.ended id).settle id).collectFrom [id] else (s.ended id).settle id).settleDropped := by
  unfold release Holding.ended
  rw [hf]
  rfl

/-- The end of an activation frees nothing that can be reached once it has ended. -/
theorem shrinks_release (hs : s.Sound) (hf : s.arena.get? id = some f) :
    (s.ended id).Shrinks (s.release id) := by
  have hsettle := shrinks_settle id (hs.ended hf)
  rw [release_eq hf]
  split
  · have hcollect := shrinks_collectFrom [id] hsettle.sound
    exact hsettle.trans (hcollect.trans (shrinks_settleDropped hcollect.sound))
  · exact hsettle.trans (shrinks_settleDropped hsettle.sound)

end Holding

namespace Machine

variable {m : Machine} {id : FrameId} {f : Frame}

/-- When an activation has ended, what can be reached from the machine without it is kept. -/
theorem mirrors_ended (h : m.arena.CountsChildren) (hf : m.arena.get? id = some f)
    (also : List Reference) :
    ((m.holding also).ended id).Mirrors (m.modifyFrame id Frame.deactivate) also := by
  have hmirror := mirrors_holding h also
  obtain ⟨n, hn⟩ := hmirror.frames.symm.get? hf
  have hframes : (m.modifyFrame id Frame.deactivate).arena.SameButHolders
      ((m.holding also).arena.modify id Frame.deactivate) :=
    hmirror.frames.modify id fun f => by
      unfold Frame.deactivate Frame.unheld
      dsimp only
      split <;> rfl
  exact ⟨hmirror.sound.ended hn, hmirror.heap, hframes.trans ((m.holding also).sameBut_ended id),
    hmirror.types, hmirror.held⟩

/-- The end of an activation frees nothing that can be reached once it has ended. -/
theorem collected_release (h : m.arena.CountsChildren) (hf : m.arena.get? id = some f)
    (also : List Reference) :
    (m.modifyFrame id Frame.deactivate).Collected also ((m.holding also).release id).arena := by
  obtain ⟨n, hn⟩ := (m.sameBut_holding also).symm.get? hf
  exact collected_of_shrinks (mirrors_ended h hf also)
    (Holding.shrinks_release (sound_holding h also) hn)

end Machine
end ScriptVM
