import Mathlib.Algebra.BigOperators.Group.Finset.Basic
import Mathlib.Algebra.Order.BigOperators.Group.Finset
import ScriptVM.Frame.Tally
import ScriptVM.Proofs.Frame.Family
import ScriptVM.Proofs.Frame.Slot

/-!
# Standing references

A tally covers the references that stand when every object is counted at least as often, and every
live frame has at least as many holders, as what exists refers to it. Taking references back keeps a
tally covered, so nothing that is still referred to ceases to exist. A tally that is made afresh of an
arena and a heap begins with all that refers to something.
-/
namespace ScriptVM

open Finset (range)

/-- Sums that differ in one summand. -/
theorem sum_range_flip {f g : Nat → Nat} {k n : Nat} (hk : k < n) (h : ∀ i, i ≠ k → f i = g i) :
    (∑ i ∈ range n, f i) + g k = (∑ i ∈ range n, g i) + f k := by
  have hmem : k ∈ range n := Finset.mem_range.2 hk
  have hrest : ∑ i ∈ (range n).erase k, f i = ∑ i ∈ (range n).erase k, g i :=
    Finset.sum_congr rfl fun i hi => h i (Finset.mem_erase.1 hi).1
  rw [← Finset.add_sum_erase _ f hmem, ← Finset.add_sum_erase _ g hmem, hrest]
  omega

/-! ## Targets -/

/-- What a reference leads to: an object, or the frame that is held by it. -/
inductive Target where
  | object (v : Value)
  | frame (id : FrameId)
  deriving DecidableEq

deriving instance DecidableEq for Reference

/-- What a reference keeps in existence. -/
def Reference.target : Reference → Target
  | .value v => .object v
  | .code scope => .frame scope
  | .frame id => .frame id

/-- How many of some references have a target. -/
def hits (x : Target) (rs : List Reference) : Nat := rs.countP fun r => r.target = x

section hits

variable {x : Target} {rs rs' : List Reference} {r : Reference}

@[simp] theorem hits_nil (x : Target) : hits x [] = 0 := rfl

@[simp] theorem hits_cons (x : Target) (r : Reference) (rs : List Reference) :
    hits x (r :: rs) = hits x rs + if r.target = x then 1 else 0 := by
  simp [hits, List.countP_cons]

@[simp] theorem hits_append (x : Target) (rs rs' : List Reference) :
    hits x (rs ++ rs') = hits x rs + hits x rs' := by
  simp [hits]

theorem hits_perm (h : rs.Perm rs') (x : Target) : hits x rs = hits x rs' := h.countP_eq _

theorem hits_pos_iff : 0 < hits x rs ↔ ∃ r ∈ rs, r.target = x := by
  simp [hits, List.countP_pos_iff]

theorem hits_pos (hr : r ∈ rs) : 0 < hits r.target rs := hits_pos_iff.2 ⟨r, hr, rfl⟩

/-- The hits among what each of some things refers to. -/
theorem hits_flatMap {α : Type} {xs : List α} {p : α → List Reference} (d : α) :
    hits x (xs.flatMap p) = ∑ i ∈ range xs.length, hits x (p (xs.getD i d)) := by
  induction xs with
  | nil => rfl
  | cons a rest ih =>
    rw [List.flatMap_cons, hits_append, ih, List.length_cons, Finset.sum_range_succ']
    simp [Nat.add_comm]

theorem hits_frame_values (id : FrameId) (vs : List Value) :
    hits (.frame id) (vs.map .value) = 0 := by
  simp [hits, List.countP_map, Function.comp_def, Reference.target]

theorem hits_parent (x : Target) (parent : Option FrameId) :
    hits x (parent.toList.map .frame) = if parent.map Target.frame = some x then 1 else 0 := by
  cases parent with
  | none => simp
  | some p => by_cases hp : Target.frame p = x <;> simp [Reference.target, hp]

/-- An object lets go of what it refers to. -/
theorem Object.hits_references (o : Object) (x : Target) : hits x o.references = hits x o.parts := by
  have hkind : hits x o.kind.references = hits x o.kind.parts := by
    cases o.kind with
    | generator g =>
      refine hits_perm (List.Perm.cons _ ?_) x
      exact List.perm_append_comm
    | _ => rfl
  simp only [Object.references, Object.parts, hits_append, hkind, Nat.add_comm]

/-- A frame refers to what it lets go of, and to its parent. -/
theorem Frame.hits_references (f : Frame) (x : Target) :
    hits x f.references = hits x f.parts + hits x (f.parent.toList.map .frame) := by
  simp only [Frame.references, Frame.parts, Frame.operands, List.map_append, hits_append]
  omega

/-- What a frame lets go of are values. -/
theorem Frame.hits_parts_frame (f : Frame) (id : FrameId) : hits (.frame id) f.parts = 0 := by
  simp only [Frame.parts, Frame.operands, hits_append, hits_frame_values]

end hits

/-! ## Demand -/

/-- How often the objects of some kind refer to a target. -/
def Heap.demand (h : Heap) (exists' : Value → Bool) (x : Target) : Nat :=
  ∑ i ∈ range h.objects.size, if exists' ⟨i⟩ then hits x (h.get ⟨i⟩).parts else 0

/-- How often the variables, objects and operands of live frames are a target. -/
def Arena.demand (a : Arena) (x : Target) : Nat :=
  ∑ i ∈ range a.frames.size, (a.get? ⟨i⟩).elim 0 fun f => hits x f.parts

section demand

variable {h : Heap} {a b : Arena} {p q : Value → Bool} {v : Value} {id : FrameId} {f : Frame}

theorem Heap.demand_congr (hpq : ∀ v : Value, v.address < h.objects.size → p v = q v)
    (x : Target) : h.demand p x = h.demand q x :=
  Finset.sum_congr rfl fun i hi => by rw [hpq ⟨i⟩ (Finset.mem_range.1 hi)]

/-- One more object that refers to things. -/
theorem Heap.demand_flip (hv : v.address < h.objects.size) (hp : p v = true) (hq : q v = false)
    (hpq : ∀ u, u ≠ v → p u = q u) (x : Target) :
    h.demand p x = h.demand q x + hits x (h.get v).parts := by
  have hflip := sum_range_flip (f := fun i => if p ⟨i⟩ then hits x (h.get ⟨i⟩).parts else 0)
    (g := fun i => if q ⟨i⟩ then hits x (h.get ⟨i⟩).parts else 0) hv fun i hi => by
      rw [hpq ⟨i⟩ fun e => hi (congrArg Value.address e)]
  rw [if_pos hp, if_neg (by simp [hq]), Nat.add_zero] at hflip
  exact hflip

theorem Heap.hits_le_demand (hv : v.address < h.objects.size) (hp : p v = true) (x : Target) :
    hits x (h.get v).parts ≤ h.demand p x := by
  have hle := Finset.single_le_sum
    (f := fun i => if p ⟨i⟩ then hits x (h.get ⟨i⟩).parts else 0)
    (fun _ _ => Nat.zero_le _) (Finset.mem_range.2 hv)
  rw [if_pos hp] at hle
  exact hle

theorem Arena.demand_congr (hsize : b.frames.size = a.frames.size)
    (h : ∀ id, (b.get? id).map Frame.parts = (a.get? id).map Frame.parts) (x : Target) :
    b.demand x = a.demand x := by
  have helim : ∀ (c : Arena) i, ((c.get? ⟨i⟩).elim 0 fun f => hits x f.parts) =
      ((c.get? ⟨i⟩).map Frame.parts).elim 0 (hits x) := by
    intro c i
    cases c.get? ⟨i⟩ <;> rfl
  simp only [demand, hsize, helim, h]

theorem Arena.hits_le_demand (hf : a.get? id = some f) (x : Target) :
    hits x f.parts ≤ a.demand x := by
  have hle := Finset.single_le_sum
    (f := fun i => (a.get? ⟨i⟩).elim 0 fun f => hits x f.parts)
    (fun _ _ => Nat.zero_le _) (Finset.mem_range.2 (serial_lt_of_get? hf))
  rw [hf] at hle
  exact hle

/-- No frame is held by the variables, objects and operands of frames as such. -/
theorem Arena.demand_frame (a : Arena) (id : FrameId) : a.demand (.frame id) = 0 := by
  refine Finset.sum_eq_zero fun i _ => ?_
  cases a.get? ⟨i⟩ with
  | none => rfl
  | some f => exact f.hits_parts_frame id

theorem Arena.demand_vacate (hf : a.get? id = some f) (x : Target) :
    a.demand x = (a.vacate id).demand x + hits x f.parts := by
  have hflip := sum_range_flip (f := fun i => (a.get? ⟨i⟩).elim 0 fun f => hits x f.parts)
    (g := fun i => ((a.vacate id).get? ⟨i⟩).elim 0 fun f => hits x f.parts)
    (serial_lt_of_get? hf) fun i hi => by
      rw [get?_vacate, if_neg fun e => hi (congrArg FrameId.serial e)]
  simpa [demand, hf, get?_vacate] using hflip

end demand

/-! ## Frames with other holders -/

/-- A frame but for how many references keep it alive. -/
def Frame.unheld (f : Frame) : Frame := { f with holders := 0 }

/-- The same frames, which may be held by more or by less. -/
structure Arena.SameButHolders (a b : Arena) : Prop where
  size : b.frames.size = a.frames.size
  unheld : ∀ id, (b.get? id).map Frame.unheld = (a.get? id).map Frame.unheld
  slots : b.slots = a.slots
  free : b.free = a.free

namespace Arena

variable {a b c : Arena} {id : FrameId} {f : Frame}

theorem SameButHolders.refl (a : Arena) : a.SameButHolders a :=
  ⟨rfl, fun _ => rfl, rfl, rfl⟩

theorem SameButHolders.trans (hab : a.SameButHolders b) (hbc : b.SameButHolders c) :
    a.SameButHolders c :=
  ⟨hbc.size.trans hab.size, fun id => (hbc.unheld id).trans (hab.unheld id),
    hbc.slots.trans hab.slots, hbc.free.trans hab.free⟩

theorem sameBut_modify {change : Frame → Frame} (a : Arena) (id : FrameId)
    (hchange : ∀ f, (change f).unheld = f.unheld) : a.SameButHolders (a.modify id change) := by
  refine ⟨size_frames_modify .., fun other => ?_, rfl, rfl⟩
  rw [get?_modify]
  split
  · subst other
    cases a.get? id <;> simp [hchange]
  · rfl

/-- What does not depend on the holders of a frame is the same. -/
theorem SameButHolders.map {α : Type} (hab : a.SameButHolders b) {g : Frame → α}
    (hg : ∀ f, g f.unheld = g f) (id : FrameId) : (b.get? id).map g = (a.get? id).map g := by
  have hmap : ∀ c : Arena, (c.get? id).map g = ((c.get? id).map Frame.unheld).map g := by
    intro c
    rw [Option.map_map]
    cases c.get? id <;> simp [hg]
  rw [hmap, hmap, hab.unheld]

/-- The same change on both sides. -/
theorem SameButHolders.modify {change : Frame → Frame} (hab : a.SameButHolders b) (id : FrameId)
    (hchange : ∀ f, (change f).unheld = change f.unheld) :
    (a.modify id change).SameButHolders (b.modify id change) := by
  refine ⟨?_, fun other => ?_, hab.slots, hab.free⟩
  · rw [size_frames_modify, size_frames_modify, hab.size]
  · rw [get?_modify, get?_modify]
    split
    · have hcomm : Frame.unheld ∘ change = change ∘ Frame.unheld := funext hchange
      rw [Option.map_map, Option.map_map, hcomm, ← Option.map_map, ← Option.map_map, hab.unheld]
    · exact hab.unheld other

theorem SameButHolders.parts (hab : a.SameButHolders b) (id : FrameId) :
    (b.get? id).map Frame.parts = (a.get? id).map Frame.parts :=
  hab.map (fun _ => rfl) id

theorem SameButHolders.get? (hab : a.SameButHolders b) (hf : b.get? id = some f) :
    ∃ n, a.get? id = some { f with holders := n } := by
  have hunheld := hab.unheld id
  rw [hf, Option.map_some] at hunheld
  obtain ⟨g, hg, he⟩ := Option.map_eq_some_iff.1 hunheld.symm
  refine ⟨g.holders, ?_⟩
  rw [hg]
  cases f
  cases g
  cases he
  rfl

theorem SameButHolders.symm (hab : a.SameButHolders b) : b.SameButHolders a :=
  ⟨hab.size.symm, fun id => (hab.unheld id).symm, hab.slots.symm, hab.free.symm⟩

theorem SameButHolders.childCount (hab : a.SameButHolders b) (p : FrameId) :
    b.childCount p = a.childCount p := by
  refine childCount_congr hab.size fun id => ?_
  have hparent := hab.map (g := fun f => decide (f.parent = some p)) (fun _ => rfl) id
  have hany : ∀ c : Arena, c.isChildOf p id =
      ((c.get? id).map fun f => decide (f.parent = some p)).getD false := by
    intro c
    unfold isChildOf
    cases c.get? id <;> rfl
  rw [hany, hany, hparent]

theorem SameButHolders.countsChildren (hab : a.SameButHolders b) (ha : a.CountsChildren) :
    b.CountsChildren := by
  intro p hp
  rw [hab.childCount] at hp ⊢
  obtain ⟨g, hg, hle⟩ := ha p hp
  obtain ⟨n, hn⟩ := hab.symm.get? hg
  exact ⟨_, hn, hle⟩

theorem SameButHolders.slotted (hab : a.SameButHolders b) (ha : a.Slotted) : b.Slotted := by
  refine ha.of_slot hab.slots hab.free fun id f hf => ?_
  obtain ⟨n, hn⟩ := hab.get? hf
  exact ⟨_, hn, rfl⟩

end Arena

/-! ## Covered tallies -/

namespace Tally

/-- How often an object is counted, or how many holders a live frame has. -/
def tracked (t : Tally) : Target → Option Nat
  | .object v => t.counts[v.address]?
  | .frame id => (t.arena.get? id).map Frame.holders

/-- Whether something refers to an object. -/
def has (t : Tally) (v : Value) : Bool := 0 < t.count v

/-- How often what exists refers to a target. -/
def demand (t : Tally) (h : Heap) (x : Target) : Nat := h.demand t.has x + t.arena.demand x

/-- Every object and every live frame is counted for all that refers to it: for what exists, and for
some other references. -/
structure Covers (t : Tally) (h : Heap) (others : List Reference) : Prop where
  size : t.counts.size = h.objects.size
  covers : ∀ x n, t.tracked x = some n → t.demand h x + hits x others ≤ n

variable {t t' : Tally} {h : Heap} {others rest : List Reference} {v : Value} {id : FrameId}
  {f : Frame}

theorem tracked_object (hv : v.address < t.counts.size) : t.tracked (.object v) = some (t.count v) := by
  simp [tracked, count, hv]

theorem tracked_frame (hf : t.arena.get? id = some f) :
    t.tracked (.frame id) = some f.holders := by
  simp [tracked, hf]

theorem has_of_pos (hv : 0 < t.count v) : t.has v = true := decide_eq_true hv

theorem lt_of_has (hv : t.has v = true) : v.address < t.counts.size := by
  refine Nat.lt_of_not_le fun hle => ?_
  simp [has, count, hle] at hv

/-- Fewer references are covered too. -/
theorem Covers.mono (ht : t.Covers h others) (hrest : ∀ x, hits x rest ≤ hits x others) :
    t.Covers h rest :=
  ⟨ht.size, fun x n hn => Nat.le_trans (Nat.add_le_add_left (hrest x) _) (ht.covers x n hn)⟩

theorem Covers.count (ht : t.Covers h others) (hv : v.address < h.objects.size) :
    t.demand h (.object v) + hits (.object v) others ≤ t.count v :=
  ht.covers _ _ (tracked_object (ht.size ▸ hv))

theorem Covers.holders (ht : t.Covers h others) (hf : t.arena.get? id = some f) :
    t.demand h (.frame id) + hits (.frame id) others ≤ f.holders :=
  ht.covers _ _ (tracked_frame hf)

/-! ### Taking references back -/

theorem get?_loseHolder (t : Tally) (id other : FrameId) :
    (t.loseHolder id).arena.get? other =
      if other = id then (t.arena.get? id).map fun f => { f with holders := f.holders - 1 }
      else t.arena.get? other :=
  t.arena.get?_modify id other _

theorem demand_of_arena (hcounts : t'.counts = t.counts)
    (hsize : t'.arena.frames.size = t.arena.frames.size)
    (hparts : ∀ id, (t'.arena.get? id).map Frame.parts = (t.arena.get? id).map Frame.parts)
    (x : Target) : t'.demand h x = t.demand h x := by
  have hhas : ∀ v, t'.has v = t.has v := fun v => by simp [has, Tally.count, hcounts]
  rw [demand, demand, Heap.demand_congr fun v _ => hhas v, Arena.demand_congr hsize hparts]

theorem Covers.loseHolder {r : Reference} (hr : r.target = .frame id)
    (ht : t.Covers h (r :: others)) : (t.loseHolder id).Covers h others where
  size := ht.size
  covers x n hn := by
    have hdemand : (t.loseHolder id).demand h x = t.demand h x := by
      refine demand_of_arena (counts_loseHolder t id) ?_ (fun other => ?_) x
      · exact t.arena.size_frames_modify id _
      · rw [get?_loseHolder]
        split
        · subst other
          cases t.arena.get? id <;> rfl
        · rfl
    rw [hdemand]
    cases x with
    | object v =>
      have hcover := ht.covers (.object v) n hn
      rw [hits_cons, hr] at hcover
      simpa using hcover
    | frame other =>
      simp only [tracked, get?_loseHolder] at hn
      split at hn
      · subst other
        obtain ⟨f, hf, rfl⟩ := Option.map_eq_some_iff.1 hn
        obtain ⟨g, hg, rfl⟩ := Option.map_eq_some_iff.1 hf
        have hcover := ht.holders hg
        rw [hits_cons, hr, if_pos rfl] at hcover
        exact Nat.le_sub_one_of_lt hcover
      · rename_i hne
        have hcover := ht.covers (.frame other) n hn
        have hne' : Target.frame id ≠ .frame other := fun e => hne (by cases e; rfl)
        rwa [hits_cons, hr, if_neg hne', Nat.add_zero] at hcover

theorem tracked_setCount_of_ne {x : Target} (hx : x ≠ .object v) (n : Nat) :
    (t.setCount v n).tracked x = t.tracked x := by
  cases x with
  | object u =>
    have hne : v.address ≠ u.address := fun e => hx (by cases v; cases u; cases e; rfl)
    simp [tracked, setCount, Array.getElem?_setIfInBounds_ne hne]
  | frame id => rfl

theorem has_setCount_of_ne {u : Value} (hu : u ≠ v) (n : Nat) :
    (t.setCount v n).has u = t.has u := by
  have hne : v.address ≠ u.address := fun e => hu (by cases v; cases u; cases e; rfl)
  rw [has, count_setCount_of_ne t n hne, has]

/-- The last reference to an object: what the object refers to is to be let go of. -/
theorem Covers.dies (ht : t.Covers h (.value v :: others)) (hv : t.count v = 1) :
    (t.setCount v 0).Covers h ((h.get v).parts ++ others) := by
  have hlt : v.address < t.counts.size := lt_of_has (has_of_pos (by omega))
  have hdemand : ∀ x, t.demand h x = (t.setCount v 0).demand h x + hits x (h.get v).parts := by
    intro x
    have hgone : (t.setCount v 0).has v = false := by simp [has, count_setCount t v 0 hlt]
    have hflip := Heap.demand_flip (h := h) (ht.size ▸ hlt) (has_of_pos (by omega)) hgone
      (fun u hu => (has_setCount_of_ne hu 0).symm) x
    simp only [demand, arena_setCount, hflip]
    omega
  refine ⟨by simpa using ht.size, fun x n hn => ?_⟩
  have hmove := hdemand x
  rw [hits_append]
  by_cases hx : x = .object v
  · subst hx
    have hcover := ht.count (ht.size ▸ hlt)
    rw [hits_cons, if_pos (show (Reference.value v).target = .object v from rfl)] at hcover
    omega
  · rw [tracked_setCount_of_ne hx] at hn
    have hcover := ht.covers x n hn
    rw [hits_cons] at hcover
    omega

/-- An object that something else refers to, too, is counted more than once. -/
theorem Covers.one_lt_count (ht : t.Covers h (.value v :: others)) (hv : t.count v ≠ 1)
    (hlt : v.address < t.counts.size) : 1 < t.count v := by
  have hcover := ht.count (ht.size ▸ hlt)
  rw [hits_cons, if_pos (show (Reference.value v).target = .object v from rfl)] at hcover
  omega

/-- What is counted more than once stays in existence. -/
theorem Covers.has_setCount_pred (ht : t.Covers h (.value v :: others)) (hv : t.count v ≠ 1)
    (u : Value) : (t.setCount v (t.count v - 1)).has u = t.has u := by
  by_cases hu : u = v
  · subst hu
    by_cases hlt : u.address < t.counts.size
    · have hcount := ht.one_lt_count hv hlt
      simp only [has, count_setCount t u _ hlt]
      simp
      omega
    · simp [has, Tally.count, setCount, hlt]
  · exact has_setCount_of_ne hu _

theorem Covers.loses (ht : t.Covers h (.value v :: others)) (hv : t.count v ≠ 1) :
    (t.setCount v (t.count v - 1)).Covers h others := by
  have hhas := ht.has_setCount_pred hv
  have hdemand : ∀ x, (t.setCount v (t.count v - 1)).demand h x = t.demand h x := fun x => by
    rw [demand, demand, Heap.demand_congr fun v _ => hhas v, arena_setCount]
  refine ⟨by simpa using ht.size, fun x n hn => ?_⟩
  rw [hdemand]
  by_cases hx : x = .object v
  · subst hx
    have hlt : v.address < t.counts.size := by
      simpa [tracked, setCount] using (Array.getElem?_eq_some_iff.1 hn).1
    rw [tracked_object (by simpa using hlt), count_setCount t v _ hlt] at hn
    have hcover := ht.count (ht.size ▸ hlt)
    rw [hits_cons, if_pos (show (Reference.value v).target = .object v from rfl)] at hcover
    have hmany := ht.one_lt_count hv hlt
    have := Option.some.inj hn
    omega
  · rw [tracked_setCount_of_ne hx] at hn
    have hcover := ht.covers x n hn
    rw [hits_cons] at hcover
    omega

/-- References that were counted can be taken back. -/
theorem Covers.letGo {gone : List Reference} (deaths : Nat) (ht : t.Covers h (gone ++ others)) :
    (t.letGo h deaths gone).Covers h others := by
  fun_induction Tally.letGo h deaths gone t with
  | case1 => exact ht
  | case2 t deaths id rest ih => exact ih (ht.loseHolder rfl)
  | case3 t deaths id rest ih => exact ih (ht.loseHolder rfl)
  | case4 t v rest =>
    refine ht.mono fun x => ?_
    rw [hits_append]
    exact Nat.le_add_left ..
  | case5 t deaths v rest count hcount ih =>
    refine ih ?_
    rw [List.append_assoc]
    exact ht.dies hcount
  | case6 t deaths v rest count hcount ih => exact ih (ht.loses hcount)

/-! ### Frames of a tally -/

theorem sameBut_loseHolder (t : Tally) (id : FrameId) :
    t.arena.SameButHolders (t.loseHolder id).arena :=
  t.arena.sameBut_modify id fun _ => rfl

/-- The tally only changes how many holders frames have. -/
theorem sameBut_letGo (h : Heap) (deaths : Nat) (gone : List Reference) (t : Tally) :
    t.arena.SameButHolders (t.letGo h deaths gone).arena := by
  fun_induction Tally.letGo h deaths gone t with
  | case1 => exact .refl _
  | case2 t deaths id rest ih => exact (t.sameBut_loseHolder id).trans ih
  | case3 t deaths id rest ih => exact (t.sameBut_loseHolder id).trans ih
  | case4 => exact .refl _
  | case5 t deaths v rest count hcount ih => exact ih
  | case6 t deaths v rest count hcount ih => exact ih

/-- Some objects that something refers to as long as all of them exist go on existing, whatever
references are taken back. -/
theorem Covers.has_letGo {alive : Value → Prop} {gone : List Reference} (deaths : Nat)
    (ht : t.Covers h (gone ++ others)) (halive : ∀ v, alive v → t.has v = true)
    (hback : ∀ t' : Tally, t.arena.SameButHolders t'.arena → (∀ v, alive v → t'.has v = true) →
      ∀ v, alive v → 0 < t'.demand h (.object v)) :
    ∀ v, alive v → (t.letGo h deaths gone).has v = true := by
  fun_induction Tally.letGo h deaths gone t with
  | case1 => exact halive
  | case2 t deaths id rest ih =>
    exact ih (ht.loseHolder rfl) halive fun t' hsame => hback t' ((t.sameBut_loseHolder id).trans hsame)
  | case3 t deaths id rest ih =>
    exact ih (ht.loseHolder rfl) halive fun t' hsame => hback t' ((t.sameBut_loseHolder id).trans hsame)
  | case4 => exact halive
  | case5 t deaths v rest count hcount ih =>
    -- The object that ceases to exist is none of them, for nothing else refers to it.
    have hlt : v.address < t.counts.size := lt_of_has (has_of_pos (by omega))
    have hother : ∀ u, alive u → u ≠ v := by
      rintro u hu rfl
      have hcover := ht.count (ht.size ▸ hlt)
      have hpos := hback t (.refl _) halive u hu
      rw [List.cons_append, hits_cons,
        if_pos (show (Reference.value u).target = .object u from rfl)] at hcover
      omega
    refine ih ?_ (fun u hu => ?_) hback
    · rw [List.append_assoc]
      exact ht.dies hcount
    · rw [has_setCount_of_ne (hother u hu)]
      exact halive u hu
  | case6 t deaths v rest count hcount ih =>
    refine ih (ht.loses hcount) (fun u hu => ?_) hback
    rw [ht.has_setCount_pred hcount]
    exact halive u hu

theorem sameBut_note (t : Tally) (r : Reference) : t.arena.SameButHolders (t.note r).arena := by
  cases r with
  | value v => exact .refl _
  | code id => exact t.arena.sameBut_modify id fun _ => rfl
  | frame id => exact t.arena.sameBut_modify id fun _ => rfl

/-! ### A tally made afresh -/

theorem tracked_note (t : Tally) (r : Reference) (x : Target) :
    (t.note r).tracked x = (t.tracked x).map (· + if r.target = x then 1 else 0) := by
  have hretain : ∀ id, ((t.arena.retain id).get? id).map Frame.holders =
      ((t.arena.get? id).map Frame.holders).map (· + 1) := fun id => by
    rw [Arena.retain, Arena.get?_modify_self]
    cases t.arena.get? id <;> rfl
  have hframe : ∀ r' : Reference, ∀ id, r'.target = .frame id →
      (t.note r').arena = t.arena.retain id → (t.note r').counts = t.counts →
      (t.note r').tracked x = (t.tracked x).map (· + if r'.target = x then 1 else 0) := by
    intro r' id hr harena hcounts
    cases x with
    | object v => simp [tracked, hr, hcounts]
    | frame other =>
      simp only [tracked, harena, hr]
      by_cases hother : other = id
      · subst hother
        rw [hretain, if_pos rfl]
      · rw [Arena.retain, Arena.get?_modify_of_ne _ _ hother,
          if_neg fun e => hother (by cases e; rfl)]
        cases t.arena.get? other <;> rfl
  cases r with
  | value v =>
    cases x with
    | object u =>
      simp only [tracked, note, Array.getElem?_modify, Reference.target, Target.object.injEq]
      by_cases hu : v = u
      · subst hu
        simp
      · have hne : v.address ≠ u.address := fun e => hu (by cases v; cases u; cases e; rfl)
        simp [hu, hne]
    | frame id =>
      change (t.arena.get? id).map Frame.holders = ((t.arena.get? id).map Frame.holders).map _
      cases t.arena.get? id <;> rfl
  | code id => exact hframe _ id rfl rfl rfl
  | frame id => exact hframe _ id rfl rfl rfl

theorem tracked_notes (t : Tally) (rs : List Reference) (x : Target) :
    (rs.foldl note t).tracked x = (t.tracked x).map (· + hits x rs) := by
  induction rs generalizing t with
  | nil => simp
  | cons r rest ih =>
    rw [List.foldl_cons, ih, tracked_note, Option.map_map, hits_cons]
    congr 1
    funext n
    simp only [Function.comp_apply]
    omega

theorem sameBut_notes (t : Tally) (rs : List Reference) :
    t.arena.SameButHolders (rs.foldl note t).arena := by
  induction rs generalizing t with
  | nil => exact .refl _
  | cons r rest ih => exact (t.sameBut_note r).trans (ih (t.note r))

theorem size_counts_notes (t : Tally) (rs : List Reference) :
    (rs.foldl note t).counts.size = t.counts.size := by
  induction rs generalizing t with
  | nil => rfl
  | cons r rest ih =>
    rw [List.foldl_cons, ih]
    cases r <;> simp [note]

/-- What all objects refer to, one object after the other. -/
theorem demand_eq_hits (h : Heap) {exists' : Value → Bool}
    (hall : ∀ v : Value, v.address < h.objects.size → exists' v = true) (x : Target) :
    h.demand exists' x = hits x (h.objects.toList.flatMap Object.parts) := by
  rw [hits_flatMap (default : Object)]
  refine Finset.sum_congr (by simp) fun i hi => ?_
  rw [if_pos (hall ⟨i⟩ (by simpa using hi))]
  simp [Heap.get, Array.getD_eq_getD_getElem?]

/-- What all live frames refer to, one frame after the other. -/
theorem demand_eq_hits_frames (a : Arena) (x : Target) :
    a.demand x = hits x (a.frames.toList.flatMap fun frame => frame.elim [] Frame.parts) := by
  rw [hits_flatMap (none : Option Frame)]
  refine Finset.sum_congr (by simp) fun i _ => ?_
  have hget : a.frames.toList.getD i none = a.get? ⟨i⟩ := by simp [Arena.get?]
  rw [hget]
  cases a.get? ⟨i⟩ <;> rfl

theorem sameBut_letGoEach {deaths : Nat} (indices : List Nat) (t : Tally) :
    t.arena.SameButHolders
      (indices.foldl (fun t i => t.letGo h deaths [.value ⟨i⟩]) t).arena := by
  induction indices generalizing t with
  | nil => exact .refl _
  | cons i rest ih => exact (sameBut_letGo h deaths _ t).trans (ih _)

theorem Covers.congr (ht : t.Covers h others) (harena : t'.arena = t.arena)
    (hcounts : t'.counts = t.counts) : t'.Covers h others := by
  obtain ⟨arena, counts, dropped⟩ := t'
  cases harena
  cases hcounts
  exact ⟨ht.size, ht.covers⟩

/-! ### The tally of a state -/

/-- No frame has a holder yet, and every object is counted once for itself. -/
def blank (a : Arena) (h : Heap) : Tally :=
  ⟨{ a with frames := a.frames.map fun frame => frame.map fun f => { f with holders := 0 } },
    Array.replicate h.objects.size 1, []⟩

/-- All that refers to something in an arena and a heap whose owner keeps something. -/
def notes (a : Arena) (h : Heap) (kept : List Reference) : List Reference :=
  h.objects.toList.flatMap Object.parts ++
    (a.frames.toList.flatMap (fun frame => frame.elim [] Frame.parts) ++ kept)

/-- Everything is counted, the objects for themselves, too. -/
def noted (a : Arena) (h : Heap) (kept : List Reference) : Tally :=
  (notes a h kept).foldl note (blank a h)

section ofState

variable (a : Arena) (kept : List Reference)

theorem ofState_eq : ofState a h kept =
    match (List.range h.objects.size).foldl
        (fun t i => t.letGo h (h.objects.size + 1) [.value ⟨i⟩]) (noted a h kept) with
    | ⟨arena, counts, _⟩ =>
      ⟨arena, counts, (List.range arena.slots.size).reverse.filterMap arena.idInSlot?⟩ := by
  simp only [ofState, noted, notes, blank, List.foldl_append, List.foldl_flatMap,
    Array.foldl_toList]

theorem get?_blank (id : FrameId) :
    (blank a h).arena.get? id = (a.get? id).map fun f => { f with holders := 0 } := by
  simp only [blank, Arena.get?, Array.getElem?_map]
  cases a.frames[id.serial]? <;> rfl

theorem sameBut_noted : a.SameButHolders (noted a h kept).arena := by
  have hblank : a.SameButHolders (blank a h).arena := by
    refine ⟨by simp [blank], fun id => ?_, rfl, rfl⟩
    rw [get?_blank]
    cases a.get? id <;> rfl
  exact hblank.trans (sameBut_notes _ _)

theorem size_counts_noted : (noted a h kept).counts.size = h.objects.size := by
  rw [noted, size_counts_notes]
  simp [blank]

theorem tracked_noted_object {v : Value} (hv : v.address < h.objects.size) :
    (noted a h kept).tracked (.object v) = some (1 + hits (.object v) (notes a h kept)) := by
  rw [noted, tracked_notes]
  simp [tracked, blank, hv]

theorem tracked_noted_frame (id : FrameId) : (noted a h kept).tracked (.frame id) =
    (a.get? id).map fun _ => hits (.frame id) (notes a h kept) := by
  rw [noted, tracked_notes]
  simp only [tracked, get?_blank]
  cases a.get? id <;> simp

/-- What refers to something was noted. -/
theorem demand_noted (x : Target) :
    (noted a h kept).demand h x + hits x kept = hits x (notes a h kept) := by
  have hhas : ∀ v : Value, v.address < h.objects.size → (noted a h kept).has v = true := by
    intro v hv
    have htracked := tracked_noted_object a kept hv
    rw [tracked_object ((size_counts_noted a kept).symm ▸ hv), Option.some.injEq] at htracked
    exact has_of_pos (by omega)
  have hsame := sameBut_noted (h := h) a kept
  have harena : (noted a h kept).arena.demand x = a.demand x :=
    Arena.demand_congr hsame.size hsame.parts x
  rw [demand, demand_eq_hits h hhas, harena, demand_eq_hits_frames, notes, hits_append, hits_append,
    Nat.add_assoc]

theorem sameBut_ofState : a.SameButHolders (ofState a h kept).arena := by
  rw [ofState_eq]
  exact (sameBut_noted a kept).trans (sameBut_letGoEach _ _)

end ofState

end Tally
end ScriptVM
