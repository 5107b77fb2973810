import Mathlib.Data.List.Perm.Basic
import ScriptVM.Proofs.Collection.Settled
import ScriptVM.Proofs.Heap

/-!
# Operations of an owner

Whatever an owner does with frames and values that were made keeps a holding orderly: making objects
and frames, keeping them under names and letting go of them, binding names in a frame, and pushing
and popping its operands. What comes in is owed first, and what it replaces is gone.
-/
namespace ScriptVM

/-! ## Names -/

namespace Bindings

variable {α : Type} {b : Bindings α} {name : String} {value : α}

/-- A name is bound to a new value, and what it was bound to is replaced. -/
theorem values_insert_perm (b : Bindings α) (name : String) (value : α) :
    ((b.insert name value).values ++ (b.get? name).toList).Perm (value :: b.values) := by
  obtain ⟨entries⟩ := b
  unfold insert values get?
  dsimp only
  induction entries with
  | nil => exact .refl _
  | cons entry rest ih =>
    obtain ⟨other, old⟩ := entry
    rw [insertInto, List.lookup_cons]
    by_cases hname : name = other
    · rw [if_pos hname, beq_iff_eq.2 hname]
      exact List.Perm.cons _ List.perm_append_comm
    · rw [if_neg hname, beq_false_of_ne hname]
      exact (List.Perm.cons old ih).trans (List.Perm.swap ..)

/-- Taking a binding away removes its value. -/
theorem values_erase_perm (hnodup : b.names.Nodup) (name : String) :
    ((b.erase name).values ++ (b.get? name).toList).Perm b.values := by
  obtain ⟨entries⟩ := b
  unfold erase values get? names at *
  dsimp only at *
  induction entries with
  | nil => exact .refl _
  | cons entry rest ih =>
    obtain ⟨other, old⟩ := entry
    obtain ⟨hfresh, hrest⟩ := List.nodup_cons.1 hnodup
    rw [List.lookup_cons]
    by_cases hname : name = other
    · subst hname
      have hkept : ((name, old) :: rest).filter (fun entry => entry.1 ≠ name) = rest := by
        rw [List.filter_cons_of_neg (by simp), List.filter_eq_self]
        rintro entry hentry
        exact decide_eq_true fun he => hfresh (List.mem_map.2 ⟨entry, hentry, he⟩)
      rw [hkept, beq_self_eq_true]
      exact List.perm_append_comm
    · rw [List.filter_cons_of_pos (by simpa using Ne.symm hname), beq_false_of_ne hname]
      exact List.Perm.cons old (ih hrest)

theorem names_insert (b : Bindings α) (name : String) (value : α) :
    (b.insert name value).names = if name ∈ b.names then b.names else b.names ++ [name] := by
  obtain ⟨entries⟩ := b
  unfold insert names
  dsimp only
  induction entries with
  | nil => rfl
  | cons entry rest ih =>
    obtain ⟨other, old⟩ := entry
    rw [insertInto]
    by_cases hname : name = other
    · simp [hname]
    · rw [if_neg hname, List.map_cons, List.map_cons, ih]
      simp only [List.mem_cons, hname, false_or]
      split <;> rfl

theorem nodup_names_insert (hnodup : b.names.Nodup) (name : String) (value : α) :
    (b.insert name value).names.Nodup := by
  rw [names_insert]
  split
  · exact hnodup
  · rename_i hfresh
    rw [List.nodup_append]
    refine ⟨hnodup, List.nodup_singleton _, fun a ha other hother he => hfresh ?_⟩
    rw [← List.mem_singleton.1 hother, ← he]
    exact ha

theorem nodup_names_erase (hnodup : b.names.Nodup) (name : String) : (b.erase name).names.Nodup :=
  hnodup.sublist (List.filter_sublist.map _)

end Bindings

/-- An object with a new member refers to it instead of what it replaces. -/
theorem Object.hits_parts_insert (o : Object) (name : String) (m : Member) (x : Target) :
    hits x { o with members := o.members.insert name m }.parts +
        hits x (((o.members.get? name).map Member.references).getD []) =
      hits x o.parts + hits x m.references := by
  have hperm := (o.members.values_insert_perm name m).flatMap_right Member.references
  have hhits := hits_perm hperm x
  rw [List.flatMap_append, List.flatMap_cons, hits_append, hits_append] at hhits
  have hold : (o.members.get? name).toList.flatMap Member.references =
      ((o.members.get? name).map Member.references).getD [] := by
    cases o.members.get? name <;> simp
  rw [hold] at hhits
  simp only [Object.parts, hits_append]
  omega

/-- One object among those that exist refers to things otherwise. -/
theorem Heap.demand_modify {h : Heap} {v : Value} {p : Value → Bool}
    (hv : v.address < h.objects.size) (hp : p v = true) (change : Object → Object) (x : Target) :
    (h.modify v change).demand p x + hits x (h.get v).parts =
      h.demand p x + hits x (change (h.get v)).parts := by
  have hflip := sum_range_flip
    (f := fun i => if p ⟨i⟩ then hits x ((h.modify v change).get ⟨i⟩).parts else 0)
    (g := fun i => if p ⟨i⟩ then hits x (h.get ⟨i⟩).parts else 0) hv fun i hi => by
      rw [h.get_modify_of_ne change fun e => hi (congrArg Value.address e)]
  have hself : (h.modify v change).get ⟨v.address⟩ = change (h.get v) := h.get_modify_self change hv
  rw [if_pos hp, if_pos hp, hself] at hflip
  rw [demand, demand, Heap.size_modify]
  exact hflip

/-- Objects that do not exist refer to nothing that counts. -/
theorem Heap.demand_extend {h h' : Heap} {p : Value → Bool}
    (hsize : h.objects.size ≤ h'.objects.size)
    (hget : ∀ v : Value, v.address < h.objects.size → h'.get v = h.get v)
    (hnew : ∀ v : Value, h.objects.size ≤ v.address → p v = false) (x : Target) :
    h'.demand p x = h.demand p x := by
  refine (Finset.sum_subset (Finset.range_mono hsize) fun i _ hi => ?_).symm.trans
    (Finset.sum_congr rfl fun i hi => ?_)
  · have hge : h.objects.size ≤ i := Nat.le_of_not_lt fun hlt => hi (Finset.mem_range.2 hlt)
    simp [hnew ⟨i⟩ hge]
  · rw [hget ⟨i⟩ (Finset.mem_range.1 hi)]

namespace Arena

/-- A new frame refers to nothing but its object. -/
theorem parts_new (slot : Nat) (parent : Option FrameId) (object : Option Value)
    (bindsObject : Bool) :
    (⟨slot, .empty, parent, object, bindsObject, [], none, 1, 0, 0⟩ : Frame).parts =
      object.toList.map .value := by
  simp [Frame.parts, Frame.operands, Bindings.values, Bindings.empty]

/-- A new frame refers to its object. -/
theorem demand_alloc (a : Arena) (parent : Option FrameId) (object : Option Value)
    (bindsObject : Bool) (x : Target) : (a.alloc parent object bindsObject).2.demand x =
      a.demand x + hits x (object.toList.map .value) := by
  have hold : ∀ i ∈ Finset.range a.frames.size,
      (((a.alloc parent object bindsObject).2.get? ⟨i⟩).elim 0 fun f => hits x f.parts) =
        (a.get? ⟨i⟩).elim 0 fun f => hits x f.parts := by
    intro i hi
    rw [get?_alloc_of_lt (Finset.mem_range.1 hi : FrameId.serial ⟨i⟩ < a.frames.size)]
    split
    · cases a.get? ⟨i⟩ <;> rfl
    · rfl
  rw [demand, size_frames_alloc, Finset.sum_range_succ, get?_alloc_self, Finset.sum_congr rfl hold,
    Option.elim_some, parts_new, demand]

end Arena

namespace Tally

variable {t : Tally} {h : Heap} {x : Target} {n : Nat}

/-- Room for new counts is room for zeros. -/
theorem tracked_of_fit (hn : (t.fit h).tracked x = some n) : t.tracked x = some n ∨
    n = 0 ∧ ∃ v, x = .object v ∧ t.counts.size ≤ v.address := by
  cases x with
  | frame id => exact .inl hn
  | object v =>
    rcases Nat.lt_or_ge v.address t.counts.size with hlt | hge
    · have hlt' : v.address < (t.fit h).counts.size := by
        simp only [fit, Array.size_append]
        omega
      rw [tracked_object hlt', count_fit, ← tracked_object hlt] at hn
      exact .inl hn
    · have hn' : (t.counts ++ Array.replicate (h.objects.size - t.counts.size) 0)[v.address]? =
          some n := hn
      rw [Array.getElem?_append_right hge, Array.getElem?_replicate] at hn'
      split at hn'
      · exact .inr ⟨(Option.some.inj hn').symm, v, rfl, hge⟩
      · cases hn'

theorem has_of_size_le {v : Value} (hv : t.counts.size ≤ v.address) : t.has v = false := by
  simp [has, count, hv]

/-- What a new frame counts for is a zero, too. -/
theorem tracked_of_alloc {parent : Option FrameId} {object : Option Value} {bindsObject : Bool}
    (hn : (t.mapArena fun a => (a.alloc parent object bindsObject).2).tracked x = some n) :
    t.tracked x = some n ∨ n = 0 ∧ x = .frame ⟨t.arena.frames.size⟩ := by
  cases x with
  | object v => exact .inl hn
  | frame id =>
    obtain ⟨f, hf, rfl⟩ := Option.map_eq_some_iff.1 hn
    rcases Arena.get?_of_alloc hf with ⟨rfl, rfl⟩ | ⟨g, hg, rfl⟩
    · exact .inr ⟨rfl, rfl⟩
    · have hold := tracked_frame hg
      exact .inl hold

end Tally

namespace Holding

variable {s : Holding} {due : List FrameId} {gone owed : List Reference} {id : FrameId} {f : Frame}
  {v : Value}

/-! ## Making objects and frames -/

/-- What is counted is counted for what refers to it, and nothing refers to what was never made. -/
theorem Orderly.count_eq (h : s.Orderly [] [] due) {x : Target} {n : Nat}
    (hx : s.toTally.tracked x = some n ∨ n = 0 ∧ ¬s.Made x) :
    n = s.toTally.demand s.heap x + hits x s.kept := by
  rcases hx with hn | ⟨rfl, hunmade⟩
  · exact h.balanced.balance x n hn
  · rw [h.bounded.demand_eq_zero hunmade, h.bounded.kept_eq_zero hunmade]

/-- More objects, to which nothing refers yet. -/
def make (s : Holding) (h : Heap) : Holding := ({ s with heap := h } : Holding).hold []

theorem make_eq (s : Holding) (h : Heap) :
    s.make h = { s with toTally := s.toTally.fit h, heap := h } := by
  rw [Holding.make, Holding.hold, Tally.hold_nil]

theorem Orderly.make {h : Heap} (hs : s.Orderly [] [] due)
    (hsize : s.heap.objects.size ≤ h.objects.size)
    (hget : ∀ v : Value, v.address < s.heap.objects.size → h.get v = s.heap.get v)
    (hbounded : Bounded { s with heap := h }) : (s.make h).Orderly [] [] due := by
  have hcounts : s.counts.size = s.heap.objects.size := hs.balanced.size
  have hdemand : ∀ x, (s.toTally.fit h).demand h x = s.toTally.demand s.heap x := by
    intro x
    have hhas : (s.toTally.fit h).has = s.toTally.has := funext fun v => by
      rw [Tally.has, Tally.has, Tally.count_fit]
    rw [Tally.demand, hhas, Heap.demand_extend hsize hget fun v hv =>
      Tally.has_of_size_le (hcounts.symm ▸ hv)]
    rfl
  rw [make_eq]
  refine ⟨⟨?_, fun x n hn => ?_⟩, hs.intact, ⟨hbounded.objects, hbounded.frames, hbounded.kept⟩,
    hs.names, hs.pending⟩
  · change (s.counts ++ Array.replicate (h.objects.size - s.counts.size) 0).size = h.objects.size
    rw [Array.size_append, Array.size_replicate]
    omega
  · rw [hdemand]
    rcases Tally.tracked_of_fit hn with hold | ⟨hzero, v, rfl, hge⟩
    · exact hs.count_eq (.inl hold)
    · exact hs.count_eq (.inr ⟨hzero, Nat.not_lt.2 (hcounts ▸ hge)⟩)

/-- A new frame with one activation is held by it. -/
theorem Orderly.alloc (h : s.Orderly [] [] due) (parent : Option FrameId) {object : Option Value}
    (hobject : ∀ v, object = some v → s.Made (.object v)) (bindsObject : Bool) :
    Orderly { s with arena := (s.arena.alloc parent object bindsObject).2 } []
      (object.toList.map .value) due := by
  have hmade : ∀ {x}, s.Made x →
      Made { s with arena := (s.arena.alloc parent object bindsObject).2 } x :=
    fun hx => hx.of_size (Nat.le_refl _) (by simp)
  refine ⟨⟨h.balanced.size, fun x n hn => ?_⟩, h.intact.alloc parent object bindsObject,
    ⟨fun v r hr => hmade (h.bounded.objects v r hr), fun id f hf r hr => ?_,
      fun r hr => hmade (h.bounded.kept r hr)⟩, h.names, fun id f hf hheld => ?_⟩
  · have hcount : n = s.toTally.demand s.heap x + hits x s.kept := by
      rcases Tally.tracked_of_alloc hn with hold | ⟨hzero, rfl⟩
      · exact h.count_eq (.inl hold)
      · exact h.count_eq (.inr ⟨hzero, Nat.lt_irrefl _⟩)
    have hdemand := s.arena.demand_alloc parent object bindsObject x
    change n + _ = s.heap.demand s.toTally.has x +
      (s.arena.alloc parent object bindsObject).2.demand x + hits x ([] ++ s.kept)
    rw [hdemand, hcount, List.nil_append, Tally.demand]
    omega
  · rcases Arena.get?_of_alloc hf with ⟨rfl, rfl⟩ | ⟨g, hg, rfl⟩
    · rw [Arena.parts_new] at hr
      obtain ⟨v, hv, rfl⟩ := List.mem_map.1 hr
      exact hmade (hobject v (Option.mem_toList.1 hv))
    · exact hmade (h.bounded.frames id g hg r hr)
  · rcases Arena.get?_of_alloc hf with ⟨rfl, rfl⟩ | ⟨g, hg, rfl⟩
    · cases hheld
    · unfold Frame.held at hheld
      exact h.pending id g hg (by unfold Frame.held; dsimp only at hheld; omega)

theorem Orderly.allocate (h : s.Orderly [] [] []) (parent : Option FrameId) {object : Option Value}
    (hobject : ∀ v, object = some v → s.Made (.object v)) (bindsObject : Bool) :
    (s.allocate parent object bindsObject).2.Orderly [] [] [] := by
  have hshrinks := shrinks_settleDropped h.sound
  have hmade : ∀ {x}, s.Made x → s.settleDropped.Made x := fun hx =>
    hx.of_size (hshrinks.heap ▸ Nat.le_refl _) (Nat.le_of_eq hshrinks.size.symm)
  have halloc := h.settleDropped.1.alloc parent (fun v hv => hmade (hobject v hv)) bindsObject
  refine halloc.hold fun r hr => ?_
  obtain ⟨v, hv, rfl⟩ := List.mem_map.1 hr
  exact (hmade (hobject v (Option.mem_toList.1 hv))).of_size (Nat.le_refl _) (by simp)

/-! ## Keeping things under names -/

/-- The owner takes on some references and gives up others. -/
theorem Orderly.own (h : s.Orderly [] [] due) {frames : Bindings FrameId} {values : Bindings Value}
    (hnames : frames.names.Nodup ∧ values.names.Nodup)
    (hkept : ∀ x, hits x (kept { s with frames := frames, values := values }) + hits x gone =
      hits x s.kept + hits x owed) (howed : ∀ r ∈ owed, s.Made r.target) :
    Orderly { s with frames := frames, values := values } gone owed due := by
  refine ⟨h.balanced.mono fun x => ?_, h.intact, ⟨h.bounded.objects, h.bounded.frames,
    fun r hr => ?_⟩, hnames, h.pending⟩
  · have hmoved := hkept x
    rw [List.nil_append, hits_append, hits_nil]
    omega
  · exact forall_target_of_hits hkept h.bounded.kept howed r hr

theorem Orderly.keepFrame (h : s.Orderly [] [] due) (hid : s.Made (.frame id)) (name : String) :
    (s.keepFrame name id).Orderly [] [] due := by
  have hmade : ∀ r ∈ [Reference.frame id], s.Made r.target := List.forall_mem_singleton.2 hid
  refine Orderly.letGo (Orderly.hold (h.own ⟨Bindings.nodup_names_insert h.names.1 name id,
    h.names.2⟩ (fun x => ?_) hmade) hmade)
  have hperm := hits_perm ((s.frames.values_insert_perm name id).map .frame) x
  simp only [List.map_append, List.map_cons, hits_append, hits_cons] at hperm
  simp only [kept, hits_append, hits_cons, hits_nil]
  omega

theorem Orderly.dropFrame (h : s.Orderly [] [] due) (name : String) :
    (s.dropFrame name).Orderly [] [] due := by
  refine Orderly.letGo (h.own ⟨Bindings.nodup_names_erase h.names.1 name, h.names.2⟩ (fun x => ?_)
    nofun)
  have hperm := hits_perm ((Bindings.values_erase_perm h.names.1 name).map .frame) x
  simp only [List.map_append, hits_append] at hperm
  simp only [kept, hits_append, hits_nil]
  omega

theorem Orderly.keepValue (h : s.Orderly [] [] due) (hv : s.Made (.object v)) (name : String) :
    (s.keepValue name v).Orderly [] [] due := by
  have hmade : ∀ r ∈ [Reference.value v], s.Made r.target := List.forall_mem_singleton.2 hv
  refine Orderly.letGo (Orderly.hold (h.own ⟨h.names.1,
    Bindings.nodup_names_insert h.names.2 name v⟩ (fun x => ?_) hmade) hmade)
  have hperm := hits_perm ((s.values.values_insert_perm name v).map .value) x
  simp only [List.map_append, List.map_cons, hits_append, hits_cons] at hperm
  simp only [kept, hits_append, hits_cons, hits_nil]
  omega

theorem Orderly.dropValue (h : s.Orderly [] [] due) (name : String) :
    (s.dropValue name).Orderly [] [] due := by
  refine Orderly.letGo (h.own ⟨h.names.1, Bindings.nodup_names_erase h.names.2 name⟩ (fun x => ?_)
    nofun)
  have hperm := hits_perm ((Bindings.values_erase_perm h.names.2 name).map .value) x
  simp only [List.map_append, hits_append] at hperm
  simp only [kept, hits_append, hits_nil]
  omega

/-! ## Working with a frame -/

theorem Orderly.activate (h : s.Orderly [] [] due) (hf : s.arena.get? id = some f) :
    (s.activate id).Orderly [] [] due :=
  h.modify hf rfl ⟨rfl, rfl⟩ rfl (fun _ => rfl) nofun (fun hheld => by simp [Frame.held] at hheld)
    fun _ hid => hid

theorem Orderly.define (h : s.Orderly [] [] due) (hf : s.arena.get? id = some f)
    (hv : s.Made (.object v)) (name : String) : (s.define id name v).Orderly [] [] due := by
  have hmade : ∀ r ∈ [Reference.value v], s.Made r.target := List.forall_mem_singleton.2 hv
  have hmodify : (s.mapArena fun a => a.modify id fun f => f.define name v).Orderly
      (((s.arena.get? id).bind fun f => f.vars.get? name).toList.map .value) [.value v] due := by
    refine h.modify hf rfl ⟨rfl, rfl⟩ rfl (fun x => ?_) hmade .inr fun _ hid => hid
    have hperm := hits_perm ((f.vars.values_insert_perm name v).map .value) x
    simp only [List.map_append, List.map_cons, hits_append, hits_cons] at hperm
    simp only [hf, Option.bind_some, Frame.define, Frame.parts, Frame.operands, List.map_append,
      hits_append, hits_cons, hits_nil]
    omega
  refine Orderly.letGo (hmodify.hold fun r hr => ?_)
  exact (hmade r hr).of_size (Nat.le_refl _) (Nat.le_of_eq (s.arena.size_frames_modify id _).symm)

theorem Orderly.push (h : s.Orderly [] [] due) (hf : s.arena.get? id = some f)
    (hv : s.Made (.object v)) : (s.push id v).Orderly [] [] due := by
  have hmade : ∀ r ∈ [Reference.value v], s.Made r.target := List.forall_mem_singleton.2 hv
  have hmodify : (s.mapArena fun a => a.modify id fun f => f.push v).Orderly [] [.value v] due := by
    refine h.modify hf rfl ⟨rfl, rfl⟩ rfl (fun x => ?_) hmade .inr fun _ hid => hid
    simp only [Frame.push, Frame.parts, Frame.operands, List.map_append, List.reverse_cons,
      List.map_cons, List.map_nil, hits_append, hits_cons, hits_nil]
    omega
  refine hmodify.hold fun r hr => ?_
  exact (hmade r hr).of_size (Nat.le_refl _) (Nat.le_of_eq (s.arena.size_frames_modify id _).symm)

theorem Orderly.popMany (h : s.Orderly [] [] due) {count : Nat} {vs : List Value} {s' : Holding}
    (hpop : s.popMany id count = .ok (vs, s')) : s'.Orderly [] [] due := by
  unfold Holding.popMany at hpop
  cases hf : s.arena.get? id with
  | none =>
    rw [hf] at hpop
    cases hpop
  | some f =>
    rw [hf, Option.bind_some] at hpop
    unfold Frame.popMany? at hpop
    by_cases hcount : count ≤ f.stack.length
    · rw [if_pos hcount] at hpop
      cases hpop
      refine Orderly.letGo (h.modify hf rfl ⟨rfl, rfl⟩ rfl (fun x => ?_) nofun .inr fun _ hid => hid)
      have hstack := hits_perm (((List.reverse_perm f.stack).trans
        (.of_eq (List.take_append_drop count f.stack).symm)).map .value) x
      have hrest := hits_perm ((List.reverse_perm (f.stack.drop count)).map .value) x
      simp only [List.map_append, hits_append] at hstack
      simp only [Frame.parts, Frame.operands, List.map_append, hits_append, hits_nil]
      omega
    · rw [if_neg hcount] at hpop
      cases hpop

/-- An object that exists gets a member. -/
theorem Orderly.setMember (h : s.Orderly [] [] due) (hv : s.has v = true) {m : Member}
    (hm : ∀ r ∈ m.references, s.Made r.target) (name : String) :
    Orderly { s with heap := s.heap.setMember v name m }
      ((((s.heap.get v).members.get? name).map Member.references).getD []) m.references due := by
  have hlt : v.address < s.heap.objects.size := h.balanced.size ▸ Tally.lt_of_has hv
  have hparts := (s.heap.get v).hits_parts_insert name m
  have hmade : ∀ {x}, s.Made x → Made { s with heap := s.heap.setMember v name m } x := fun hx =>
    hx.of_size (by simp [Heap.setMember]) (Nat.le_refl _)
  refine ⟨h.balanced.change rfl (by simp [Heap.setMember]) (fun _ _ hn => hn) fun x => ?_, h.intact,
    ⟨fun u r hr => hmade ?_, fun id f hf r hr => hmade (h.bounded.frames id f hf r hr),
      fun r hr => hmade (h.bounded.kept r hr)⟩, h.names, h.pending⟩
  · have hmoved := Heap.demand_modify (p := s.toTally.has) hlt hv
      (fun o => { o with members := o.members.insert name m }) x
    have hobject := hparts x
    change (s.heap.modify v _).demand s.toTally.has x + s.arena.demand x +
        hits x ((((s.heap.get v).members.get? name).map Member.references).getD []) =
      s.heap.demand s.toTally.has x + s.arena.demand x + _
    omega
  · have hr' : r ∈ ((s.heap.modify v fun o =>
        { o with members := o.members.insert name m }).get u).parts := hr
    rcases s.heap.get_modify v u fun o => { o with members := o.members.insert name m } with
      ⟨hu, rfl⟩ | hu
    · rw [hu] at hr'
      exact forall_target_of_hits hparts (h.bounded.objects u) hm r hr'
    · rw [hu] at hr'
      exact h.bounded.objects u r hr'

/-- What a live frame refers to exists. -/
theorem Orderly.has_of_parts (h : s.Orderly [] [] due) (hf : s.arena.get? id = some f)
    (hv : .value v ∈ f.parts) : s.has v = true := by
  have hlt : v.address < s.counts.size :=
    h.balanced.size.symm ▸ h.bounded.frames id f hf (.value v) hv
  have hbalance := h.balanced.balance _ _ (Tally.tracked_object hlt)
  have hle := Arena.hits_le_demand hf (.object v)
  have hpos : 0 < hits (.object v) f.parts := hits_pos hv
  rw [Tally.demand, hits_nil] at hbalance
  exact Tally.has_of_pos (by omega)

theorem Orderly.assign (h : s.Orderly [] [] due) (hf : s.arena.get? id = some f)
    (hv : s.Made (.object v)) (name : String) : (s.assign id name v).Orderly [] [] due := by
  unfold Holding.assign
  rw [hf, Option.bind_some]
  cases hobject : (if f.bindsObject then f.object else none) with
  | none => exact h.define hf hv name
  | some object =>
    have hbound : f.object = some object := by
      split at hobject
      · exact hobject
      · cases hobject
    have hhas : s.has object = true := by
      refine h.has_of_parts hf (List.mem_append_left _ (List.mem_map_of_mem ?_))
      exact List.mem_append_right _ (Option.mem_toList.2 hbound)
    have hmade : ∀ r ∈ [Reference.value v], s.Made r.target := List.forall_mem_singleton.2 hv
    have hset := h.setMember hhas (m := .value v) hmade name
    refine Orderly.letGo (hset.hold fun r hr => ?_)
    exact (hmade r hr).of_size (by simp [Heap.setMember]) (Nat.le_refl _)

end Holding
end ScriptVM
