import ScriptVM.Proofs.Likeness

/-!
# Objects of machines that are alike

What the machine does with objects, and the questions it asks of any value, agree on machines that
are alike.
-/
namespace ScriptVM

theorem Bindings.get?_empty {α : Type} (name : String) :
    (Bindings.empty : Bindings α).get? name = none := rfl

/-- Behind a value that refers to nothing stands an object without members. -/
theorem Object.default_members (name : String) : (default : Object).members.get? name = none := rfl

namespace Likeness

variable {L : Likeness} {w : L.World}

/-! ## Sound objects -/

theorem SoundObject.setKind {o : Object} (h : L.SoundObject w o) {k : Kind}
    (hk : L.SoundKind w k) : L.SoundObject w { o with kind := k } :=
  ⟨hk, h.member⟩

theorem SoundObject.setMember {o : Object} (h : L.SoundObject w o) (name : String) {m : Member}
    (hm : L.SoundMember w m) : L.SoundObject w { o with members := o.members.insert name m } := by
  refine ⟨h.kind, fun other m' hget => ?_⟩
  simp only [Bindings.get?_insert] at hget
  split at hget
  · exact Option.some.inj hget ▸ hm
  · exact h.member other m' hget

theorem Alike.soundKind {m n : Machine} (h : L.Alike w m n) {v : Value} (hv : L.good v) :
    L.SoundKind w (m.heap.kind v) :=
  (h.sound v hv).kind

theorem Alike.alloc {m n : Machine} (h : L.Alike w m n) {k : Kind} (hk : L.SoundKind w k) :
    L.Alike w { m with heap := (m.heap.alloc k).2 } { n with heap := (m.heap.alloc k).2 } := by
  refine h.setHeap (m.heap.extends_alloc k) fun v hv => ?_
  by_cases hlt : v.address < m.heap.objects.size
  · rw [Heap.get_alloc_of_lt k hlt]
    exact h.sound v hv
  · by_cases hnew : v = (m.heap.alloc k).1
    · rw [hnew, Heap.get_alloc]
      exact ⟨hk, fun name m hm => by simp [Bindings.get?_empty] at hm⟩
    · have hgt : m.heap.objects.size + 1 ≤ v.address := by
        have hne : v.address ≠ m.heap.objects.size := fun e => hnew (by cases v; simp_all [Heap.alloc])
        omega
      have hdefault : (m.heap.alloc k).2.get v = default := by
        simp [Heap.alloc, Heap.get, Array.getD, Nat.not_lt.2 hgt]
      rw [hdefault]
      exact ⟨trivial, fun name m hm => by simp [Object.default_members] at hm⟩

theorem Alike.good_alloc {m n : Machine} (h : L.Alike w m n) (k : Kind) :
    L.good (m.heap.alloc k).1 :=
  h.fresh _ (Nat.le_refl _)

theorem Alike.modify {m n : Machine} (h : L.Alike w m n) (v : Value) {f : Object → Object}
    (hbecomes : (m.heap.kind v).Becomes (f (m.heap.get v)).kind)
    (hf : ∀ o, L.SoundObject w o → L.SoundObject w (f o)) :
    L.Alike w { m with heap := m.heap.modify v f } { n with heap := m.heap.modify v f } := by
  refine h.setHeap (Heap.extends_modify hbecomes) fun u hu => ?_
  rcases m.heap.get_modify v u f with ⟨he, -⟩ | he
  · rw [he]
    exact hf _ (h.sound u hu)
  · rw [he]
    exact h.sound u hu

/-! ## Computations on objects -/

theorem agree_newObject {k : Kind} (hk : L.SoundKind w k) :
    L.Agree w (Run.newObject k) (Run.newObject k) fun _ v => L.good v := by
  intro m n hmn
  have halike := hmn.alloc hk
  have hgood := hmn.good_alloc k
  simp only [Run.newObject, Run.modifyGet_apply, hmn.heap]
  exact ⟨rfl, w, L.refl w, hgood, halike⟩

theorem agree_newNone : L.Agree w Run.newNone Run.newNone fun _ v => L.good v :=
  agree_newObject trivial

theorem agree_newBool (b : Bool) : L.Agree w (Run.newBool b) (Run.newBool b) fun _ v => L.good v :=
  agree_newObject trivial

theorem agree_newInteger (n : Int64) :
    L.Agree w (Run.newInteger n) (Run.newInteger n) fun _ v => L.good v :=
  agree_newObject trivial

theorem agree_newFloat (x : Float) :
    L.Agree w (Run.newFloat x) (Run.newFloat x) fun _ v => L.good v :=
  agree_newObject trivial

theorem agree_newString (s : String) :
    L.Agree w (Run.newString s) (Run.newString s) fun _ v => L.good v :=
  agree_newObject trivial

theorem agree_newIterator {items : List Value} (h : ∀ v ∈ items, L.good v) :
    L.Agree w (Run.newIterator items) (Run.newIterator items) fun _ v => L.good v :=
  agree_newObject ⟨h, by simp⟩

theorem agree_modifyHeap {f : Heap → Heap}
    (hf : ∀ m n, L.Alike w m n →
      L.Alike w { m with heap := f m.heap } { n with heap := f m.heap }) :
    L.Agree w (Run.modifyHeap f) (Run.modifyHeap f) fun _ _ => True := by
  intro m n hmn
  have halike := hf m n hmn
  have hheap : f n.heap = f m.heap := by rw [hmn.heap]
  refine ⟨rfl, w, L.refl w, trivial, ?_⟩
  change L.Alike w { m with heap := f m.heap } { n with heap := f n.heap }
  rw [hheap]
  exact halike

/-- A payload changes into another one that it may become. -/
theorem agreeOn_setKind (v : Value) {k k' : Kind} (hk : L.SoundKind w k') (h : k.Becomes k') :
    L.AgreeOn (fun m => m.heap.kind v = k) w (Run.modifyHeap fun h => h.setKind v k')
      (Run.modifyHeap fun h => h.setKind v k') fun _ _ => True := by
  intro m n hmn hkind
  subst hkind
  have halike := hmn.modify v (f := fun o => { o with kind := k' }) h fun _ ho => ho.setKind hk
  refine ⟨rfl, w, L.refl w, trivial, ?_⟩
  change L.Alike w { m with heap := m.heap.setKind v k' } { n with heap := n.heap.setKind v k' }
  rw [hmn.heap]
  exact halike

theorem agree_setMember (v : Value) (name : String) {k : Member} (hm : L.SoundMember w k) :
    L.Agree w (Run.modifyHeap fun h => h.setMember v name k)
      (Run.modifyHeap fun h => h.setMember v name k) fun _ _ => True :=
  agree_modifyHeap fun _ _ hmn => hmn.modify v (.refl _) fun _ ho => ho.setMember name hm

theorem agree_setHash (v : Value) (hash : Int64) :
    L.Agree w (Run.modifyHeap fun h => h.setHash v hash)
      (Run.modifyHeap fun h => h.setHash v hash) fun _ _ => True :=
  agree_modifyHeap fun _ _ hmn => hmn.modify v (.refl _) fun _ ho => ⟨ho.kind, ho.member⟩

theorem agree_kindOf {v : Value} (hv : L.good v) :
    L.Agree w (Run.kindOf v) (Run.kindOf v) fun w' k => L.SoundKind w' k :=
  .read fun _ _ hmn => ⟨by rw [hmn.heap], hmn.soundKind hv⟩

/-- What is done with the payload of a value, as long as nothing else happens. -/
theorem Agree.kindOf_bind {α : Type} {v : Value} {f g : Kind → Run α} {post : L.World → α → Prop}
    (hv : L.good v) (hf : ∀ k, L.SoundKind w k →
      L.AgreeOn (fun m => m.heap.kind v = k) w (f k) (g k) post) :
    L.Agree w (Run.kindOf v >>= f) (Run.kindOf v >>= g) post := by
  intro m n hmn
  have hkind : n.heap.kind v = m.heap.kind v := by rw [hmn.heap]
  change L.Matches w post (f (m.heap.kind v) m) (g (n.heap.kind v) n)
  rw [hkind]
  exact hf _ (hmn.soundKind hv) m n hmn rfl

theorem agree_failType {α : Type} (v : Value) (expected : List String)
    {post : L.World → α → Prop} :
    L.Agree w (Run.failType v expected) (Run.failType v expected) post :=
  (Agree.readHeap (f := fun h => h.typeName v)).bind fun _ _ _ _ =>
    .fail (L.admits_ordinary rfl)

theorem agree_typeName (v : Value) :
    L.Agree w (Run.typeName v) (Run.typeName v) fun _ _ => True :=
  Agree.readHeap (f := fun h => h.typeName v)

/-- A member comes back as a good value. -/
theorem Alike.bindMember {m n : Machine} (h : L.Alike w m n) {owner : Value}
    (howner : L.good owner) {k : Member} (hm : L.SoundMember w k) :
    L.good (m.heap.bind owner k).1 ∧
      L.Alike w { m with heap := (m.heap.bind owner k).2 }
        { n with heap := (m.heap.bind owner k).2 } := by
  cases k with
  | value v =>
    exact ⟨hm, h.setHeap (.refl _) h.sound⟩
  | method f => exact ⟨h.good_alloc _, h.alloc ⟨hm, by simpa using howner⟩⟩
  | builtin s => exact ⟨h.good_alloc _, h.alloc (by simpa [SoundKind] using howner)⟩

/-- What a name means in a frame that holds good values is a good value. -/
theorem Alike.resolve? {m n : Machine} (h : L.Alike w m n) {f : Frame} {name : String} {v : Value}
    {heap : Heap} (hvars : ∀ u, f.vars.get? name = some u → L.good u)
    (hobject : ∀ u ∈ f.object, L.good u) (hfound : f.resolve? m.heap name = some (v, heap)) :
    L.good v ∧ L.Alike w { m with heap := heap } { n with heap := heap } := by
  unfold Frame.resolve? at hfound
  split at hfound
  · rename_i hu
    cases hfound
    exact ⟨hvars v hu, h.setHeap (.refl _) h.sound⟩
  · split at hfound
    · rename_i object hobj
      obtain ⟨member, hmember, hbind⟩ := Option.map_eq_some_iff.1 hfound
      have howner : L.good object := hobject object hobj
      have hbound := h.bindMember howner
        ((h.sound object howner).member name member (Heap.get?_of_own? hmember))
      rw [hbind] at hbound
      exact hbound
    · cases hfound

theorem agree_lookup {v : Value} (hv : L.good v) (name : String) :
    L.Agree w (Run.lookup v name) (Run.lookup v name) fun _ r => ∀ u ∈ r, L.good u := by
  intro m n hmn
  simp only [Run.lookup, Run.modifyGet_apply, hmn.heap, Heap.lookup, Heap.find]
  cases hfound : (m.heap.get v).members.get? name with
  | some member =>
    obtain ⟨hgood, halike⟩ := hmn.bindMember hv ((hmn.sound v hv).member name member hfound)
    exact ⟨rfl, w, L.refl w, by simpa using hgood, halike⟩
  | none =>
    cases (m.heap.tag v).symbol? name with
    | none =>
      exact ⟨rfl, w, L.refl w, by simp, hmn.setHeap (.refl _) hmn.sound⟩
    | some s =>
      have hnoted := hmn.modify v (.refl _) fun _ ho => ho.setMember name (m := .builtin s) trivial
      obtain ⟨hgood, halike⟩ := hnoted.bindMember hv (k := .builtin s) trivial
      exact ⟨rfl, w, L.refl w, by rintro u ⟨⟩; exact hgood, halike⟩

theorem agree_display (v : Value) :
    L.Agree w (Run.display v) (Run.display v) fun _ _ => True := by
  refine (Agree.readHeap (f := fun h => h.display? v)).bind fun _ r _ _ => ?_
  cases r with
  | some text => exact .pure trivial
  | none => exact .giveUp

theorem agree_repr (v : Value) : L.Agree w (Run.repr v) (Run.repr v) fun _ _ => True := by
  refine (Agree.readHeap (f := fun h => h.repr? v)).bind fun _ r _ _ => ?_
  cases r with
  | some text => exact .pure trivial
  | none => exact .giveUp

theorem agree_builtinType (tag : TypeTag) :
    L.Agree w (Run.builtinType tag) (Run.builtinType tag) fun _ v => L.good v := by
  refine (Agree.read (p := fun _ (r : Option Value) => ∀ v ∈ r, L.good v)
    fun m n hmn => ⟨by rw [hmn.types], fun v hv => hmn.goodTypes tag.name v hv⟩).bind ?_
  intro w' r _ hr
  cases r with
  | some v => exact .pure (hr v rfl)
  | none => exact agree_newObject trivial

end Likeness
end ScriptVM
