import ScriptVM.Machine.State
import ScriptVM.Proofs.Table

/-!
# How objects change

Arrays and hashes change what they hold, iterators and generators go on, and no other payload ever
changes. A hash keeps its keys where they are, an iterator its items, and a generator its source and
its body. What members an object gets besides notes of its behaviour, it keeps.
-/
namespace ScriptVM

/-- Whether a payload may change into another one. -/
def Kind.Becomes : Kind → Kind → Prop
  | .array _, .array _ => True
  | .hash table, .hash table' => table.Grows table'
  | .iterator remaining delivered, .iterator remaining' delivered' =>
    delivered'.reverse ++ remaining' = delivered.reverse ++ remaining
  | .generator g, .generator g' =>
    g'.source = g.source ∧ g'.body = g.body ∧ g'.receivers = g.receivers ∧ g'.scope = g.scope
  | k, k' => k' = k

@[refl] theorem Kind.Becomes.refl (k : Kind) : k.Becomes k := by
  cases k with
  | hash table => exact Table.Grows.refl table
  | _ => simp [Becomes]

theorem Kind.Becomes.trans {a b c : Kind} (h : a.Becomes b) (h' : b.Becomes c) : a.Becomes c := by
  cases a with
  | array items => cases b <;> cases c <;> simp_all [Becomes]
  | hash table =>
    cases b with
    | hash table' =>
      cases c with
      | hash table'' => exact Table.Grows.trans h h'
      | _ => cases h'
    | _ => cases h
  | iterator remaining delivered => cases b <;> cases c <;> simp_all [Becomes]
  | generator g => cases b <;> cases c <;> simp_all [Becomes]
  | _ =>
    cases h
    exact h'

/-- Whatever a generator does, it keeps its source, its body and its scope. -/
theorem Kind.Becomes.ofGenerator {g g' : Generator} (h : g'.source = g.source ∧ g'.body = g.body ∧
    g'.receivers = g.receivers ∧ g'.scope = g.scope) : (Kind.generator g).Becomes (.generator g') :=
  h

/-- What a generator turns into is a generator with the same body. -/
theorem Kind.Becomes.generator {g : Generator} {k : Kind} (h : (Kind.generator g).Becomes k) :
    ∃ g', k = .generator g' ∧ g'.body = g.body := by
  cases k with
  | generator g' => exact ⟨g', rfl, h.2.1⟩
  | _ => cases h

/-- Whether the payload of the objects of a type may change. -/
def TypeTag.changes : TypeTag → Bool
  | .array | .hash | .iterator | .generator => true
  | _ => false

namespace Object

/-- An object whose members are only notes of behaviour that its type has. -/
def Untouched (o : Object) : Prop :=
  ∀ name m, o.members.get? name = some m →
    ∃ s : Symbol, m = .builtin s ∧ s.name = name ∧ o.kind.tag.supports s = true

/-- Whether an object may change into another one. -/
structure Precedes (o o' : Object) : Prop where
  tag : o'.kind.tag = o.kind.tag
  kind : o.kind.tag.changes = false → o'.kind = o.kind
  untouched : o'.Untouched → o.Untouched

/-- Whether an object may change into another one that remembers the same hash and has the same
entries. -/
structure Mild (o o' : Object) : Prop extends Precedes o o' where
  hash : o'.hash = o.hash
  entries : ∀ t, o'.kind = .hash t → o.kind = .hash t

variable {o o' o'' : Object}

@[refl] theorem Precedes.refl (o : Object) : o.Precedes o := ⟨rfl, fun _ => rfl, id⟩

theorem Precedes.trans (h : o.Precedes o') (h' : o'.Precedes o'') : o.Precedes o'' where
  tag := h'.tag.trans h.tag
  kind hchanges := (h'.kind (h.tag ▸ hchanges)).trans (h.kind hchanges)
  untouched := h.untouched ∘ h'.untouched

/-- A member that is no note of behaviour stays one. -/
theorem mild_setMember (o : Object) {name : String} {m : Member}
    (hm : ∀ s, m = .builtin s → o.members.get? name = none) :
    o.Mild { o with members := o.members.insert name m } where
  tag := rfl
  kind _ := rfl
  untouched h other n hn := by
    refine h other n ?_
    rw [Bindings.get?_insert]
    split
    · rename_i hname
      subst hname
      obtain ⟨s, rfl, -⟩ := h other m (by rw [Bindings.get?_insert, if_pos rfl])
      rw [hm s rfl] at hn
      cases hn
    · exact hn
  hash := rfl
  entries _ h := h

/-- A payload that may change does so within its type. -/
theorem Precedes.setKind {k : Kind} {tag : TypeTag} (ho : o.kind.tag = tag) (hk : k.tag = tag)
    (hchanges : tag.changes = true) : o.Precedes { o with kind := k } where
  tag := hk.trans ho.symm
  kind h := absurd ((ho ▸ hchanges).symm.trans h) (by decide)
  untouched h name m hm := by
    obtain ⟨s, hs, hname, hsupports⟩ := h name m hm
    exact ⟨s, hs, hname, (hk.trans ho.symm) ▸ hsupports⟩

theorem mild_setKind {k : Kind} {tag : TypeTag} (ho : o.kind.tag = tag) (hk : k.tag = tag)
    (hchanges : tag.changes = true) (hhash : tag ≠ .hash) : o.Mild { o with kind := k } where
  toPrecedes := .setKind ho hk hchanges
  hash := rfl
  entries _ ht := absurd (hk.symm.trans (congrArg Kind.tag ht)) hhash

end Object

namespace Heap

/-- Objects may have been added, and no object has become something else. -/
structure Extends (h h' : Heap) : Prop where
  size : h.objects.size ≤ h'.objects.size
  becomes : ∀ v : Value, v.address < h.objects.size → (h.kind v).Becomes (h'.kind v)

variable {h h' h'' : Heap} {v : Value}

theorem Extends.refl (h : Heap) : h.Extends h := ⟨Nat.le_refl _, fun _ _ => .refl _⟩

theorem Extends.trans (hh : h.Extends h') (hh' : h'.Extends h'') : h.Extends h'' :=
  ⟨Nat.le_trans hh.size hh'.size, fun v hv =>
    (hh.becomes v hv).trans (hh'.becomes v (Nat.lt_of_lt_of_le hv hh.size))⟩

/-- What a value has of its own is among its members. -/
theorem get?_of_own? {name : String} {member : Member} (hown : h.own? v name = some member) :
    (h.get v).members.get? name = some member := by
  unfold own? at hown
  split at hown
  · cases hown
  · cases hown
  · rename_i hget
    rw [hget]
    exact hown

/-- A change of one object shows only there. -/
theorem get_modify (h : Heap) (v u : Value) (f : Object → Object) :
    (h.modify v f).get u = f (h.get u) ∧ u = v ∨ (h.modify v f).get u = h.get u := by
  by_cases hu : u = v
  · subst hu
    by_cases hlt : u.address < h.objects.size
    · exact .inl ⟨h.get_modify_self f hlt, rfl⟩
    · right
      simp [Heap.modify, Heap.get, Array.getD, hlt]
  · exact .inr (h.get_modify_of_ne f hu)

theorem kind_alloc (h : Heap) (k : Kind) : (h.alloc k).2.kind (h.alloc k).1 = k := by
  rw [kind, get_alloc]

theorem extends_alloc (h : Heap) (k : Kind) : h.Extends (h.alloc k).2 where
  size := by simp
  becomes v hv := by
    rw [kind, kind, get_alloc_of_lt k hv]

theorem extends_modify {f : Object → Object} (hf : (h.kind v).Becomes (f (h.get v)).kind) :
    h.Extends (h.modify v f) where
  size := by simp
  becomes u _ := by
    unfold kind
    rcases h.get_modify v u f with ⟨hu, rfl⟩ | hu
    · rw [hu]
      exact hf
    · rw [hu]

theorem extends_setMember (h : Heap) (v : Value) (name : String) (m : Member) :
    h.Extends (h.setMember v name m) :=
  extends_modify (.refl _)

/-- Objects may have been added, and no object has lost what it keeps. -/
structure Precedes (h h' : Heap) : Prop where
  size : h.objects.size ≤ h'.objects.size
  object : ∀ v : Value, v.address < h.objects.size → (h.get v).Precedes (h'.get v)

@[refl] theorem Precedes.refl (h : Heap) : h.Precedes h := ⟨Nat.le_refl _, fun _ _ => .refl _⟩

theorem Precedes.trans (hh : h.Precedes h') (hh' : h'.Precedes h'') : h.Precedes h'' :=
  ⟨Nat.le_trans hh.size hh'.size, fun v hv =>
    (hh.object v hv).trans (hh'.object v (Nat.lt_of_lt_of_le hv hh.size))⟩

theorem precedes_alloc (h : Heap) (k : Kind) : h.Precedes (h.alloc k).2 where
  size := by simp
  object v hv := by rw [get_alloc_of_lt k hv]

theorem precedes_modify {f : Object → Object} (hf : (h.get v).Precedes (f (h.get v))) :
    h.Precedes (h.modify v f) where
  size := by simp
  object u _ := by
    rcases h.get_modify v u f with ⟨hu, rfl⟩ | hu
    · rw [hu]
      exact hf
    · rw [hu]

theorem get_of_le (hle : h.objects.size ≤ v.address) : h.get v = default := by
  simp [get, Array.getD, Nat.not_lt.2 hle]

/-- There is an object behind a value that is not `None`. -/
theorem lt_size_of_kind {k : Kind} (hk : h.kind v = k) (hnone : k ≠ .none) :
    v.address < h.objects.size := by
  refine Nat.lt_of_not_le fun hge => hnone ?_
  rw [← hk, Heap.kind, get_of_le hge]
  rfl

/-- A payload that does not change stays. -/
theorem Precedes.kind (hh : h.Precedes h') (hv : v.address < h.objects.size)
    (hchanges : (h.tag v).changes = false) : h'.kind v = h.kind v :=
  (hh.object v hv).kind hchanges

theorem kind_of_text? {s : String} (hs : h.text? v = some s) : h.kind v = .string s := by
  unfold text? at hs
  split at hs
  · rename_i text hk
    cases hs
    exact hk
  · cases hs

/-! ## Tables -/

section tables

variable {t t' : Table}

theorem kind_of_table? (ht : h.table? v = some t) : h.kind v = .hash t := by
  unfold table? at ht
  split at ht
  · rename_i table hk
    cases ht
    exact hk
  · cases ht

theorem table?_of_kind (hk : h.kind v = .hash t) : h.table? v = some t := by
  rw [table?, hk]

theorem lt_size_of_table? (ht : h.table? v = some t) : v.address < h.objects.size :=
  lt_size_of_kind (kind_of_table? ht) nofun

/-- Changing a table changes that table. -/
theorem table?_setKind (ht : h.table? v = some t) :
    (h.setKind v (.hash t')).table? v = some t' := by
  refine table?_of_kind ?_
  rw [kind, setKind, get_modify_self _ (lt_size_of_table? ht)]

theorem table?_alloc (ht : h.table? v = some t) (k : Kind) : (h.alloc k).2.table? v = some t := by
  refine table?_of_kind ?_
  rw [kind, get_alloc_of_lt k (lt_size_of_table? ht)]
  exact kind_of_table? ht

/-- What a new object takes over from those that there are: a Hash has no entries or those of another
Hash, and the bases of a class are types. -/
structure Lends (h : Heap) (k : Kind) : Prop where
  entries : ∀ t, k = .hash t → t = .empty ∨ ∃ v, h.table? v = some t
  bases : ∀ c, k = .type (.ofClass c) → ∀ base ∈ c.bases, ∃ d, h.kind base = .type d

end tables

end Heap

/-- Whether a payload takes nothing over that is more than a value. -/
def Kind.isPlain : Kind → Bool
  | .hash _ | .type (.ofClass _) => false
  | _ => true

theorem Heap.lends_of_isPlain (h : Heap) {k : Kind} (hk : k.isPlain = true) : h.Lends k := by
  refine ⟨fun t ht => ?_, fun c hc => ?_⟩
  · rw [ht] at hk
    cases hk
  · rw [hc] at hk
    cases hk

/-- A new Hash may be empty. -/
theorem Heap.lends_empty (h : Heap) : h.Lends (.hash .empty) := by
  refine ⟨fun t ht => ?_, fun c hc => ?_⟩
  · cases ht
    exact .inl rfl
  · cases hc
end ScriptVM
