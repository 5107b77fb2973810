import ScriptVM.Failure
import ScriptVM.Frame.Scope
import ScriptVM.Machine.Step

/-!
# Other names for values

What becomes of data when every value in it is called something else. Code, frames and texts stay as
they are: only references to objects are renamed.
-/
namespace ScriptVM

/-- Replaces what names are bound to. -/
def Bindings.map {α β : Type} (f : α → β) (b : Bindings α) : Bindings β :=
  ⟨b.entries.map fun entry => (entry.1, f entry.2)⟩

namespace Bindings

variable {α β : Type} (f : α → β)

@[simp] theorem map_empty : (empty : Bindings α).map f = empty := rfl

@[simp] theorem get?_map (b : Bindings α) (name : String) :
    (b.map f).get? name = (b.get? name).map f := by
  obtain ⟨entries⟩ := b
  unfold get? map
  dsimp only
  induction entries with
  | nil => rfl
  | cons entry rest ih =>
    obtain ⟨key, a⟩ := entry
    simp only [List.map_cons, List.lookup_cons]
    cases name == key with
    | true => rfl
    | false => exact ih

@[simp] theorem contains_map (b : Bindings α) (name : String) :
    (b.map f).contains name = b.contains name := by
  simp [contains]

theorem map_insert (b : Bindings α) (name : String) (a : α) :
    (b.insert name a).map f = (b.map f).insert name (f a) := by
  obtain ⟨entries⟩ := b
  unfold insert map
  dsimp only
  congr 1
  induction entries with
  | nil => rfl
  | cons entry rest ih =>
    simp only [insertInto, List.map_cons]
    split
    · rfl
    · rw [List.map_cons, ih]

theorem map_id (b : Bindings α) : b.map id = b := by
  simp [map]

end Bindings

section rename

variable (σ : Value → Value)

/-- Renames the entries of a bucket. -/
def Bucket.rename (b : Bucket) : Bucket :=
  ⟨b.hash, b.entries.map fun entry => (σ entry.1, σ entry.2)⟩

/-- Renames the entries of a table. -/
def Table.rename (t : Table) : Table := ⟨t.buckets.map (Bucket.rename σ), t.size⟩

/-- Renames the receiver of a function. -/
def Function.rename (f : Function) : Function := ⟨f.callable, f.receiver.map σ⟩

/-- Renames the bases of a class. -/
def ClassDef.rename (c : ClassDef) : ClassDef := { c with bases := c.bases.map σ }

/-- Renames the bases of a type. -/
def TypeDef.rename : TypeDef → TypeDef
  | .builtin tag => .builtin tag
  | .ofClass c => .ofClass (c.rename σ)

/-- Renames the source of a generator and what it has in store. -/
def Generator.rename (g : Generator) : Generator :=
  { g with source := σ g.source, buffered := g.buffered.map σ }

/-- Renames what a payload refers to. -/
def Kind.rename : Kind → Kind
  | .none => .none
  | .bool b => .bool b
  | .integer n => .integer n
  | .float x => .float x
  | .string s => .string s
  | .bytes content => .bytes content
  | .tuple items => .tuple (items.map σ)
  | .array items => .array (items.map σ)
  | .hash table => .hash (table.rename σ)
  | .function f => .function (f.rename σ)
  | .generator g => .generator (g.rename σ)
  | .iterator remaining delivered => .iterator (remaining.map σ) (delivered.map σ)
  | .type definition => .type (definition.rename σ)
  | .object cls => .object (σ cls)
  | .module name => .module name
  | .error kind message => .error kind message

/-- Renames what a member refers to. -/
def Member.rename : Member → Member
  | .value v => .value (σ v)
  | .method f => .method f
  | .builtin s => .builtin s

/-- Renames what an object refers to. -/
def Object.rename (o : Object) : Object :=
  ⟨o.kind.rename σ, o.members.map (Member.rename σ), o.hash⟩

/-- Renames what a frame refers to. -/
def Frame.rename (f : Frame) : Frame :=
  { f with
    vars := f.vars.map σ
    object := f.object.map σ
    stack := f.stack.map σ
    last := f.last.map σ }

/-- Renames the value that was raised. -/
def Cause.rename : Cause → Cause
  | .raised v => .raised (σ v)
  | c => c

/-- Renames the value that was raised. -/
def Failure.rename (f : Failure) : Failure := { f with cause := f.cause.rename σ }

/-- Renames the value that a body is left with. -/
def Flow.rename : Flow → Flow
  | .next c => .next c
  | .leave v c => .leave (σ v) c

/-! ## Tables -/

@[simp] theorem Table.rename_empty : Table.empty.rename σ = .empty := rfl

@[simp] theorem Table.size_rename (t : Table) : (t.rename σ).size = t.size := rfl

theorem Table.entries_rename (t : Table) :
    (t.rename σ).entries = t.entries.map fun entry => (σ entry.1, σ entry.2) := by
  obtain ⟨buckets, size⟩ := t
  unfold entries rename
  dsimp only
  induction buckets with
  | nil => rfl
  | cons b rest ih =>
    simp only [List.map_cons, List.flatMap_cons, List.map_append, ih]
    rfl

theorem Table.keys_rename (t : Table) : (t.rename σ).keys = t.keys.map σ := by
  simp only [keys, entries_rename, List.map_map, Function.comp_def]

theorem Table.bucket_rename (t : Table) (hash : Int64) :
    (t.rename σ).bucket hash = (t.bucket hash).map fun entry => (σ entry.1, σ entry.2) := by
  obtain ⟨buckets, size⟩ := t
  unfold bucket rename
  dsimp only
  induction buckets with
  | nil => rfl
  | cons b rest ih =>
    simp only [List.map_cons, List.find?_cons, Bucket.rename]
    by_cases hb : b.hash = hash
    · simp [hb]
    · simpa [hb, Bucket.rename] using ih

theorem Table.rename_addTo (hash : Int64) (entry : Value × Value) (buckets : List Bucket) :
    (addTo hash entry buckets).map (Bucket.rename σ) =
      addTo hash (σ entry.1, σ entry.2) (buckets.map (Bucket.rename σ)) := by
  induction buckets with
  | nil => rfl
  | cons b rest ih =>
    simp only [addTo, List.map_cons]
    by_cases hb : b.hash = hash
    · simp [hb, Bucket.rename]
    · simp [hb, Bucket.rename, ← ih]

theorem Table.rename_replaceIn (hash : Int64) (position : Nat) (v : Value)
    (buckets : List Bucket) :
    (replaceIn hash position v buckets).map (Bucket.rename σ) =
      replaceIn hash position (σ v) (buckets.map (Bucket.rename σ)) := by
  induction buckets with
  | nil => rfl
  | cons b rest ih =>
    simp only [replaceIn, List.map_cons]
    by_cases hb : b.hash = hash
    · have hentries : (b.entries.modify position fun entry => (entry.1, v)).map
          (fun entry => (σ entry.1, σ entry.2)) =
          (b.entries.map fun entry => (σ entry.1, σ entry.2)).modify position
            fun entry => (entry.1, σ v) := by
        apply List.ext_getElem?
        intro i
        simp only [List.getElem?_map, List.getElem?_modify]
        cases b.entries[i]? with
        | none => rfl
        | some entry => by_cases hi : position = i <;> simp [hi]
      simp [hb, Bucket.rename, hentries]
    · simp [hb, Bucket.rename, ← ih]

theorem Table.rename_put (t : Table) (hash : Int64) (position : Option Nat) (key v : Value) :
    (t.put hash position key v).rename σ = (t.rename σ).put hash position (σ key) (σ v) := by
  cases position with
  | none => simp [put, rename, rename_addTo]
  | some i =>
    have hlength : ((t.rename σ).bucket hash).length = (t.bucket hash).length := by
      simp [bucket_rename]
    simp only [put, hlength]
    split
    · simp [rename, rename_replaceIn]
    · simp [rename, rename_addTo]

/-! ## Objects -/

@[simp] theorem Kind.tag_rename (k : Kind) : (k.rename σ).tag = k.tag := by
  cases k <;> rfl

@[simp] theorem TypeDef.name_rename (d : TypeDef) : (d.rename σ).name = d.name := by
  cases d <;> rfl

@[simp] theorem Object.rename_default : (default : Object).rename σ = default := rfl

@[simp] theorem Object.hash_rename (o : Object) : (o.rename σ).hash = o.hash := rfl

theorem Object.rename_setMember (o : Object) (name : String) (member : Member) :
    ({ o with members := o.members.insert name member } : Object).rename σ =
      { o.rename σ with members := (o.rename σ).members.insert name (member.rename σ) } := by
  simp [rename, Bindings.map_insert]

/-! ## Heaps -/

/-- One heap holds the renamed objects of another one under their other names. -/
def Heap.Renamed (h h' : Heap) : Prop := ∀ v, h'.get (σ v) = (h.get v).rename σ

section heaps

variable {σ} {h h' : Heap}

theorem Heap.Renamed.kind (hh : h.Renamed σ h') (v : Value) :
    h'.kind (σ v) = (h.kind v).rename σ := by
  rw [Heap.kind, hh v]
  rfl

/-- The names of types only depend on payloads. -/
theorem Heap.typeName_rename (hh : ∀ v, h'.kind (σ v) = (h.kind v).rename σ) (v : Value) :
    h'.typeName (σ v) = h.typeName v := by
  unfold Heap.typeName
  rw [hh]
  cases h.kind v with
  | object cls =>
    simp only [Kind.rename]
    rw [hh]
    cases h.kind cls with
    | type d => simp [Kind.rename]
    | _ => rfl
  | _ => rfl

theorem Heap.Renamed.member? (hh : h.Renamed σ h') (v : Value) (name : String) :
    (h'.get (σ v)).members.get? name =
      ((h.get v).members.get? name).map (Member.rename σ) := by
  rw [hh v]
  exact Bindings.get?_map _ _ name

theorem Heap.Renamed.has (hh : h.Renamed σ h') (v : Value) (name : String) :
    h'.has (σ v) name = h.has v name := by
  simp only [Heap.has, Heap.tag, hh.kind, Kind.tag_rename, Bindings.contains, hh.member?,
    Option.isSome_map]

theorem Heap.Renamed.own? (hh : h.Renamed σ h') (v : Value) (name : String) :
    h'.own? (σ v) name = (h.own? v name).map (Member.rename σ) := by
  simp only [Heap.own?, hh.member?]
  cases (h.get v).members.get? name with
  | none => rfl
  | some member => cases member <;> rfl

end heaps

/-! ## Failures -/

@[simp] theorem Failure.rename_placedAt (f : Failure) (span : Span) :
    (f.placedAt span).rename σ = (f.rename σ).placedAt span := rfl

end rename

/-! ## Renaming nothing -/

theorem Bucket.rename_id (b : Bucket) : b.rename id = b := by
  simp [rename]

theorem Table.rename_id (t : Table) : t.rename id = t := by
  have h : Bucket.rename id = id := funext Bucket.rename_id
  simp [rename, h]

theorem Kind.rename_id (k : Kind) : k.rename id = k := by
  cases k with
  | hash t => simp [rename, Table.rename_id]
  | function f => simp [rename, Function.rename]
  | generator g => simp [rename, Generator.rename]
  | type d => cases d <;> simp [rename, TypeDef.rename, ClassDef.rename]
  | _ => simp [rename]

theorem Member.rename_id (m : Member) : m.rename id = m := by
  cases m <;> rfl

theorem Object.rename_id (o : Object) : o.rename id = o := by
  have h : Member.rename id = id := funext Member.rename_id
  simp [rename, Kind.rename_id, h, Bindings.map_id]

theorem Cause.rename_id (c : Cause) : c.rename id = c := by
  cases c <;> rfl

theorem Failure.rename_id (f : Failure) : f.rename id = f := by
  simp [rename, Cause.rename_id]

theorem Flow.rename_id (f : Flow) : f.rename id = f := by
  cases f <;> rfl

end ScriptVM
