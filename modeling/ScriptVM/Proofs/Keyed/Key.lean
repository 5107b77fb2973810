import ScriptVM.Builtin.Container
import ScriptVM.Proofs.Heap

/-!
# Keys by their content

What a built-in value is as a key of a Hash, apart from the object that it is: its type and its
content, and those of its elements if it is a tuple. Keys have a hash as soon as texts and byte
strings have digests, whatever these are, unless they contain something that changes. Two objects
that show the same key are equal and have the same hash; that two different keys have the same hash
is nothing special.
-/
namespace ScriptVM

/-- A key of a Hash by its content. -/
inductive Key where
  | none
  | bool (b : Bool)
  | integer (n : Int64)
  | string (s : String)
  | bytes (content : List UInt8)
  | tuple (items : List Key)
  /-- An Array or a Hash, which changes and has no hash. -/
  | unhashable
  deriving Inhabited

namespace Key

/-! ## Equality -/

mutual

/-- Whether two keys are the same. -/
def equal : Key → Key → Bool
  | .none, .none => true
  | .bool a, .bool b => a = b
  | .integer a, .integer b => a = b
  | .string a, .string b => a = b
  | .bytes a, .bytes b => a = b
  | .tuple as, .tuple bs => equalItems as bs
  | .unhashable, .unhashable => true
  | _, _ => false

/-- Whether two lists of keys are the same. -/
def equalItems : List Key → List Key → Bool
  | [], [] => true
  | a :: as, b :: bs => equal a b && equalItems as bs
  | _, _ => false

end

mutual

theorem equal_iff (a b : Key) : a.equal b = true ↔ a = b := by
  cases a with
  | tuple as =>
    cases b with
    | tuple bs => simp [equal, equalItems_iff as bs]
    | _ => simp [equal]
  | _ => cases b <;> simp [equal]

theorem equalItems_iff (as bs : List Key) : equalItems as bs = true ↔ as = bs := by
  cases as with
  | nil => cases bs <;> simp [equalItems]
  | cons a as =>
    cases bs with
    | nil => simp [equalItems]
    | cons b bs => simp [equalItems, equal_iff a b, equalItems_iff as bs]

end

instance : DecidableEq Key := fun a b => decidable_of_iff _ (equal_iff a b)

/-! ## Hashes -/

mutual

/-- The hash of a key, unless it contains something that has none. -/
def hash? (d : Digests) : Key → Option Int64
  | .none => some (d.text "None")
  | .bool b => some (if b then 1 else 0)
  | .integer n => some n
  | .string s => some (d.text s)
  | .bytes content => some (d.bytes content)
  | .tuple items => hashItems? d (d.text "Tuple") items
  | .unhashable => Option.none

/-- The hash of a tuple from that of the elements before some others. -/
def hashItems? (d : Digests) (hash : Int64) : List Key → Option Int64
  | [] => some hash
  | item :: rest => (item.hash? d).bind fun h => hashItems? d (Builtin.mixHash hash h) rest

end

mutual

/-- Whether a key contains nothing that changes. -/
def isHashable : Key → Bool
  | .tuple items => areHashable items
  | .unhashable => false
  | _ => true

/-- Whether none of some keys contains anything that changes. -/
def areHashable : List Key → Bool
  | [] => true
  | item :: rest => item.isHashable && areHashable rest

end

mutual

/-- Whether there is a hash does not depend on the digests. -/
theorem isSome_hash? (d : Digests) (k : Key) : (k.hash? d).isSome = k.isHashable := by
  cases k with
  | tuple items => exact isSome_hashItems? d (d.text "Tuple") items
  | _ => rfl

theorem isSome_hashItems? (d : Digests) (hash : Int64) (items : List Key) :
    (hashItems? d hash items).isSome = areHashable items := by
  cases items with
  | nil => rfl
  | cons item rest =>
    have hitem := isSome_hash? d item
    rw [hashItems?, areHashable, ← hitem]
    cases item.hash? d with
    | none => rfl
    | some first => exact isSome_hashItems? d (Builtin.mixHash hash first) rest

end

theorem exists_hash? (d : Digests) {k : Key} (hk : k.isHashable = true) :
    ∃ hash, k.hash? d = some hash :=
  Option.isSome_iff_exists.1 ((isSome_hash? d k).trans hk)

mutual

/-- How many tuples a key has inside each other. -/
def depth : Key → Nat
  | .tuple items => depthOfItems items + 1
  | _ => 0

/-- The depth of the deepest of some keys. -/
def depthOfItems : List Key → Nat
  | [] => 0
  | item :: rest => max item.depth (depthOfItems rest)

end

theorem depth_le_depthOfItems {k : Key} {items : List Key} (hk : k ∈ items) :
    k.depth ≤ depthOfItems items := by
  induction items with
  | nil => cases hk
  | cons item rest ih =>
    rw [depthOfItems]
    rcases List.mem_cons.1 hk with rfl | hk
    · exact Nat.le_max_left _ _
    · exact Nat.le_trans (ih hk) (Nat.le_max_right _ _)

end Key

/-! ## Objects that show keys -/

/-- An object as it was made, but for what questions leave behind: its members are notes of
behaviour that was asked for, and it remembers no hash but its own. -/
structure Object.Plain (o : Object) (hash? : Option Int64) : Prop where
  notes : ∀ name m, o.members.get? name = some m →
    ∃ s : Symbol, m = .builtin s ∧ s.name = name ∧ o.kind.tag.supports s = true
  memo : o.hash = 0 ∨ hash? = some o.hash

/-- Whether there is such an object behind a value. -/
structure Heap.Plain (h : Heap) (v : Value) (hash? : Option Int64) : Prop where
  lt : v.address < h.objects.size
  object : (h.get v).Plain hash?

mutual

/-- Whether a value is an object of some content. The elements of a tuple were there before it. -/
def Heap.Shows (h : Heap) (d : Digests) (v : Value) : Key → Prop
  | .none => h.Plain v (Key.none.hash? d) ∧ h.kind v = .none
  | .bool b => h.Plain v ((Key.bool b).hash? d) ∧ h.kind v = .bool b
  | .integer n => h.Plain v ((Key.integer n).hash? d) ∧ h.kind v = .integer n
  | .string s => h.Plain v ((Key.string s).hash? d) ∧ h.kind v = .string s
  | .bytes content => h.Plain v ((Key.bytes content).hash? d) ∧ h.kind v = .bytes content
  | .tuple keys => h.Plain v ((Key.tuple keys).hash? d) ∧ ∃ items, h.kind v = .tuple items ∧
      (∀ item ∈ items, item.address < v.address) ∧ h.ShowsAll d items keys
  | .unhashable => h.Plain v (Key.unhashable.hash? d) ∧
      ((∃ items, h.kind v = .array items) ∨ ∃ t, h.kind v = .hash t)

/-- Whether values are objects of some contents, one by one. -/
def Heap.ShowsAll (h : Heap) (d : Digests) (items : List Value) : List Key → Prop
  | [] => items = []
  | key :: keys => ∃ item rest, items = item :: rest ∧ h.Shows d item key ∧ h.ShowsAll d rest keys

end

/-- What a payload shows, as far as it can be told without the elements of a tuple. -/
inductive Key.Fits : Key → Kind → Prop where
  | none : Fits .none .none
  | bool (b : Bool) : Fits (.bool b) (.bool b)
  | integer (n : Int64) : Fits (.integer n) (.integer n)
  | string (s : String) : Fits (.string s) (.string s)
  | bytes (content : List UInt8) : Fits (.bytes content) (.bytes content)
  | tuple (keys : List Key) (items : List Value) : Fits (.tuple keys) (.tuple items)
  | array (items : List Value) : Fits .unhashable (.array items)
  | hash (t : Table) : Fits .unhashable (.hash t)

namespace Heap

/-- A new object is as plain as can be. -/
theorem plain_alloc (h : Heap) (kind : Kind) (hash? : Option Int64) :
    (h.alloc kind).2.Plain (h.alloc kind).1 hash? where
  lt := by simp [alloc]
  object := by
    rw [get_alloc]
    exact ⟨fun name member hmember => (by cases hmember), .inl rfl⟩

variable {h h' : Heap} {d : Digests} {v : Value} {k l : Key}

theorem Shows.plain (hv : h.Shows d v k) : h.Plain v (k.hash? d) := by
  cases k <;> exact hv.1

theorem Shows.fits (hv : h.Shows d v k) : k.Fits (h.kind v) := by
  cases k with
  | tuple keys =>
    obtain ⟨-, items, hitems, -⟩ := hv
    rw [hitems]
    exact .tuple keys items
  | unhashable =>
    rcases hv.2 with ⟨items, hitems⟩ | ⟨t, ht⟩
    · rw [hitems]
      exact .array items
    · rw [ht]
      exact .hash t
  | _ =>
    rw [hv.2]
    constructor

theorem Shows.lt (hv : h.Shows d v k) : v.address < h.objects.size := hv.plain.lt

theorem ShowsAll.length_eq {items : List Value} {keys : List Key} (hall : h.ShowsAll d items keys) :
    items.length = keys.length := by
  induction keys generalizing items with
  | nil =>
    cases hall
    rfl
  | cons key keys ih =>
    obtain ⟨item, rest, rfl, -, hrest⟩ := hall
    rw [List.length_cons, List.length_cons, ih hrest]

theorem ShowsAll.lt {items : List Value} {keys : List Key} (hall : h.ShowsAll d items keys) :
    ∀ item ∈ items, item.address < h.objects.size := by
  induction keys generalizing items with
  | nil =>
    cases hall
    exact fun item hitem => nomatch hitem
  | cons key keys ih =>
    obtain ⟨item, rest, rfl, hitem, hrest⟩ := hall
    exact List.forall_mem_cons.2 ⟨hitem.lt, ih hrest⟩

mutual

/-- An object shows only one key. -/
theorem Shows.unique {k l : Key} {v : Value} (hk : h.Shows d v k) (hl : h.Shows d v l) : k = l := by
  cases k with
  | tuple keys =>
    obtain ⟨-, items, hkind, -, hitems⟩ := hk
    cases l with
    | tuple keys' =>
      obtain ⟨-, items', hkind', -, hitems'⟩ := hl
      obtain rfl : items = items' := by simpa [hkind] using hkind'
      rw [ShowsAll.unique hitems hitems']
    | _ => simp [hkind, Shows] at hl
  | unhashable => cases l <;> rcases hk.2 with ⟨_, hk⟩ | ⟨_, hk⟩ <;> simp [hk, Shows] at hl ⊢
  | _ => cases l <;> simp_all [Shows]

theorem ShowsAll.unique {keys keys' : List Key} {items : List Value} (hk : h.ShowsAll d items keys)
    (hl : h.ShowsAll d items keys') : keys = keys' := by
  cases keys with
  | nil =>
    cases hk
    cases keys' with
    | nil => rfl
    | cons key keys' => simp [ShowsAll] at hl
  | cons key keys =>
    obtain ⟨item, rest, rfl, hitem, hrest⟩ := hk
    cases keys' with
    | nil => cases hl
    | cons key' keys' =>
      obtain ⟨_, _, heq, hitem', hrest'⟩ := hl
      cases heq
      rw [Shows.unique hitem hitem', ShowsAll.unique hrest hrest']

end

/-- Whether a payload stays, but for the entries of a Hash. -/
def SameKind (h h' : Heap) (v : Value) : Prop :=
  h'.kind v = h.kind v ∨ ((h.table? v).isSome ∧ (h'.table? v).isSome)

mutual

/-- What an object shows depends on its payload, its members and what it remembers, and on those of
the elements that it is made of. The entries of a Hash do not count. -/
theorem Shows.of_plain {k : Key} {v : Value} (hv : h.Shows d v k)
    (hkind : ∀ v, v.address < h.objects.size → h.SameKind h' v)
    (hplain : ∀ v k, h.Shows d v k → h'.Plain v (k.hash? d)) : h'.Shows d v k := by
  have hsame := hkind v hv.lt
  have hstill := hplain v k hv
  cases k with
  | tuple keys =>
    obtain ⟨-, items, hitems, hlower, hall⟩ := hv
    have hstays : h'.kind v = h.kind v := hsame.resolve_right (by simp [table?, hitems])
    exact ⟨hstill, items, hstays.trans hitems, hlower, ShowsAll.of_plain hall hkind hplain⟩
  | unhashable =>
    rcases hsame with hstays | ⟨-, htable⟩
    · exact ⟨hstill, by simpa [hstays] using hv.2⟩
    · obtain ⟨t, ht⟩ := Option.isSome_iff_exists.1 htable
      exact ⟨hstill, .inr ⟨t, kind_of_table? ht⟩⟩
  | _ => exact ⟨hstill, (hsame.resolve_right (by simp [table?, hv.2])).trans hv.2⟩

theorem ShowsAll.of_plain {keys : List Key} {items : List Value} (hall : h.ShowsAll d items keys)
    (hkind : ∀ v, v.address < h.objects.size → h.SameKind h' v)
    (hplain : ∀ v k, h.Shows d v k → h'.Plain v (k.hash? d)) : h'.ShowsAll d items keys := by
  cases keys with
  | nil => exact hall
  | cons key keys =>
    obtain ⟨item, rest, rfl, hitem, hrest⟩ := hall
    exact ⟨item, rest, rfl, Shows.of_plain hitem hkind hplain,
      ShowsAll.of_plain hrest hkind hplain⟩

end

end Heap
end ScriptVM
