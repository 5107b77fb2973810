import ScriptVM.Proofs.Keyed.Asking
import Mathlib.Data.List.Forall2

/-!
# Data

What a value says that is made of `None`, Bools, Integers, Strings, Bytes, Tuples, Arrays and Hashes,
apart from the objects that it is made of. A Hash says a map, from what its keys say to what its
values say, whatever the order of its entries and the buckets that they are in. What a value
remembers of its hash is no part of what it says.
-/
namespace ScriptVM

/-- What a value says that is made of data only. -/
inductive Data where
  | none
  | bool (b : Bool)
  | integer (n : Int64)
  | string (s : String)
  | bytes (content : List UInt8)
  | tuple (items : List Data)
  | array (items : List Data)
  | hash (value? : Key → Option Data)
  deriving Inhabited

/-! ## Objects as the machine makes them -/

/-- Whether there is an object behind a value whose members are only notes of its behaviour, and
nothing was bound to the value before there was the object. -/
structure Heap.Pristine (h : Heap) (v : Value) : Prop where
  lt : v.address < h.objects.size
  untouched : (h.get v).Untouched
  older : ∀ f callable, h.kind f = .function ⟨callable, some v⟩ → v.address < f.address

mutual

/-- Whether a value says a key, whatever it remembers of its hash. The elements of a tuple were there
before it, and of what changes nothing is said. -/
def Heap.Bears (h : Heap) (v : Value) : Key → Prop
  | .none => h.Pristine v ∧ h.kind v = .none
  | .bool b => h.Pristine v ∧ h.kind v = .bool b
  | .integer n => h.Pristine v ∧ h.kind v = .integer n
  | .string s => h.Pristine v ∧ h.kind v = .string s
  | .bytes content => h.Pristine v ∧ h.kind v = .bytes content
  | .tuple keys => h.Pristine v ∧ ∃ items, h.kind v = .tuple items ∧
      (∀ item ∈ items, item.address < v.address) ∧ h.BearsAll items keys
  | .unhashable => h.Pristine v ∧ (h.tag v = .array ∨ h.tag v = .hash)

/-- Whether values say keys, one by one. -/
def Heap.BearsAll (h : Heap) (items : List Value) : List Key → Prop
  | [] => items = []
  | key :: keys => ∃ item rest, items = item :: rest ∧ h.Bears item key ∧ h.BearsAll rest keys

end

/-- Whether a table has what a map has, when keys and values say what they are taken to say. -/
structure Table.Maps (t : Table) (bears : Value → Key → Prop) (holds : Value → Data → Prop)
    (value? : Key → Option Data) : Prop where
  sound : ∀ entry ∈ t.entries, ∃ k x, bears entry.1 k ∧ value? k = some x ∧ holds entry.2 x
  complete : ∀ k x, value? k = some x → ∃ key ∈ t.keys, bears key k

/-- What a payload says, when its elements say what they are taken to say. -/
inductive Kind.Says (maps : Table → (Key → Option Data) → Prop) (holds : Value → Data → Prop) :
    Kind → Data → Prop
  | none : Says maps holds .none .none
  | bool (b : Bool) : Says maps holds (.bool b) (.bool b)
  | integer (n : Int64) : Says maps holds (.integer n) (.integer n)
  | string (s : String) : Says maps holds (.string s) (.string s)
  | bytes (content : List UInt8) : Says maps holds (.bytes content) (.bytes content)
  | tuple {items : List Value} {contents : List Data} (h : List.Forall₂ holds items contents) :
    Says maps holds (.tuple items) (.tuple contents)
  | array {items : List Value} {contents : List Data} (h : List.Forall₂ holds items contents) :
    Says maps holds (.array items) (.array contents)
  | hash {t : Table} {value? : Key → Option Data} (h : maps t value?) :
    Says maps holds (.hash t) (.hash value?)

/-- Whether a value says some data in so many levels. -/
def Heap.Holds (h : Heap) : Nat → Value → Data → Prop
  | 0, _, _ => False
  | n + 1, v, x => h.Pristine v ∧ (h.kind v).Says
      (fun t => t.Maps (fun key k => h.Bears key k ∧ k.depth < n) (h.Holds n)) (h.Holds n) x

/-- Whether a value says some data. -/
def Heap.Says (h : Heap) (v : Value) (x : Data) : Prop := ∃ n, h.Holds n v x

section payloads

variable {maps maps' : Table → (Key → Option Data) → Prop} {holds holds' : Value → Data → Prop}
  {kind : Kind} {x y : Data}

theorem Kind.Says.imp (hx : kind.Says maps holds x)
    (hmaps : ∀ t value?, kind = .hash t → maps t value? → maps' t value?)
    (hholds : ∀ v x, holds v x → holds' v x) : kind.Says maps' holds' x := by
  cases hx with
  | tuple hall => exact .tuple (hall.imp hholds)
  | array hall => exact .array (hall.imp hholds)
  | hash h => exact .hash (hmaps _ _ rfl h)
  | _ => constructor

/-- A payload says only one thing, if its elements do. -/
theorem Kind.Says.unique (hx : kind.Says maps holds x) (hy : kind.Says maps holds y)
    (hmaps : ∀ t f g, maps t f → maps t g → f = g) (hholds : Relator.RightUnique holds) : x = y := by
  cases hx with
  | tuple hall =>
    cases hy with
    | tuple hall' => rw [hholds.forall₂ hall hall']
  | array hall =>
    cases hy with
    | array hall' => rw [hholds.forall₂ hall hall']
  | hash h =>
    cases hy with
    | hash h' => rw [hmaps _ _ _ h h']
  | _ =>
    cases hy
    rfl

variable {t : Table} {bears bears' : Value → Key → Prop} {f g : Key → Option Data}

theorem Table.Maps.imp (ht : t.Maps bears holds f)
    (hbears : ∀ v k, bears v k → bears' v k) (hholds : ∀ v x, holds v x → holds' v x) :
    t.Maps bears' holds' f where
  sound entry hentry :=
    have ⟨k, x, hk, hx, hholds'⟩ := ht.sound entry hentry
    ⟨k, x, hbears _ _ hk, hx, hholds _ _ hholds'⟩
  complete k x hx :=
    have ⟨key, hkey, hk⟩ := ht.complete k x hx
    ⟨key, hkey, hbears _ _ hk⟩

/-- What a map has, another map of the same table has. -/
theorem Table.Maps.le (hf : t.Maps bears holds f) (hg : t.Maps bears holds g)
    (hbears : Relator.RightUnique bears) (hholds : Relator.RightUnique holds) {k : Key}
    (hx : f k = some x) : g k = some x := by
  obtain ⟨key, hkey, hk⟩ := hf.complete k x hx
  obtain ⟨entry, hentry, rfl⟩ := List.mem_map.1 hkey
  obtain ⟨l, y, hl, hy, hholdsy⟩ := hf.sound entry hentry
  obtain ⟨l', z, hl', hz, hholdsz⟩ := hg.sound entry hentry
  obtain rfl := hbears hk hl
  obtain rfl := hbears hk hl'
  obtain rfl : y = x := Option.some.inj (hy.symm.trans hx)
  rw [hz, hholds hholdsy hholdsz]

theorem Table.Maps.unique (hf : t.Maps bears holds f) (hg : t.Maps bears holds g)
    (hbears : Relator.RightUnique bears) (hholds : Relator.RightUnique holds) : f = g :=
  funext fun _ => Option.ext fun _ =>
    ⟨fun hx => hf.le hg hbears hholds hx, fun hx => hg.le hf hbears hholds hx⟩

end payloads

/-- Whether values of a type say data without having elements. -/
def TypeTag.isScalar : TypeTag → Bool
  | .none | .bool | .integer | .string | .bytes => true
  | _ => false

/-- Finite values that are made of data only. -/
inductive Heap.IsData (h : Heap) : Value → Prop
  | scalar {v : Value} (hv : h.Pristine v) (htag : (h.tag v).isScalar = true) : IsData h v
  | tuple {v : Value} {items : List Value} (hv : h.Pristine v) (hkind : h.kind v = .tuple items)
    (hlower : ∀ item ∈ items, item.address < v.address)
    (hitems : ∀ item ∈ items, IsData h item) : IsData h v
  | array {v : Value} {items : List Value} (hv : h.Pristine v) (hkind : h.kind v = .array items)
    (hitems : ∀ item ∈ items, IsData h item) : IsData h v
  | hash {v : Value} {t : Table} (hv : h.Pristine v) (hkind : h.kind v = .hash t)
    (hkeys : ∀ entry ∈ t.entries, IsData h entry.1)
    (hvalues : ∀ entry ∈ t.entries, IsData h entry.2) : IsData h v

namespace Heap

variable {h h' : Heap} {v : Value} {k l : Key} {x y : Data} {n n' : Nat}

/-! ## Keys -/

theorem Bears.pristine (hv : h.Bears v k) : h.Pristine v := by
  cases k <;> exact hv.1

theorem Bears.lt (hv : h.Bears v k) : v.address < h.objects.size := hv.pristine.lt

mutual

/-- A value says only one key. -/
theorem Bears.unique {k l : Key} {v : Value} (hk : h.Bears v k) (hl : h.Bears v l) : k = l := by
  cases k with
  | tuple keys =>
    obtain ⟨-, items, hkind, -, hitems⟩ := hk
    cases l with
    | tuple keys' =>
      obtain ⟨-, items', hkind', -, hitems'⟩ := hl
      obtain rfl : items = items' := by simpa [hkind] using hkind'
      rw [BearsAll.unique hitems hitems']
    | _ => simp [hkind, Bears, tag, Kind.tag] at hl
  | unhashable =>
    have htag := hk.2
    cases l with
    | tuple keys =>
      obtain ⟨-, items, hkind, -⟩ := hl
      simp [tag, hkind, Kind.tag] at htag
    | unhashable => rfl
    | _ => simp [tag, hl.2, Kind.tag] at htag
  | _ => cases l <;> simp_all [Bears, tag, Kind.tag]

theorem BearsAll.unique {keys keys' : List Key} {items : List Value} (hk : h.BearsAll items keys)
    (hl : h.BearsAll items keys') : keys = keys' := by
  cases keys with
  | nil =>
    cases hk
    cases keys' with
    | nil => rfl
    | cons key keys' => simp [BearsAll] at hl
  | cons key keys =>
    obtain ⟨item, rest, rfl, hitem, hrest⟩ := hk
    cases keys' with
    | nil => cases hl
    | cons key' keys' =>
      obtain ⟨_, _, heq, hitem', hrest'⟩ := hl
      cases heq
      rw [Bears.unique hitem hitem', BearsAll.unique hrest hrest']

end

/-- Whether a value says any key at all. -/
def IsKey (h : Heap) (v : Value) : Prop := ∃ k, h.Bears v k

theorem exists_bearsAll {items : List Value} (hall : ∀ item ∈ items, h.IsKey item) :
    ∃ keys, h.BearsAll items keys := by
  induction items with
  | nil => exact ⟨[], rfl⟩
  | cons item rest ih =>
    obtain ⟨⟨k, hk⟩, hrest⟩ := List.forall_mem_cons.1 hall
    obtain ⟨keys, hkeys⟩ := ih hrest
    exact ⟨k :: keys, item, rest, rfl, hk, hkeys⟩

/-- Data says a key, if only that it is something that changes. -/
theorem IsData.isKey (hv : h.IsData v) : h.IsKey v := by
  induction hv with
  | @scalar v hv htag =>
    rw [tag] at htag
    cases hkind : h.kind v with
    | none => exact ⟨.none, hv, hkind⟩
    | bool b => exact ⟨.bool b, hv, hkind⟩
    | integer i => exact ⟨.integer i, hv, hkind⟩
    | string s => exact ⟨.string s, hv, hkind⟩
    | bytes content => exact ⟨.bytes content, hv, hkind⟩
    | _ =>
      rw [hkind] at htag
      cases htag
  | tuple hv hkind hlower _ ih =>
    obtain ⟨keys, hkeys⟩ := exists_bearsAll ih
    exact ⟨.tuple keys, hv, _, hkind, hlower, hkeys⟩
  | array hv hkind => exact ⟨.unhashable, hv, .inl (congrArg Kind.tag hkind)⟩
  | hash hv hkind => exact ⟨.unhashable, hv, .inr (congrArg Kind.tag hkind)⟩

/-! ## Recognizing data -/

/-- Recognizes objects as the machine makes them. -/
def isPristine (h : Heap) (v : Value) : Bool :=
  v.address < h.objects.size &&
  (h.get v).members.entries.all (fun
    | (name, .builtin s) => s.name = name && (h.tag v).supports s
    | _ => false) &&
  (List.range h.objects.size).all fun i =>
    match h.kind ⟨i⟩ with
    | .function ⟨_, some owner⟩ => owner ≠ v || v.address < i
    | _ => true

theorem Pristine.of_isPristine (hv : h.isPristine v = true) : h.Pristine v := by
  obtain ⟨⟨hlt, hmembers⟩, hfunctions⟩ : (_ ∧ _) ∧ _ := by simpa [isPristine] using hv
  refine ⟨hlt, fun name m hm => ?_, fun f callable hf => ?_⟩
  · obtain ⟨_, _, hentries, -⟩ := List.lookup_eq_some_iff.1 hm
    have hnote := hmembers name m (by simp [hentries])
    cases m with
    | builtin s => exact ⟨s, rfl, by simpa [tag, kind] using hnote⟩
    | _ => simp at hnote
  · have hlower := hfunctions f.address (lt_size_of_kind hf (by simp))
    rw [show (⟨f.address⟩ : Value) = f from rfl, hf] at hlower
    simpa using hlower

/-- Recognizes data, with elements down to so many levels. -/
def isData (h : Heap) : Nat → Value → Bool
  | 0, _ => false
  | n + 1, v => h.isPristine v &&
    match h.kind v with
    | .tuple items => items.all fun item => item.address < v.address && h.isData n item
    | .array items => items.all (h.isData n)
    | .hash t => t.entries.all fun entry => h.isData n entry.1 && h.isData n entry.2
    | kind => kind.tag.isScalar

theorem IsData.of_isData (hv : h.isData n v = true) : h.IsData v := by
  induction n generalizing v with
  | zero => cases hv
  | succ n ih =>
    obtain ⟨hpristine, hkind⟩ := Bool.and_eq_true_iff.1 hv
    have hpristine := Pristine.of_isPristine hpristine
    split at hkind
    · rename_i items hitems
      simp only [List.all_eq_true, Bool.and_eq_true, decide_eq_true_iff] at hkind
      exact .tuple hpristine hitems (fun item hitem => (hkind item hitem).1)
        fun item hitem => ih (hkind item hitem).2
    · rename_i items hitems
      exact .array hpristine hitems fun item hitem => ih (List.all_eq_true.1 hkind item hitem)
    · rename_i t ht
      simp only [List.all_eq_true, Bool.and_eq_true] at hkind
      exact .hash hpristine ht (fun entry hentry => ih (hkind entry hentry).1)
        fun entry hentry => ih (hkind entry hentry).2
    · exact .scalar hpristine hkind

/-! ## Data -/

theorem Holds.succ (hv : h.Holds n v x) : h.Holds (n + 1) v x := by
  induction n generalizing v x with
  | zero => exact hv.elim
  | succ n ih =>
    refine ⟨hv.1, hv.2.imp (fun t value? _ hmaps => ?_) fun _ _ => ih⟩
    exact hmaps.imp (fun _ _ hk => ⟨hk.1, Nat.lt_succ_of_lt hk.2⟩) fun _ _ => ih

theorem Holds.mono (hv : h.Holds n v x) (hn : n ≤ n') : h.Holds n' v x := by
  induction hn with
  | refl => exact hv
  | step _ ih => exact ih.succ

theorem Holds.unique (hx : h.Holds n v x) (hy : h.Holds n v y) : x = y := by
  induction n generalizing v x y with
  | zero => exact hx.elim
  | succ n ih =>
    have hholds : Relator.RightUnique (h.Holds n) := fun _ _ _ => ih
    refine hx.2.unique hy.2 (fun t f g hf hg => hf.unique hg ?_ hholds) hholds
    exact fun _ _ _ hk hl => hk.1.unique hl.1

/-- A value says only one thing. -/
theorem Says.unique (hx : h.Says v x) (hy : h.Says v y) : x = y := by
  obtain ⟨n, hx⟩ := hx
  obtain ⟨n', hy⟩ := hy
  exact (hx.mono (Nat.le_max_left n n')).unique (hy.mono (Nat.le_max_right n n'))

end Heap
end ScriptVM
