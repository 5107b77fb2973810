import ScriptVM.Proofs.Data.Comparing
import ScriptVM.Proofs.Growth

/-!
# Data as it is kept

What has to be true of all objects so that data is compared by what it says: whatever says a key
remembers no other hash than that of the key, and in a Hash whose keys all say keys each of them is in
the bucket of its hash and no two say the same. A value that says a key has always said it, since there
was an object behind it, and a value that was used before there was an object behind it never says
one. So all of this can be told of a Hash by what its keys say in the end, and it stays true while
objects are added and changed.
-/
namespace ScriptVM

/-- Whether each key of a table is in the bucket of its hash and no two of them say the same. -/
structure Table.Placed (t : Table) (d : Digests) (bears : Value → Key → Prop) : Prop where
  hashed : ∀ key ∈ t.keys, ∀ k, bears key k → ∃ hash, k.hash? d = some hash ∧ key ∈ t.keysOf hash
  distinct : t.keys.Pairwise fun a b => ∀ k, bears a k → ¬bears b k

theorem Table.Placed.imp {t : Table} {d : Digests} {bears bears' : Value → Key → Prop}
    (ht : t.Placed d bears) (h : ∀ key ∈ t.keys, ∀ k, bears' key k → bears key k) :
    t.Placed d bears' where
  hashed key hkey k hk := ht.hashed key hkey k (h key hkey k hk)
  distinct := ht.distinct.imp_of_mem fun ha hb hne k hak hbk =>
    hne k (h _ ha k hak) (h _ hb k hbk)

/-- No two entries are under keys that say the same. -/
theorem Table.Placed.entry_eq {t : Table} {d : Digests} {bears : Value → Key → Prop}
    (ht : t.Placed d bears) {entry entry' : Value × Value} {k : Key} (he : entry ∈ t.entries)
    (he' : entry' ∈ t.entries) (hk : bears entry.1 k) (hk' : bears entry'.1 k) : entry = entry' := by
  by_contra hne
  have hapart : t.entries.Pairwise fun a b => ∀ k, bears a.1 k → ¬bears b.1 k :=
    List.pairwise_map.1 ht.distinct
  have hsymm : Std.Symm fun a b : Value × Value => ∀ k, bears a.1 k → ¬bears b.1 k :=
    ⟨fun _ _ hab k hb ha => hab k ha hb⟩
  exact hapart.forall he he' hne k hk hk'

/-- Whether something was bound to a value that is not younger than the object behind the value. -/
def Heap.Anticipates (h : Heap) (v : Value) : Prop :=
  ∃ f callable, h.kind f = .function ⟨callable, some v⟩ ∧ f.address ≤ v.address

/-- Whether a value was used: there is an object behind it, or something was bound to it before. -/
def Heap.Known (h : Heap) (v : Value) : Prop := v.address < h.objects.size ∨ h.Anticipates v

/-- Whether the keys of a table were used, contain nothing that changes and, if they all say keys, are
where they belong. -/
structure Heap.Sorts (h : Heap) (d : Digests) (t : Table) : Prop where
  known : ∀ key ∈ t.keys, h.Known key
  hashable : ∀ key ∈ t.keys, ∀ k, h.Bears key k → k.isHashable = true
  placed : (∀ key ∈ t.keys, h.IsKey key) → t.Placed d h.Bears

/-- Whether hashes are remembered rightly and the keys of every Hash are where they belong. -/
structure Heap.Settled (h : Heap) (d : Digests) : Prop where
  memo : ∀ v k, h.Bears v k → k ≠ .unhashable → (h.get v).hash = 0 ∨ k.hash? d = some (h.get v).hash
  sorts : ∀ v t, h.table? v = some t → h.Sorts d t

namespace Heap

variable {h h' : Heap} {d : Digests} {v : Value} {k : Key} {t : Table} {x : Data} {n : Nat}

/-! ## Looking back -/

theorem Pristine.not_anticipates (hv : h.Pristine v) : ¬h.Anticipates v :=
  fun ⟨f, callable, hf, hle⟩ => Nat.not_lt.2 hle (hv.older f callable hf)

section back

variable (hh : h.Precedes h')
include hh

theorem Precedes.function {f : Value} {g : Function} (hf : h.kind f = .function g) :
    h'.kind f = .function g :=
  (hh.kind (lt_size_of_kind hf nofun) (by rw [tag, hf]; rfl)).trans hf

theorem Precedes.pristine (hlt : v.address < h.objects.size) (hv : h'.Pristine v) :
    h.Pristine v where
  lt := hlt
  untouched := (hh.object v hlt).untouched hv.untouched
  older f callable hf := hv.older f callable (hh.function hf)

theorem Precedes.kind_of_later {kind : Kind} (hlt : v.address < h.objects.size)
    (hkind : h'.kind v = kind) (hchanges : kind.tag.changes = false) : h.kind v = kind := by
  have htag : h.tag v = kind.tag := (hh.object v hlt).tag.symm.trans (congrArg Kind.tag hkind)
  exact (hh.kind hlt (htag ▸ hchanges)).symm.trans hkind

omit hh in
mutual

/-- What says a key has always said it. -/
theorem Precedes.bears {k : Key} {v : Value} (hh : h.Precedes h') (hlt : v.address < h.objects.size)
    (hv : h'.Bears v k) : h.Bears v k := by
  have hpristine := hh.pristine hlt hv.pristine
  cases k with
  | tuple keys =>
    obtain ⟨-, items, hitems, hlower, hall⟩ := hv
    refine ⟨hpristine, items, hh.kind_of_later hlt hitems rfl, hlower, ?_⟩
    exact hh.bearsAll (fun item hitem => Nat.lt_trans (hlower item hitem) hlt) hall
  | unhashable =>
    have htag : h'.tag v = h.tag v := (hh.object v hlt).tag
    exact ⟨hpristine, htag ▸ hv.2⟩
  | _ => exact ⟨hpristine, hh.kind_of_later hlt hv.2 rfl⟩

theorem Precedes.bearsAll {keys : List Key} {items : List Value} (hh : h.Precedes h')
    (hlt : ∀ item ∈ items, item.address < h.objects.size) (hall : h'.BearsAll items keys) :
    h.BearsAll items keys := by
  cases keys with
  | nil => exact hall
  | cons key keys =>
    obtain ⟨item, rest, rfl, hitem, hrest⟩ := hall
    rw [List.forall_mem_cons] at hlt
    exact ⟨item, rest, rfl, hh.bears hlt.1 hitem, hh.bearsAll hlt.2 hrest⟩

end

theorem Anticipates.mono (hv : h.Anticipates v) : h'.Anticipates v := by
  obtain ⟨f, callable, hf, hle⟩ := hv
  exact ⟨f, callable, hh.function hf, hle⟩

theorem Known.mono (hv : h.Known v) : h'.Known v :=
  hv.imp (fun hlt => Nat.lt_of_lt_of_le hlt hh.size) (Anticipates.mono hh)

/-- There was an object behind a value that was used, if it looks as if nothing happened to it. -/
theorem Known.lt (hv : h.Known v) (hlater : h'.Pristine v) : v.address < h.objects.size :=
  hv.resolve_right fun hearly => hlater.not_anticipates (hearly.mono hh)

theorem Known.bears (hv : h.Known v) (hlater : h'.Bears v k) : h.Bears v k :=
  hh.bears (hv.lt hh hlater.pristine) hlater

theorem Sorts.mono (ht : h.Sorts d t) : h'.Sorts d t where
  known key hkey := (ht.known key hkey).mono hh
  hashable key hkey k hk := ht.hashable key hkey k ((ht.known key hkey).bears hh hk)
  placed hall :=
    have hback : ∀ key ∈ t.keys, ∀ k, h'.Bears key k → h.Bears key k :=
      fun key hkey _ => (ht.known key hkey).bears hh
    (ht.placed fun key hkey => (hall key hkey).imp fun k => hback key hkey k).imp hback

/-- Data stays settled when new objects remember nothing, old ones remember nothing wrong, and the
tables are such that their keys are where they belong. -/
theorem Precedes.settled
    (hmemo : ∀ v k, h.Bears v k → k ≠ .unhashable →
      (h'.get v).hash = 0 ∨ k.hash? d = some (h'.get v).hash)
    (hnew : ∀ v : Value, h.objects.size ≤ v.address → (h'.get v).hash = 0)
    (htables : ∀ v t, h'.table? v = some t → h.Sorts d t) : h'.Settled d where
  memo v k hv hk := by
    rcases Nat.lt_or_ge v.address h.objects.size with hlt | hge
    · exact hmemo v k (hh.bears hlt hv) hk
    · exact .inl (hnew v hge)
  sorts v t ht := (htables v t ht).mono hh

end back

/-! ## What keeps data settled -/

theorem sorts_empty : h.Sorts d .empty where
  known _ hkey := nomatch hkey
  hashable _ hkey := nomatch hkey
  placed _ := ⟨fun _ hkey => (nomatch hkey), .nil⟩

theorem get_alloc_cases (h : Heap) (kind : Kind) (v : Value) :
    (h.alloc kind).2.get v = h.get v ∨ (h.alloc kind).2.get v = ⟨kind, .empty, 0⟩ := by
  rcases Nat.lt_trichotomy v.address h.objects.size with hlt | heq | hgt
  · exact .inl (get_alloc_of_lt kind hlt)
  · exact .inr ((congrArg _ (congrArg Value.mk heq)).trans (get_alloc h kind))
  · refine .inl ?_
    rw [get_of_le (Nat.le_of_lt hgt), get_of_le (by rw [size_alloc]; exact hgt)]

/-- A new Hash is empty or has the entries of another one. -/
theorem Settled.alloc (hs : h.Settled d) {kind : Kind} (hkind : h.Lends kind) :
    (h.alloc kind).2.Settled d := by
  refine (h.precedes_alloc kind).settled (fun v k hv hk => ?_) (fun v hv => ?_) fun v t ht => ?_
  · rw [get_alloc_of_lt kind hv.lt]
    exact hs.memo v k hv hk
  · rcases h.get_alloc_cases kind v with hget | hget
    · rw [hget, get_of_le hv]
      rfl
    · rw [hget]
  · rcases h.get_alloc_cases kind v with hget | hget
    · refine hs.sorts v t ?_
      rwa [table?, Heap.kind, hget] at ht
    · have hk := kind_of_table? ht
      rw [Heap.kind, hget] at hk
      rcases hkind.entries t hk with rfl | ⟨u, hu⟩
      · exact sorts_empty
      · exact hs.sorts u t hu

/-- A change of one object that remembers nothing wrong and whose keys are where they belong. -/
theorem Settled.modify (hs : h.Settled d) {f : Object → Object}
    (hf : (h.get v).Precedes (f (h.get v)))
    (hmemo : ∀ k, h.Bears v k → k ≠ .unhashable →
      (f (h.get v)).hash = 0 ∨ k.hash? d = some (f (h.get v)).hash)
    (htable : ∀ t, (f (h.get v)).kind = .hash t → h.Sorts d t) : (h.modify v f).Settled d := by
  refine (precedes_modify hf).settled (fun u k hu hk => ?_) (fun u hu => ?_) fun u t ht => ?_
  · rcases h.get_modify v u f with ⟨hget, rfl⟩ | hget
    · rw [hget]
      exact hmemo k hu hk
    · rw [hget]
      exact hs.memo u k hu hk
  · rw [get_of_le (by simpa using hu)]
    rfl
  · have hk := kind_of_table? ht
    rw [Heap.kind] at hk
    rcases h.get_modify v u f with ⟨hget, rfl⟩ | hget
    · rw [hget] at hk
      exact htable t hk
    · rw [hget] at hk
      exact hs.sorts u t (table?_of_kind hk)

theorem Settled.modify_mild (hs : h.Settled d) {f : Object → Object}
    (hf : (h.get v).Mild (f (h.get v))) : (h.modify v f).Settled d := by
  refine hs.modify hf.toPrecedes (fun k hv hk => ?_) fun t ht =>
    hs.sorts v t (table?_of_kind (hf.entries t ht))
  rw [hf.hash]
  exact hs.memo v k hv hk

/-- An object may remember the hash of what it says. -/
theorem Settled.setHash (hs : h.Settled d) {hash : Int64}
    (hhash : ∀ k, h.Bears v k → k ≠ .unhashable → k.hash? d = some hash) :
    (h.setHash v hash).Settled d :=
  hs.modify ⟨rfl, fun _ => rfl, id⟩ (fun k hv hk => .inr (hhash k hv hk)) fun t ht =>
    hs.sorts v t (table?_of_kind ht)

/-- A Hash may get entries that are where they belong. -/
theorem Settled.setTable (hs : h.Settled d) (hv : h.tag v = .hash) (ht : h.Sorts d t) :
    (h.setKind v (.hash t)).Settled d :=
  hs.modify (.setKind hv rfl rfl) (hs.memo v) fun t' ht' => by
    cases ht'
    exact ht

/-! ## Entries -/

section put

variable {hash : Int64} {i : Nat} {key value : Value}

/-- An entry that is replaced keeps its key. -/
theorem Sorts.put_some (ht : h.Sorts d t) (hi : i < (t.bucket hash).length) :
    h.Sorts d (t.put hash (some i) key value) where
  known := by
    rw [Table.keys_put_some hi]
    exact ht.known
  hashable := by
    rw [Table.keys_put_some hi]
    exact ht.hashable
  placed hall := by
    rw [Table.keys_put_some hi] at hall
    have hplaced := ht.placed hall
    refine ⟨fun key hkey k hk => ?_, ?_⟩
    · simp only [Table.keysOf_put_some hi]
      exact hplaced.hashed key (Table.keys_put_some hi ▸ hkey) k hk
    · rw [Table.keys_put_some hi]
      exact hplaced.distinct

/-- An entry that is added has its key in the bucket of its hash, where no key says the same. -/
theorem Sorts.put_none (ht : h.Sorts d t) (hkey : h.Known key)
    (hhashable : ∀ k, h.Bears key k → k.isHashable = true)
    (hnew : ∀ k, h.Bears key k → (∀ other ∈ t.keys, h.IsKey other) →
      k.hash? d = some hash ∧ ∀ other ∈ t.keysOf hash, ¬h.Bears other k) :
    h.Sorts d (t.put hash none key value) where
  known other hother := by
    rcases List.mem_cons.1 (Table.perm_keys_put_none.mem_iff.1 hother) with rfl | hother
    · exact hkey
    · exact ht.known other hother
  hashable other hother := by
    rcases List.mem_cons.1 (Table.perm_keys_put_none.mem_iff.1 hother) with rfl | hother
    · exact hhashable
    · exact ht.hashable other hother
  placed hall := by
    have hperm : (t.put hash none key value).keys.Perm (key :: t.keys) := Table.perm_keys_put_none
    obtain ⟨⟨k, hk⟩, hothers⟩ := List.forall_mem_cons.1 fun other hmem =>
      hall other (hperm.mem_iff.2 hmem)
    have hplaced := ht.placed hothers
    obtain ⟨hhash, hapart⟩ := hnew k hk hothers
    refine ⟨fun other hother l hl => ?_, ?_⟩
    · simp only [Table.keysOf, Table.bucket_put_none, List.map_append, List.mem_append]
      rcases List.mem_cons.1 (hperm.mem_iff.1 hother) with rfl | hother
      · obtain rfl := hk.unique hl
        exact ⟨hash, hhash, .inr (by simp)⟩
      · obtain ⟨hash', hhash', hmem⟩ := hplaced.hashed other hother l hl
        exact ⟨hash', hhash', .inl hmem⟩
    · rw [hperm.pairwise_iff fun hab l hb ha => hab l ha hb]
      refine List.pairwise_cons.2 ⟨fun other hother l hl hsame => ?_, hplaced.distinct⟩
      obtain rfl := hk.unique hl
      obtain ⟨hash', hhash', hmem⟩ := hplaced.hashed other hother k hsame
      obtain rfl : hash = hash' := Option.some.inj (hhash.symm.trans hhash')
      exact hapart other hmem hsame

end put

/-! ## What settled data presents -/

mutual

/-- What says a key that has a hash shows it, because it remembers no other hash. -/
theorem Settled.shows {k : Key} {v : Value} (hs : h.Settled d) (hk : k.isHashable = true)
    (hv : h.Bears v k) : h.Shows d v k := by
  have hne : k ≠ .unhashable := by
    rintro rfl
    cases hk
  have hplain : h.Plain v (k.hash? d) := ⟨hv.lt, hv.pristine.untouched, hs.memo v k hv hne⟩
  cases k with
  | tuple keys =>
    obtain ⟨-, items, hitems, hlower, hall⟩ := hv
    exact ⟨hplain, items, hitems, hlower, hs.showsAll hk hall⟩
  | unhashable => cases hk
  | _ => exact ⟨hplain, hv.2⟩

theorem Settled.showsAll {keys : List Key} {items : List Value} (hs : h.Settled d)
    (hkeys : Key.areHashable keys = true) (hall : h.BearsAll items keys) : h.ShowsAll d items keys := by
  cases keys with
  | nil => exact hall
  | cons key keys =>
    obtain ⟨item, rest, rfl, hitem, hrest⟩ := hall
    obtain ⟨hkey, hkeys⟩ := Bool.and_eq_true_iff.1 hkeys
    exact ⟨item, rest, rfl, hs.shows hkey hitem, hs.showsAll hkeys hrest⟩

end

open Classical in
/-- The key that a value says. -/
noncomputable def keyOf (h : Heap) (v : Value) : Key := if hv : h.IsKey v then hv.choose else .none

theorem IsKey.bears_keyOf (hv : h.IsKey v) : h.Bears v (h.keyOf v) := by
  rw [keyOf, dif_pos hv]
  exact hv.choose_spec

theorem Bears.keyOf_eq (hv : h.Bears v k) : h.keyOf v = k := (IsKey.bears_keyOf ⟨k, hv⟩).unique hv

/-- A table of settled data has what its map has, each key once and in the bucket of its hash. -/
theorem Settled.indexes (hs : h.Settled d) (hcounts : h.CountsEntries) (ht : h.table? v = some t)
    {holds : Value → Data → Prop} {value? : Key → Option Data}
    (hmaps : t.Maps (fun key k => h.Bears key k ∧ k.depth < n) holds value?) :
    h.Indexes d n holds t value? h.keyOf := by
  have hkeys : ∀ key ∈ t.keys, h.Bears key (h.keyOf key) ∧ (h.keyOf key).depth < n := by
    intro key hkey
    obtain ⟨entry, hentry, rfl⟩ := List.mem_map.1 hkey
    obtain ⟨k, -, hk, -⟩ := hmaps.sound entry hentry
    rwa [hk.1.keyOf_eq]
  have hplaced := (hs.sorts v t ht).placed fun key hkey => ⟨_, (hkeys key hkey).1⟩
  refine ⟨hcounts v t ht, fun key hkey => ?_, fun key hkey => ?_, ?_, fun entry hentry => ?_,
    fun k x hx => ?_⟩
  · obtain ⟨hk, hdepth⟩ := hkeys key hkey
    have hhashable := (hs.sorts v t ht).hashable key hkey _ hk
    exact ⟨hs.shows hhashable hk, hhashable, hdepth⟩
  · exact hplaced.hashed key hkey _ (hkeys key hkey).1
  · refine List.pairwise_map.2 (hplaced.distinct.imp_of_mem fun {a b} ha hb hne heq => ?_)
    exact hne _ (hkeys a ha).1 (heq ▸ (hkeys b hb).1)
  · obtain ⟨k, x, hk, hx, hholds⟩ := hmaps.sound entry hentry
    exact ⟨x, by rwa [hk.1.keyOf_eq], hholds⟩
  · obtain ⟨key, hkey, hk⟩ := hmaps.complete k x hx
    exact List.mem_map.2 ⟨key, hkey, hk.1.keyOf_eq⟩

/-- On a heap of settled data whose tables count their entries, all data is kept as it is compared. -/
theorem Settled.presents (hs : h.Settled d) (hcounts : h.CountsEntries) (hv : h.Holds n v x) :
    h.Presents d n v x := by
  induction n generalizing v x with
  | zero => exact hv
  | succ n ih =>
    refine ⟨hv.1, hv.2.imp (fun t value? hkind hmaps => ⟨h.keyOf, ?_⟩) fun _ _ => ih⟩
    exact (hs.indexes hcounts (table?_of_kind hkind) hmaps).imp (fun _ _ hk => hk) fun _ _ => ih

/-! ## Finite data -/

/-- What is enough for each item of a list is enough for all of them, from some number on. -/
theorem exists_enough {α : Type} {p : Nat → α → Prop}
    (hmono : ∀ {n n' a}, n ≤ n' → p n a → p n' a) {items : List α} (hall : ∀ a ∈ items, ∃ n, p n a) :
    ∃ n, ∀ a ∈ items, p n a := by
  induction items with
  | nil => exact ⟨0, fun _ hmem => nomatch hmem⟩
  | cons a rest ih =>
    rw [List.forall_mem_cons] at hall
    obtain ⟨⟨n, hfirst⟩, hrest⟩ := hall
    obtain ⟨n', hrest⟩ := ih hrest
    exact ⟨max n n', List.forall_mem_cons.2 ⟨hmono (Nat.le_max_left n n') hfirst,
      fun b hb => hmono (Nat.le_max_right n n') (hrest b hb)⟩⟩

/-- A table of settled data all of whose keys say keys has them as it looks for them. -/
theorem Settled.exists_keyed (hs : h.Settled d) (ht : h.table? v = some t)
    (hkeys : ∀ key ∈ t.keys, h.IsKey key) : ∃ n, h.Keyed d n v t h.keyOf := by
  obtain ⟨n, hn⟩ := exists_enough (p := fun n key => (h.keyOf key).depth < n)
    (fun hle hlt => Nat.lt_of_lt_of_le hlt hle) fun key (_ : key ∈ t.keys) => ⟨_, Nat.lt_succ_self _⟩
  refine ⟨n, ht, fun key hkey => ?_⟩
  have hbears := (hkeys key hkey).bears_keyOf
  have hhashable := (hs.sorts v t ht).hashable key hkey _ hbears
  exact ⟨hs.shows hhashable hbears, hhashable, hn key hkey⟩

theorem exists_contents {items : List Value} (hall : ∀ item ∈ items, ∃ x, h.Says item x) :
    ∃ n contents, List.Forall₂ (h.Holds n) items contents := by
  obtain ⟨n, hn⟩ := exists_enough (p := fun n item => ∃ x, h.Holds n item x)
    (fun hn hx => hx.imp fun _ hv => hv.mono hn) fun item hitem =>
      have ⟨x, n, hx⟩ := hall item hitem
      ⟨n, x, hx⟩
  choose! content hcontent using hn
  exact ⟨n, items.map content, List.forall₂_map_right_iff.2 (List.forall₂_same.2 hcontent)⟩

/-- A Hash whose keys and values say something says a map. -/
theorem Settled.exists_maps (hs : h.Settled d) (ht : h.table? v = some t)
    (hkeys : ∀ entry ∈ t.entries, h.IsKey entry.1)
    (hvalues : ∀ entry ∈ t.entries, ∃ x, h.Says entry.2 x) :
    ∃ n value?, t.Maps (fun key k => h.Bears key k ∧ k.depth < n) (h.Holds n) value? := by
  classical
  let p (n : Nat) (entry : Value × Value) : Prop :=
    (∃ k, h.Bears entry.1 k ∧ k.depth < n) ∧ ∃ x, h.Holds n entry.2 x
  have hmono : ∀ {n n' entry}, n ≤ n' → p n entry → p n' entry :=
    fun hn ⟨⟨k, hk, hdepth⟩, x, hx⟩ => ⟨⟨k, hk, Nat.lt_of_lt_of_le hdepth hn⟩, x, hx.mono hn⟩
  obtain ⟨n, hn⟩ : ∃ n, ∀ entry ∈ t.entries, p n entry := by
    refine exists_enough (p := p) hmono fun entry hentry => ?_
    obtain ⟨k, hk⟩ := hkeys entry hentry
    obtain ⟨x, n, hx⟩ := hvalues entry hentry
    exact ⟨max n (k.depth + 1), ⟨k, hk, Nat.le_max_right _ _⟩, x, hx.mono (Nat.le_max_left _ _)⟩
  have hplaced : t.Placed d h.Bears := (hs.sorts v t ht).placed fun key hkey => by
    obtain ⟨entry, hentry, rfl⟩ := List.mem_map.1 hkey
    exact hkeys entry hentry
  let has (k : Key) (x : Data) : Prop := ∃ entry ∈ t.entries, h.Bears entry.1 k ∧ h.Holds n entry.2 x
  have hunique : ∀ {k x y}, has k x → has k y → x = y := by
    rintro k x y ⟨entry, hentry, hk, hx⟩ ⟨entry', hentry', hk', hy⟩
    obtain rfl := hplaced.entry_eq hentry hentry' hk hk'
    exact hx.unique hy
  let value? (k : Key) : Option Data := if hx : ∃ x, has k x then some hx.choose else none
  refine ⟨n, value?, fun entry hentry => ?_, fun k x hx => ?_⟩
  · obtain ⟨⟨k, hk⟩, x, hx⟩ := hn entry hentry
    have hhas : ∃ x, has k x := ⟨x, entry, hentry, hk.1, hx⟩
    refine ⟨k, x, hk, ?_, hx⟩
    simp only [value?, dif_pos hhas]
    exact congrArg some (hunique hhas.choose_spec ⟨entry, hentry, hk.1, hx⟩)
  · by_cases hhas : ∃ x, has k x
    · obtain ⟨entry, hentry, hk, -⟩ := hhas.choose_spec
      obtain ⟨⟨l, hl⟩, -⟩ := hn entry hentry
      exact ⟨entry.1, List.mem_map_of_mem hentry, hk.unique hl.1 ▸ hl⟩
    · simp [value?, hhas] at hx

/-- Finite data says something. -/
theorem Settled.says_of_isData (hs : h.Settled d) (hv : h.IsData v) : ∃ x, h.Says v x := by
  induction hv with
  | scalar hv htag =>
    rename_i v
    suffices hcontents : ∃ x, (h.kind v).Says (fun _ _ => True) (h.Holds 0) x by
      obtain ⟨x, hx⟩ := hcontents
      refine ⟨x, 1, hv, hx.imp (fun t _ hkind _ => ?_) fun _ _ h => h⟩
      simp [tag, hkind, Kind.tag, TypeTag.isScalar] at htag
    rw [tag] at htag
    cases hkind : h.kind v with
    | none => exact ⟨_, .none⟩
    | bool b => exact ⟨_, .bool b⟩
    | integer i => exact ⟨_, .integer i⟩
    | string s => exact ⟨_, .string s⟩
    | bytes content => exact ⟨_, .bytes content⟩
    | _ =>
      rw [hkind] at htag
      cases htag
  | tuple hv hkind _ _ ih =>
    obtain ⟨n, contents, hall⟩ := exists_contents ih
    exact ⟨.tuple contents, n + 1, hv, by rw [hkind]; exact .tuple hall⟩
  | array hv hkind _ ih =>
    obtain ⟨n, contents, hall⟩ := exists_contents ih
    exact ⟨.array contents, n + 1, hv, by rw [hkind]; exact .array hall⟩
  | hash hv hkind hkeys _ _ ih =>
    obtain ⟨n, value?, hmaps⟩ := hs.exists_maps (table?_of_kind hkind)
      (fun entry hentry => (hkeys entry hentry).isKey) ih
    exact ⟨.hash value?, n + 1, hv, by rw [hkind]; exact .hash hmaps⟩

end Heap
end ScriptVM
