import ScriptVM.Proofs.Data.Content
import ScriptVM.Proofs.Keyed.Storing

/-!
# Comparing data

A value that says data, on a machine on which hashes are remembered rightly and keys are where they
belong, is asked whether it equals another one and says whether both say the same. Tuples and Arrays
ask their elements in order. A Hash looks up its keys in the other one, and because no key is in
either of them twice, that all are found with equal values and that there are as many entries is the
equality of maps.
-/
namespace ScriptVM

open Run

/-- Whether a table has what a map has, each key once and in the bucket of its hash. -/
structure Heap.Indexes (h : Heap) (d : Digests) (n : Nat) (holds : Value → Data → Prop) (t : Table)
    (value? : Key → Option Data) (content : Value → Key) : Prop where
  size : t.size = t.entries.length
  shows : ∀ key ∈ t.keys, h.Shows d key (content key) ∧ (content key).isHashable = true ∧
    (content key).depth < n
  placed : ∀ key ∈ t.keys, ∃ hash, (content key).hash? d = some hash ∧ key ∈ t.keysOf hash
  nodup : (t.keys.map content).Nodup
  sound : ∀ entry ∈ t.entries, ∃ x, value? (content entry.1) = some x ∧ holds entry.2 x
  complete : ∀ k x, value? k = some x → k ∈ t.keys.map content

/-- Whether a Hash has a table all of whose keys show keys that have a hash, in so many levels. -/
structure Heap.Keyed (h : Heap) (d : Digests) (n : Nat) (owner : Value) (t : Table)
    (content : Value → Key) : Prop where
  table : h.table? owner = some t
  keys : ∀ key ∈ t.keys, h.Shows d key (content key) ∧ (content key).isHashable = true ∧
    (content key).depth < n

/-- Whether a value says some data in so many levels, and is kept as the machine keeps data. -/
def Heap.Presents (h : Heap) (d : Digests) : Nat → Value → Data → Prop
  | 0, _, _ => False
  | n + 1, v, x => h.Pristine v ∧ (h.kind v).Says
      (fun t value? => ∃ content, h.Indexes d n (h.Presents d n) t value? content) (h.Presents d n) x

namespace Heap

variable {h h' : Heap} {d : Digests} {n : Nat} {v : Value} {x : Data}

/-! ## What asking keeps -/

theorem Asked.pristine (ha : h.Asked d h') (hv : h.Pristine v) : h'.Pristine v where
  lt := Nat.lt_of_lt_of_le hv.lt ha.size
  untouched := ha.untouched v hv.lt hv.untouched
  older f callable hf := by
    rcases Nat.lt_or_ge f.address h.objects.size with hlt | hge
    · exact hv.older f callable ((ha.kind f hlt).symm.trans hf)
    · exact Nat.lt_of_lt_of_le hv.lt hge

mutual

theorem Asked.bears {k : Key} {v : Value} (ha : h.Asked d h') (hv : h.Bears v k) : h'.Bears v k := by
  have hkind := ha.kind v hv.lt
  cases k with
  | tuple keys =>
    obtain ⟨hpristine, items, hitems, hlower, hall⟩ := hv
    exact ⟨ha.pristine hpristine, items, hkind.trans hitems, hlower, ha.bearsAll hall⟩
  | unhashable => exact ⟨ha.pristine hv.1, by rw [tag, hkind]; exact hv.2⟩
  | _ => exact ⟨ha.pristine hv.1, hkind.trans hv.2⟩

theorem Asked.bearsAll {keys : List Key} {items : List Value} (ha : h.Asked d h')
    (hall : h.BearsAll items keys) : h'.BearsAll items keys := by
  cases keys with
  | nil => exact hall
  | cons key keys =>
    obtain ⟨item, rest, rfl, hitem, hrest⟩ := hall
    exact ⟨item, rest, rfl, ha.bears hitem, ha.bearsAll hrest⟩

end

theorem Asked.holds (ha : h.Asked d h') (hv : h.Holds n v x) : h'.Holds n v x := by
  induction n generalizing v x with
  | zero => exact hv
  | succ n ih =>
    refine ⟨ha.pristine hv.1, ?_⟩
    rw [ha.kind v hv.1.lt]
    refine hv.2.imp (fun t value? _ hmaps => ?_) fun _ _ => ih
    exact hmaps.imp (fun _ _ hk => ⟨ha.bears hk.1, hk.2⟩) fun _ _ => ih

theorem Asked.sameContent (ha : h.Asked d h') (hv : h.Says v x) : h'.Says v x :=
  hv.imp fun _ => ha.holds

theorem Indexes.imp {holds holds' : Value → Data → Prop} {t : Table} {value? : Key → Option Data}
    {content : Value → Key} (ht : h.Indexes d n holds t value? content)
    (hshows : ∀ v k, h.Shows d v k → h'.Shows d v k) (hholds : ∀ v x, holds v x → holds' v x) :
    h'.Indexes d n holds' t value? content :=
  { ht with
    shows := fun key hkey => ⟨hshows _ _ (ht.shows key hkey).1, (ht.shows key hkey).2⟩
    sound := fun entry hentry =>
      have ⟨x, hx, h⟩ := ht.sound entry hentry
      ⟨x, hx, hholds _ _ h⟩ }

theorem Asked.presents (ha : h.Asked d h') (hv : h.Presents d n v x) : h'.Presents d n v x := by
  induction n generalizing v x with
  | zero => exact hv
  | succ n ih =>
    obtain ⟨hpristine, hcontents⟩ := hv
    refine ⟨ha.pristine hpristine, ?_⟩
    rw [ha.kind v hpristine.lt]
    refine hcontents.imp (fun t value? _ hindexes => ?_) fun _ _ => ih
    obtain ⟨content, hindexes⟩ := hindexes
    exact ⟨content, hindexes.imp (fun _ _ => ha.shows) fun _ _ => ih⟩

theorem Keyed.asked {owner : Value} {t : Table} {content : Value → Key} (ha : h.Asked d h')
    (ht : h.Keyed d n owner t content) : h'.Keyed d n owner t content where
  table := by rw [table?_eq_of_kind (ha.kind owner (lt_size_of_table? ht.table)), ht.table]
  keys key hkey := by
    obtain ⟨hshows, hhashable, hdepth⟩ := ht.keys key hkey
    exact ⟨ha.shows hshows, hhashable, hdepth⟩

theorem Keyed.mono {owner : Value} {t : Table} {content : Value → Key} {n' : Nat}
    (ht : h.Keyed d n owner t content) (hn : n ≤ n') : h.Keyed d n' owner t content where
  table := ht.table
  keys key hkey := by
    obtain ⟨hshows, hhashable, hdepth⟩ := ht.keys key hkey
    exact ⟨hshows, hhashable, Nat.lt_of_lt_of_le hdepth hn⟩

/-- A key that has a hash is stored. -/
theorem Keyed.put {owner key value : Value} {t : Table} {content : Value → Key} {k : Key}
    (ht : h.Keyed d n owner t content) (hkey : h.Shows d key k) (hcontent : content key = k)
    (hhashable : k.isHashable = true) (hdepth : k.depth < n) (hash : Int64) (position : Option Nat) :
    (h.setKind owner (.hash (t.put hash position key value))).Keyed d n owner
      (t.put hash position key value) content := by
  have howner : (h.table? owner).isSome = true := by rw [ht.table]; rfl
  refine ⟨table?_setKind ht.table, fun other hother => ?_⟩
  rcases Table.mem_keys_put hother with rfl | hother
  · exact ⟨hcontent ▸ hkey.setKind howner, hcontent ▸ hhashable, hcontent ▸ hdepth⟩
  · obtain ⟨hshows, hhas, hless⟩ := ht.keys other hother
    exact ⟨hshows.setKind howner, hhas, hless⟩

theorem Indexes.keyed {holds : Value → Data → Prop} {owner : Value} {t : Table}
    {value? : Key → Option Data} {content : Value → Key} (ht : h.Indexes d n holds t value? content)
    (htable : h.table? owner = some t) : h.Keyed d n owner t content :=
  ⟨htable, ht.shows⟩

theorem Indexes.asked {t : Table} {value? : Key → Option Data} {content : Value → Key}
    (ha : h.Asked d h') (ht : h.Indexes d n (h.Presents d n) t value? content) :
    h'.Indexes d n (h'.Presents d n) t value? content :=
  ht.imp (fun _ _ => ha.shows) fun _ _ => ha.presents

/-- What is asked is asked of an object that remembers what it remembers. -/
theorem Pristine.plain (hv : h.Pristine v) : h.Plain v (some (h.get v).hash) :=
  ⟨hv.lt, hv.untouched, .inr rfl⟩

/-! ## Tables as maps -/

section tables

variable {holds : Value → Data → Prop} {t : Table} {value? : Key → Option Data}
  {content : Value → Key} {k : Key}

theorem Indexes.mem_iff (ht : h.Indexes d n holds t value? content) :
    k ∈ t.keys.map content ↔ (value? k).isSome = true := by
  constructor
  · intro hk
    obtain ⟨key, hkey, rfl⟩ := List.mem_map.1 hk
    obtain ⟨entry, hentry, rfl⟩ := List.mem_map.1 hkey
    obtain ⟨x, hx, -⟩ := ht.sound entry hentry
    rw [hx]
    rfl
  · intro hk
    obtain ⟨x, hx⟩ := Option.isSome_iff_exists.1 hk
    exact ht.complete k x hx

theorem length_map_keys (t : Table) (content : Value → Key) :
    (t.keys.map content).length = t.entries.length := by
  rw [List.length_map, Table.keys, List.length_map]

variable {u : Table} {other? : Key → Option Data} {content' : Value → Key}

/-- Tables with as many entries have the same map as soon as one has all that the other one has. -/
theorem Indexes.eq_iff (ht : h.Indexes d n holds t value? content)
    (hu : h.Indexes d n holds u other? content') :
    value? = other? ↔ t.entries.length = u.entries.length ∧
      ∀ entry ∈ t.entries, other? (content entry.1) = value? (content entry.1) := by
  constructor
  · rintro rfl
    refine ⟨?_, fun _ _ => rfl⟩
    have hperm : (t.keys.map content).Perm (u.keys.map content') :=
      (List.perm_ext_iff_of_nodup ht.nodup hu.nodup).2 fun k => ht.mem_iff.trans hu.mem_iff.symm
    rw [← length_map_keys t content, ← length_map_keys u content']
    exact hperm.length_eq
  · rintro ⟨hlength, hall⟩
    have hsame : ∀ k ∈ t.keys.map content, other? k = value? k := by
      intro k hk
      obtain ⟨key, hkey, rfl⟩ := List.mem_map.1 hk
      obtain ⟨entry, hentry, rfl⟩ := List.mem_map.1 hkey
      exact hall entry hentry
    have hsubset : t.keys.map content ⊆ u.keys.map content' := fun k hk => by
      rw [hu.mem_iff, hsame k hk]
      exact ht.mem_iff.1 hk
    have hperm : (t.keys.map content).Perm (u.keys.map content') := by
      refine (List.subperm_of_subset ht.nodup hsubset).perm_of_length_le ?_
      rw [length_map_keys, length_map_keys, hlength]
    funext k
    by_cases hk : k ∈ t.keys.map content
    · exact (hsame k hk).symm
    · have hk' : k ∉ u.keys.map content' := fun h => hk (hperm.mem_iff.2 h)
      rw [ht.mem_iff, Option.not_isSome_iff_eq_none] at hk
      rw [hu.mem_iff, Option.not_isSome_iff_eq_none] at hk'
      rw [hk, hk']

end tables
end Heap

/-- A computation only asks, and tells whether something is so. -/
def Run.Decides (d : Digests) (x : Run Bool) (m : Machine) (p : Prop) : Prop :=
  ∃ b, x.Ends d m (.ok b) ∧ (b = true ↔ p)

namespace Run

variable {d : Digests} {m : Machine} {p q : Prop}

theorem decides_pure {b : Bool} (h : b = true ↔ p) : (pure b : Run Bool).Decides d m p :=
  ⟨b, ends_pure b, h⟩

theorem decides_read {g : Machine → Bool} (h : g m = true ↔ p) : (read g).Decides d m p :=
  ⟨g m, ends_read g, h⟩

theorem Decides.congr {x : Run Bool} (hx : x.Decides d m p) (h : p ↔ q) : x.Decides d m q := by
  obtain ⟨b, hb, hp⟩ := hx
  exact ⟨b, hb, hp.trans h⟩

theorem Decides.ends {x : Run Bool} [Decidable p] (hx : x.Decides d m p) :
    x.Ends d m (.ok (decide p)) := by
  obtain ⟨b, hb, hp⟩ := hx
  have hsame : b = decide p := by rw [Bool.eq_iff_iff, hp, decide_eq_true_iff]
  rwa [← hsame]

/-- What is so after something that only asks. -/
theorem Decides.after {x z : Run Bool} {h : Heap} (hx : x.Decides d { m with heap := h } p)
    (ha : m.heap.Asked d h) (hz : z m = x { m with heap := h }) : z.Decides d m p := by
  obtain ⟨b, hb, hp⟩ := hx
  exact ⟨b, hb.after ha hz, hp⟩

/-- A second question is only asked when the first one is answered with yes. -/
theorem Decides.and {x y : Run Bool} (hx : x.Decides d m p)
    (hy : ∀ h, m.heap.Asked d h → y.Decides d { m with heap := h } q) :
    (do if ← x then y else return false).Decides d m (p ∧ q) := by
  obtain ⟨b, hb, hp⟩ := hx
  cases b with
  | true =>
    obtain ⟨h, ha, hx⟩ := hb
    refine ((hy h ha).after ha ?_).congr ?_
    · simp only [Bind.bind, EStateM.bind, hx, if_true]
    · rw [and_iff_right (hp.1 rfl)]
  | false =>
    have hnot : ¬p := fun h => Bool.false_ne_true (hp.2 h)
    refine ⟨false, hb.bind fun h _ => ends_pure false, ?_⟩
    simp [hnot]

end Run

namespace Engine

variable {d : Digests} {m : Machine} {v w : Value} {n fuel : Nat} {x y : Data}

/-! ## Looking up -/

section lookup

variable {holds : Value → Data → Prop} {owner key v : Value} {t : Table}
  {value? : Key → Option Data} {content : Value → Key} {k : Key} {hash : Int64}

/-- A key is looked for among those of its hash. -/
theorem ends_locate_of_keyed (ht : m.heap.Keyed d n owner t content) (hkey : m.heap.Shows d key k)
    (hhash : k.hash? d = some hash) (hk : k.depth < fuel) (hn : n ≤ fuel) :
    ((withFuel fuel d).locate owner key).Ends d m
      (.ok (hash, (t.keysOf hash).findIdx? fun candidate => content candidate = k)) := by
  have hasked := ends_hashOf (d := d) hkey hk
  rw [hhash] at hasked
  refine hasked.bind fun h ha => ?_
  refine (ends_expectTable (m := { m with heap := h }) (ht.asked ha).table).bind fun h' ha' => ?_
  have hcandidates : ∀ candidate ∈ t.keysOf hash, h'.Shows d candidate (content candidate) ∧
      (content candidate).isHashable = true ∧ (content candidate).depth < fuel := by
    intro candidate hcandidate
    obtain ⟨hshows, hhashable, hdepth⟩ :=
      ((ht.asked ha).asked ha').keys candidate (Table.mem_keys_of_mem_keysOf hcandidate)
    exact ⟨hshows, hhashable, Nat.lt_of_lt_of_le hdepth hn⟩
  dsimp only
  rw [keep_withFuel]
  have hposition := ends_positionOf_candidates (m := { m with heap := h' })
    (ha'.shows (ha.shows hkey)) content hcandidates
  exact hposition.map (g := fun position => (hash, position))

/-- A key that is found is looked up as what its entry has. -/
theorem ends_stored?_of_finds (ht : m.heap.Keyed d n owner t content) (hkey : m.heap.Shows d key k)
    (hhash : k.hash? d = some hash) (hk : k.depth < fuel) (hn : n ≤ fuel)
    (hfinds : t.Finds hash (fun candidate => content candidate = k) v) :
    ((withFuel fuel d).stored? owner key).Ends d m (.ok (some v)) := by
  obtain ⟨i, hplace, hvalue⟩ := hfinds
  have hlocate := ends_locate_of_keyed ht hkey hhash hk hn
  rw [hplace] at hlocate
  rw [stored?, keep_withFuel]
  refine hlocate.bind fun h ha => ?_
  refine (ends_expectTable (m := { m with heap := h }) (ht.asked ha).table).bind fun h' _ => ?_
  exact hvalue ▸ ends_pure _

/-- A key is stored in the place where it is looked for. What shows a key still shows it. -/
theorem exists_assignHash_eq (ht : m.heap.Keyed d n owner t content) (hkey : m.heap.Shows d key k)
    (hcontent : content key = k) (hhashable : k.isHashable = true) (hhash : k.hash? d = some hash)
    (hk : k.depth < n) (hn : n ≤ fuel) (v : Value) :
    ∃ r m' t', Builtin.assignHash (withFuel fuel d) owner key v m = .ok r m' ∧
      m'.heap.Keyed d n owner t' content ∧
      t'.Finds hash (fun candidate => content candidate = k) v ∧
      (∀ old, t.Finds hash (fun candidate => content candidate = k) old → t'.keys = t.keys) ∧
      ∀ u l, m.heap.Shows d u l → m'.heap.Shows d u l := by
  obtain ⟨h, ha, hlocate⟩ := ends_locate_of_keyed ht hkey hhash (Nat.lt_of_lt_of_le hk hn) hn
  have hkeyed := ht.asked ha
  have howner : (h.table? owner).isSome = true := by rw [hkeyed.table]; rfl
  have htable := expectTable_of_table? (m := { m with heap := h }) hkeyed.table
  let position := (t.keysOf hash).findIdx? fun candidate => content candidate = k
  let stored := h.setKind owner (.hash (t.put hash position key v))
  have hnone : stored.Asked d (stored.alloc .none).2 := Heap.asked_alloc stored .none
  have hput : stored.Keyed d n owner (t.put hash position key v) content :=
    hkeyed.put (ha.shows hkey) hcontent hhashable hk hash position
  refine ⟨(stored.alloc .none).1, { m with heap := (stored.alloc .none).2 }, _, ?_, hput.asked hnone,
    Table.finds_put (by simpa using hcontent), fun old hold => hold.keys_put,
    fun u l hu => hnone.shows ((ha.shows hu).setKind howner)⟩
  simp only [Builtin.assignHash, store, keep_withFuel, bind, EStateM.bind, hlocate, htable]
  rfl

/-- What is stored under a key is what the map has under what the key says. -/
theorem ends_stored?_of_indexes (htable : m.heap.table? owner = some t)
    (ht : m.heap.Indexes d n holds t value? content) (hkey : m.heap.Shows d key k)
    (hhashable : k.isHashable = true) (hk : k.depth < fuel) (hn : n ≤ fuel) :
    ∃ r, ((withFuel fuel d).stored? owner key).Ends d m (.ok r) ∧ Option.Rel holds r (value? k) := by
  obtain ⟨hash, hhash⟩ := Key.exists_hash? d hhashable
  have hkeyed := ht.keyed htable
  cases hplace : (t.keysOf hash).findIdx? fun candidate => content candidate = k with
  | none =>
    have hlocate := ends_locate_of_keyed hkeyed hkey hhash hk hn
    rw [hplace] at hlocate
    have hnone : value? k = none := by
      refine Option.eq_none_iff_forall_not_mem.2 fun x hx => ?_
      obtain ⟨candidate, hcandidate, rfl⟩ := List.mem_map.1 (ht.complete k x hx)
      obtain ⟨hash', hhash', hmem⟩ := ht.placed candidate hcandidate
      obtain rfl : hash = hash' := Option.some.inj (hhash.symm.trans hhash')
      simpa using List.findIdx?_eq_none_iff.1 hplace candidate hmem
    refine ⟨none, ?_, hnone ▸ .none⟩
    rw [stored?, keep_withFuel]
    exact hlocate.bind fun h _ => ends_pure none
  | some i =>
    obtain ⟨hi, hfound, -⟩ := List.findIdx?_eq_some_iff_getElem.1 hplace
    have hlt : i < (t.bucket hash).length := by simpa using hi
    have hentry : (t.bucket hash)[i] ∈ t.entries :=
      Table.mem_entries_of_mem_bucket (List.getElem_mem hlt)
    have hcontent : content (t.bucket hash)[i].1 = k := by simpa [Table.keysOf] using hfound
    obtain ⟨x, hx, hholds⟩ := ht.sound _ hentry
    refine ⟨some (t.bucket hash)[i].2,
      ends_stored?_of_finds hkeyed hkey hhash hk hn ⟨i, hplace, by simp [hlt]⟩, ?_⟩
    rw [← hcontent, hx]
    exact .some hholds

end lookup

/-! ## Comparing what is in a container -/

/-- Whether values that say data in so many levels are compared by what they say. -/
def Compares (d : Digests) (n fuel : Nat) : Prop :=
  ∀ {m : Machine} {v w : Value} {x y : Data}, m.heap.Presents d n v x → m.heap.Presents d n w y →
    ((withFuel fuel d).equals v w).Decides d m (x = y)

theorem decides_allEqual (hequals : Compares d n fuel) {items others : List Value} {xs ys : List Data}
    (hitems : List.Forall₂ (m.heap.Presents d n) items xs)
    (hothers : List.Forall₂ (m.heap.Presents d n) others ys) (hlength : items.length = others.length) :
    (Builtin.allEqual (withFuel fuel d) items others).Decides d m (xs = ys) := by
  induction items generalizing m others xs ys with
  | nil =>
    cases hitems
    obtain rfl := List.length_eq_zero_iff.1 hlength.symm
    cases hothers
    exact decides_pure (by simp)
  | cons item rest ih =>
    obtain ⟨x, xs, hitem, hrest, rfl⟩ := List.forall₂_cons_left_iff.1 hitems
    cases others with
    | nil => cases hlength
    | cons other rest' =>
      obtain ⟨y, ys, hother, hrest', rfl⟩ := List.forall₂_cons_left_iff.1 hothers
      refine (Decides.and (hequals hitem hother) fun h ha => ?_).congr List.cons_eq_cons.symm
      exact ih (m := { m with heap := h }) (hrest.imp fun _ _ hx => ha.presents hx)
        (hrest'.imp fun _ _ hx => ha.presents hx) (Nat.succ.inj hlength)

section hashes

variable {other : Value} {t : Table} {value? other? : Key → Option Data}
  {content content' : Value → Key}

/-- All entries are looked up in the other Hash, until one is not found with an equal value. -/
theorem decides_entriesIn (value? : Key → Option Data) (hequals : Compares d n fuel)
    (htable : m.heap.table? other = some t)
      (ht : m.heap.Indexes d n (m.heap.Presents d n) t other? content') (hn : n ≤ fuel)
    {entries : List (Value × Value)}
    (hkeys : ∀ entry ∈ entries, m.heap.Shows d entry.1 (content entry.1) ∧
      (content entry.1).isHashable = true ∧ (content entry.1).depth < n)
    (hvalues : ∀ entry ∈ entries, ∃ x, value? (content entry.1) = some x ∧
      m.heap.Presents d n entry.2 x) :
    (Builtin.entriesIn (withFuel fuel d) other entries).Decides d m
      (∀ entry ∈ entries, other? (content entry.1) = value? (content entry.1)) := by
  induction entries generalizing m with
  | nil => exact decides_pure (by simp)
  | cons entry rest ih =>
    obtain ⟨⟨hshows, hhashable, hdepth⟩, hrestKeys⟩ := List.forall_mem_cons.1 hkeys
    obtain ⟨⟨x, hx, hpresents⟩, hrestValues⟩ := List.forall_mem_cons.1 hvalues
    obtain ⟨r, hstored, hrel⟩ := ends_stored?_of_indexes htable ht hshows hhashable
      (Nat.lt_of_lt_of_le hdepth hn) hn
    rw [List.forall_mem_cons]
    obtain ⟨h, ha, hstored⟩ := hstored
    generalize hother : other? (content entry.1) = y? at hrel
    cases hrel with
    | none =>
      refine (decides_pure (m := { m with heap := h }) (b := false) (by simp [hx])).after ha ?_
      simp only [Builtin.entriesIn, keep_withFuel, bind, EStateM.bind, hstored]
    | @some found y hfound =>
      have hcompare : (do
          if ← (withFuel fuel d).equals entry.2 found then
            Builtin.entriesIn (withFuel fuel d) other rest
          else return false).Decides d { m with heap := h }
            (x = y ∧ ∀ entry ∈ rest, other? (content entry.1) = value? (content entry.1)) := by
        refine Decides.and (hequals (ha.presents hpresents) (ha.presents hfound)) fun h' ha' => ?_
        have ha := ha.trans ha'
        refine ih (m := { m with heap := h' }) ?_ (.asked ha ht) (fun entry he => ?_) fun entry he => ?_
        · rw [Heap.table?_eq_of_kind (ha.kind other (Heap.lt_size_of_table? htable)), htable]
        · exact ⟨ha.shows (hrestKeys entry he).1, (hrestKeys entry he).2⟩
        · obtain ⟨x, hx, hpresents⟩ := hrestValues entry he
          exact ⟨x, hx, ha.presents hpresents⟩
      refine (hcompare.after ha ?_).congr ?_
      · simp only [Builtin.entriesIn, keep_withFuel, bind, EStateM.bind, hstored]
      · rw [hx, Option.some.injEq, eq_comm]

/-- Hashes are equal when they have equal maps. -/
theorem decides_equalHashes (hequals : Compares d n fuel) {this : Value} {u : Table}
    (hu : m.heap.table? this = some u) (htable : m.heap.table? other = some t)
    (hthis : m.heap.Indexes d n (m.heap.Presents d n) u value? content)
    (hother : m.heap.Indexes d n (m.heap.Presents d n) t other? content') (hn : n ≤ fuel) :
    (Builtin.equalHashes (withFuel fuel d) this other).Decides d m (value? = other?) := by
  have hentries := decides_entriesIn value? hequals htable hother hn
    (fun entry he => hthis.shows entry.1 (List.mem_map_of_mem he)) hthis.sound
  have hbody : Builtin.equalHashes (withFuel fuel d) this other m =
      (if u.entries.length = t.entries.length then
        Builtin.entriesIn (withFuel fuel d) other u.entries else pure false) m := by
    simp only [Builtin.equalHashes, bind, EStateM.bind, Run.read, htable, expectTable_of_table? hu,
      hother.size]
  refine Decides.after (h := m.heap) ?_ (.refl _) hbody
  rw [hthis.eq_iff hother]
  split
  · rename_i hlength
    exact hentries.congr (and_iff_right hlength).symm
  · rename_i hlength
    exact decides_pure (by simp [hlength])

end hashes

theorem expectItems_of_items? {items : List Value} (h : m.heap.items? v = some items) :
    Builtin.expectItems v m = .ok items m := by
  unfold Heap.items? at h
  simp only [Builtin.expectItems, bind, EStateM.bind, kindOf, Run.read]
  split at h <;> cases h
  all_goals
    rename_i hkind
    rw [hkind]
    rfl

/-- Sequences of one type are equal when they say the same. -/
theorem decides_equalSequences (hequals : Compares d n fuel) {items others : List Value}
    {xs ys : List Data} (htag : m.heap.tag v = m.heap.tag w)
    (hv : Builtin.expectItems v m = .ok items m) (hw : Builtin.expectItems w m = .ok others m)
    (hitems : List.Forall₂ (m.heap.Presents d n) items xs)
    (hothers : List.Forall₂ (m.heap.Presents d n) others ys) :
    (Builtin.equalSequences (withFuel fuel d) v w).Decides d m (xs = ys) := by
  have hbody : Builtin.equalSequences (withFuel fuel d) v w m =
      (if items.length = others.length then Builtin.allEqual (withFuel fuel d) items others
        else pure false) m := by
    simp only [Builtin.equalSequences, keep_withFuel, Builtin.haveSameTag, bind, EStateM.bind,
      Run.read, htag,
      decide_true, if_true, hv, hw]
  refine Decides.after (h := m.heap) ?_ (.refl _) hbody
  split
  · rename_i hlength
    exact decides_allEqual hequals hitems hothers hlength
  · rename_i hlength
    have hne : xs ≠ ys := fun heq =>
      hlength (by rw [hitems.length_eq, hothers.length_eq, heq])
    exact decides_pure (by simp [hne])

/-- Sequences of different types are not equal. -/
theorem decides_equalSequences_of_ne {p : Prop} (htag : m.heap.tag v ≠ m.heap.tag w) (hp : ¬p) :
    (Builtin.equalSequences (withFuel fuel d) v w).Decides d m p := by
  refine (decides_pure (b := false) (by simp [hp])).after (h := m.heap) (.refl _) ?_
  simp only [Builtin.equalSequences, Builtin.haveSameTag, read_bind, htag, decide_false,
    Bool.false_eq_true, if_false]

/-! ## Comparing -/

/-- What is behind the two symbols of equality on a type. -/
structure Answers (tag : TypeTag) (body : Engine → Value → Value → Run Bool) : Prop where
  supportsEquals : tag.supports .equals = true
  supportsNotEquals : tag.supports .notEquals = true
  equals : tag.method? .equals = some (.question false body)
  notEquals : tag.method? .notEquals = some (.question true body)

/-- Whatever says data answers whether it says the same as another value, one level further down. -/
theorem exists_answers (hequals : Compares d n fuel) (hn : n ≤ fuel)
    (hv : m.heap.Presents d (n + 1) v x) (hw : m.heap.Presents d (n + 1) w y) :
    ∃ body, Answers (m.heap.tag v) body ∧ ∀ h, m.heap.Asked d h →
      (body (withFuel fuel d) v w).Decides d { m with heap := h } (x = y) := by
  have hkind : ∀ {h : Heap} {u : Value} {z : Data}, m.heap.Asked d h →
      m.heap.Presents d (n + 1) u z → h.kind u = m.heap.kind u := fun ha hu => ha.kind _ hu.1.lt
  have hcontents := hv.2
  rw [Heap.tag]
  generalize hthis : m.heap.kind v = kind at hcontents
  cases hcontents with
  | none =>
    refine ⟨_, ⟨rfl, rfl, rfl, rfl⟩, fun h ha => decides_read ?_⟩
    have hother := hw.2
    simp only [Heap.isNone, hkind ha hw]
    generalize m.heap.kind w = kind at hother ⊢
    cases hother <;> simp
  | bool b =>
    refine ⟨_, ⟨rfl, rfl, rfl, rfl⟩, fun h ha => decides_read ?_⟩
    have hother := hw.2
    simp only [Heap.bool?, hkind ha hw, hkind ha hv, hthis]
    generalize m.heap.kind w = kind at hother ⊢
    cases hother <;> simp
  | integer i =>
    refine ⟨_, ⟨rfl, rfl, rfl, rfl⟩, fun h ha => decides_read ?_⟩
    have hother := hw.2
    simp only [hkind ha hw, hkind ha hv, hthis]
    generalize m.heap.kind w = kind at hother ⊢
    cases hother <;> simp [Number.ofKind?, Number.equal]
  | string s =>
    refine ⟨_, ⟨rfl, rfl, rfl, rfl⟩, fun h ha => decides_read ?_⟩
    have hother := hw.2
    simp only [Heap.text?, hkind ha hw, hkind ha hv, hthis]
    generalize m.heap.kind w = kind at hother ⊢
    cases hother <;> simp
  | bytes content =>
    refine ⟨_, ⟨rfl, rfl, rfl, rfl⟩, fun h ha => decides_read ?_⟩
    have hother := hw.2
    simp only [Heap.bytes?, hkind ha hw, hkind ha hv, hthis]
    generalize m.heap.kind w = kind at hother ⊢
    cases hother <;> simp
  | tuple hitems =>
    refine ⟨_, ⟨rfl, rfl, rfl, rfl⟩, fun h ha => ?_⟩
    have hkindThis : h.kind v = .tuple _ := (hkind ha hv).trans hthis
    have hother := (ha.presents hw).2
    generalize hkindOther : h.kind w = kind at hother
    cases hother with
    | tuple hothers =>
      refine (decides_equalSequences (m := { m with heap := h }) hequals ?_ ?_ ?_
        (hitems.imp fun _ _ => ha.presents) hothers).congr ?_
      · simp only [Heap.tag, hkindThis, hkindOther]; rfl
      · exact expectItems_of_items? (by simp only [Heap.items?, hkindThis])
      · exact expectItems_of_items? (by simp only [Heap.items?, hkindOther])
      · rw [Data.tuple.injEq]
    | _ =>
      refine decides_equalSequences_of_ne (m := { m with heap := h }) ?_ (by simp)
      simp [Heap.tag, hkindThis, hkindOther, Kind.tag]
  | array hitems =>
    refine ⟨_, ⟨rfl, rfl, rfl, rfl⟩, fun h ha => ?_⟩
    have hkindThis : h.kind v = .array _ := (hkind ha hv).trans hthis
    have hother := (ha.presents hw).2
    generalize hkindOther : h.kind w = kind at hother
    cases hother with
    | array hothers =>
      refine (decides_equalSequences (m := { m with heap := h }) hequals ?_ ?_ ?_
        (hitems.imp fun _ _ => ha.presents) hothers).congr ?_
      · simp only [Heap.tag, hkindThis, hkindOther]; rfl
      · exact expectItems_of_items? (by simp only [Heap.items?, hkindThis])
      · exact expectItems_of_items? (by simp only [Heap.items?, hkindOther])
      · rw [Data.array.injEq]
    | _ =>
      refine decides_equalSequences_of_ne (m := { m with heap := h }) ?_ (by simp)
      simp [Heap.tag, hkindThis, hkindOther, Kind.tag]
  | hash hindexes =>
    refine ⟨_, ⟨rfl, rfl, rfl, rfl⟩, fun h ha => ?_⟩
    obtain ⟨content, hindexes⟩ := hindexes
    have hkindThis : h.kind v = .hash _ := (hkind ha hv).trans hthis
    have hother := (ha.presents hw).2
    generalize hkindOther : h.kind w = kind at hother
    cases hother with
    | hash hothers =>
      obtain ⟨content', hothers⟩ := hothers
      refine (decides_equalHashes (m := { m with heap := h }) hequals (Heap.table?_of_kind hkindThis)
        (Heap.table?_of_kind hkindOther) (.asked ha hindexes) hothers hn).congr ?_
      rw [Data.hash.injEq]
    | _ =>
      refine (decides_pure (b := false) (by simp)).after (h := h) (.refl _) ?_
      simp only [Builtin.equalHashes, read_bind, Heap.table?, hkindOther]

/-- Values that say data are compared by what they say. -/
theorem compares (d : Digests) (n : Nat) {fuel : Nat} (hn : n ≤ fuel) : Compares d n fuel := by
  classical
  induction n generalizing fuel with
  | zero => exact fun hv _ => hv.elim
  | succ n ih =>
    intro m v w x y hv hw
    obtain ⟨fuel, rfl⟩ := Nat.exists_eq_add_one_of_ne_zero (Nat.ne_zero_of_lt hn)
    have hn : n ≤ fuel := Nat.le_of_succ_le_succ hn
    obtain ⟨body, hanswers, hbody⟩ := exists_answers (ih hn) hn hv hw
    exact ⟨_, ends_equals_of_body hv.1.plain rfl hanswers.supportsEquals hanswers.equals
      fun h ha => (hbody h ha).ends, decide_eq_true_iff⟩

/-- The other operator of equality says the opposite. -/
theorem exists_notEquals_eq {n fuel : Nat} (hn : n ≤ fuel) (hv : m.heap.Presents d n v x)
    (hw : m.heap.Presents d n w y) :
    ∃ b h, m.heap.Asked d h ∧ (b = true ↔ x = y) ∧
      (withFuel fuel d).operation .notEquals v w m = newBool (!b) { m with heap := h } := by
  classical
  cases n with
  | zero => exact hv.elim
  | succ n =>
    obtain ⟨fuel, rfl⟩ := Nat.exists_eq_add_one_of_ne_zero (Nat.ne_zero_of_lt hn)
    have hn : n ≤ fuel := Nat.le_of_succ_le_succ hn
    obtain ⟨body, hanswers, hbody⟩ := exists_answers (compares d n hn) hn hv hw
    obtain ⟨h, ha, hanswer⟩ := exists_operation_eq .notEquals hv.1.plain
      hanswers.supportsNotEquals rfl hanswers.notEquals fun h ha => (hbody h ha).ends
    exact ⟨decide (x = y), h, ha, decide_eq_true_iff, by rw [hanswer, Bool.true_bne]⟩

end Engine
end ScriptVM
