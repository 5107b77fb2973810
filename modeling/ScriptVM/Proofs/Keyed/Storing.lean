import ScriptVM.Proofs.Composition.Text
import ScriptVM.Proofs.Keyed.Comparing
import ScriptVM.Proofs.Keyed.Ledger
import ScriptVM.Proofs.Storage
import ScriptVM.Proofs.Table

/-!
# Finding and storing keys

A Hash whose table follows a ledger of known keys finds a key where the ledger has it, whatever the
hashes are and whichever of them are the same, and a store is one more assignment. Finding a key only
asks; a store changes the table of the Hash besides and no other object.
-/

/-! ## Tables that follow a ledger

The buckets of a table against the ledger of what was assigned: a bucket for each hash that came up,
in this order, with the entries of that hash, and the number of all entries. A store under a key, at
the place that its entry has in its bucket, is one more assignment in the ledger.
-/

namespace ScriptVM

variable {α : Type} {d : Digests} {value : α → Value} {l : Ledger α} {a : Assignment α} {t : Table}
  {hash other : Int64}

/-- The key and the value of an assignment, as the entry of a table. -/
def Assignment.entry (value : α → Value) (a : Assignment α) : Value × Value :=
  (value a.key, value a.value)

namespace Table

/-- Whether a table has what was assigned, when names in the ledger stand for values. -/
structure Follows (t : Table) (d : Digests) (value : α → Value) (l : Ledger α) : Prop where
  hashes : t.buckets.map (·.hash) = l.hashes d
  bucket : ∀ hash, t.bucket hash = (l.bucket d hash).map (·.entry value)
  size : t.size = t.entries.length

theorem follows_empty : empty.Follows d value ([] : Ledger α) := ⟨rfl, fun _ => rfl, rfl⟩

/-! ## Stores -/

theorem hashes_addTo (hash : Int64) (entry : Value × Value) (buckets : List Bucket) :
    (addTo hash entry buckets).map (·.hash) =
      if hash ∈ buckets.map (·.hash) then buckets.map (·.hash)
      else buckets.map (·.hash) ++ [hash] := by
  induction buckets with
  | nil => rfl
  | cons b rest ih =>
    by_cases hb : b.hash = hash
    · simp [addTo, hb]
    · have hne : hash ≠ b.hash := fun e => hb e.symm
      simp only [addTo, if_neg hb, List.map_cons, ih, List.mem_cons, hne, false_or]
      split <;> rfl

theorem hashes_replaceIn (hash : Int64) (position : Nat) (value : Value) (buckets : List Bucket) :
    (replaceIn hash position value buckets).map (·.hash) = buckets.map (·.hash) := by
  induction buckets with
  | nil => rfl
  | cons b rest ih =>
    simp only [replaceIn]
    split
    · rfl
    · simp only [List.map_cons, ih]

/-- Changing an entry in its place, among entries whose keys are different. -/
theorem modify_findIdx? {es : List (Assignment α)} (hes : (es.map (·.content)).Nodup) {i : Nat}
    (hi : es.findIdx? (fun e => e.content = a.content) = some i) :
    (es.map (·.entry value)).modify i (fun entry => (entry.1, value a.value)) =
      (es.map (Ledger.overwrite a)).map (·.entry value) := by
  induction es generalizing i with
  | nil => cases hi
  | cons e rest ih =>
    obtain ⟨hnot, hrest⟩ := List.nodup_cons.1 hes
    rw [List.findIdx?_cons] at hi
    by_cases he : e.content = a.content
    · obtain rfl : 0 = i := by simpa [he] using hi
      have hothers : rest.map (Ledger.overwrite a) = rest := by
        refine (List.map_congr_left fun other hother => ?_).trans (List.map_id rest)
        have hne : other.content ≠ a.content := fun heq =>
          hnot (List.mem_map.2 ⟨other, hother, heq.trans he.symm⟩)
        rw [Ledger.overwrite, if_neg hne, id]
      rw [List.map_cons, List.map_cons, hothers, Ledger.overwrite, if_pos he]
      rfl
    · rw [if_neg (by simpa using he)] at hi
      obtain ⟨j, hj, rfl⟩ := Option.map_eq_some_iff.1 hi
      rw [List.map_cons, List.modify_succ_cons, ih hrest hj, List.map_cons, List.map_cons,
        Ledger.overwrite, if_neg he]

/-- A store under a key, in the place of its entry, is an assignment. -/
theorem Follows.put (ht : t.Follows d value l) (ha : a.content.hash? d = some hash) :
    (t.put hash (l.place? d hash a.content) (value a.key) (value a.value)).Follows d value
      (l ++ [a]) := by
  have hsize := size_put ht.size hash (l.place? d hash a.content) (value a.key) (value a.value)
  cases hplace : l.place? d hash a.content with
  | none =>
    have hnot := (Ledger.place?_eq_none ha).1 hplace
    refine ⟨?_, fun other => ?_, hplace ▸ hsize⟩
    · rw [Ledger.hashes_assign_of_not_mem hnot ha, ← ht.hashes]
      exact hashes_addTo hash _ t.buckets
    · rw [bucket_put_none, ht.bucket, Ledger.bucket_assign_of_not_mem hnot ha, List.map_append]
      split <;> rfl
  | some i =>
    have hmem : a.content ∈ l.contents := Decidable.not_not.1 fun hnot => by
      simp [(Ledger.place?_eq_none ha).2 hnot] at hplace
    have hlt : i < (t.bucket hash).length := by
      rw [ht.bucket, List.length_map]
      exact Ledger.lt_of_place? hplace
    refine ⟨?_, fun other => ?_, hplace ▸ hsize⟩
    · rw [Ledger.hashes_assign_of_mem hmem, ← ht.hashes]
      simp only [Table.put, hlt, if_true, hashes_replaceIn]
    · rw [bucket_put_some hlt, Ledger.bucket_assign_of_mem hmem]
      by_cases hother : hash = other
      · subst hother
        rw [if_pos rfl, ht.bucket, modify_findIdx? (l.nodup_content_bucket d hash) hplace]
      · rw [if_neg hother, ht.bucket, Ledger.map_overwrite_bucket_of_ne ha hother]

/-! ## All entries -/

/-- All entries, bucket by bucket. -/
theorem entries_eq_flatMap_bucket (ht : (t.buckets.map (·.hash)).Nodup) :
    t.entries = (t.buckets.map (·.hash)).flatMap t.bucket := by
  obtain ⟨buckets, size⟩ := t
  induction buckets with
  | nil => rfl
  | cons b rest ih =>
    obtain ⟨hnot, hrest⟩ := List.nodup_cons.1 ht
    have hfirst : bucket ⟨b :: rest, size⟩ b.hash = b.entries := by simp [bucket]
    have hothers : (rest.map (·.hash)).flatMap (bucket ⟨b :: rest, size⟩) =
        (rest.map (·.hash)).flatMap (bucket ⟨rest, size⟩) := by
      refine List.flatMap_congr fun hash hmem => ?_
      have hne : b.hash ≠ hash := by
        rintro rfl
        exact hnot hmem
      simp [bucket, hne]
    rw [List.map_cons, List.flatMap_cons, hfirst, hothers, ← ih hrest]
    rfl

/-- The keys of a table are listed as those of its ledger. -/
theorem Follows.keys (ht : t.Follows d value l) :
    t.keys = (l.listed d).map fun e => value e.key := by
  rw [Table.keys, entries_eq_flatMap_bucket (ht.hashes ▸ l.nodup_hashes d), ht.hashes, Ledger.listed,
    List.map_flatMap, List.map_flatMap]
  simp only [ht.bucket, List.map_map]
  rfl

end Table
end ScriptVM

namespace ScriptVM

open Run

variable {α : Type} {d : Digests} {value : α → Value} {l : Ledger α} {h h' : Heap} {m : Machine}
  {owner key : Value} {k : Key} {fuel : Nat}

/-- Whether a Hash has what was assigned, under keys that are known. -/
structure Heap.Files (h : Heap) (d : Digests) (owner : Value) (value : α → Value) (l : Ledger α) :
    Prop where
  plain : h.Shows d owner .unhashable
  table : ∃ t, h.table? owner = some t ∧ t.Follows d value l
  keys : ∀ a ∈ l, h.Shows d (value a.key) a.content
  hashable : ∀ k ∈ l.contents, k.isHashable = true

namespace Heap

theorem table?_eq_of_kind (hkind : h'.kind owner = h.kind owner) :
    h'.table? owner = h.table? owner := by
  rw [table?, table?, hkind]

/-- What only asks leaves every Hash as it is. -/
theorem Asked.files (ha : h.Asked d h') (hf : h.Files d owner value l) :
    h'.Files d owner value l where
  plain := ha.shows hf.plain
  table := table?_eq_of_kind (ha.kind owner hf.plain.lt) ▸ hf.table
  keys a hmem := ha.shows (hf.keys a hmem)
  hashable := hf.hashable

theorem Files.shows_entry (hf : h.Files d owner value l) {e : Assignment α}
    (he : e ∈ l.entries) : h.Shows d (value e.key) e.content := by
  obtain ⟨⟨a, ha, hcontent, hkey⟩, -⟩ := Ledger.exists_of_mem_entries he
  exact hcontent ▸ hkey ▸ hf.keys a ha

/-- What shows a key goes on showing it when a Hash has other entries. -/
theorem Shows.setKind {t : Table} {v : Value} (hv : h.Shows d v k)
    (howner : (h.table? owner).isSome = true) : (h.setKind owner (.hash t)).Shows d v k := by
  obtain ⟨before, hbefore⟩ := Option.isSome_iff_exists.1 howner
  refine hv.of_plain (fun v _ => ?_) fun v k hv => ⟨by simpa [Heap.setKind] using hv.lt, ?_⟩
  · by_cases hsame : v = owner
    · subst hsame
      exact .inr ⟨howner, by rw [table?_setKind hbefore]; rfl⟩
    · refine .inl ?_
      rw [Heap.kind, Heap.setKind, get_modify_of_ne h _ hsame, Heap.kind]
  · rcases h.get_modify owner v fun o => { o with kind := .hash t } with ⟨hget, rfl⟩ | hget
    · rw [Heap.setKind, hget]
      have htag : (h.get v).kind.tag = .hash := congrArg Kind.tag (kind_of_table? hbefore)
      refine ⟨fun name member hmember => ?_, hv.plain.object.memo⟩
      obtain ⟨s, hs, hname, hsupports⟩ := hv.plain.object.notes name member hmember
      rw [htag] at hsupports
      exact ⟨s, hs, hname, hsupports⟩
    · rw [Heap.setKind, hget]
      exact hv.plain.object

/-- A Hash stays as it is when another one has other entries. -/
theorem Files.setKind_of_ne {t : Table} {other : Value} (hf : h.Files d owner value l)
    (hother : (h.table? other).isSome = true) (hne : owner ≠ other) :
    (h.setKind other (.hash t)).Files d owner value l where
  plain := hf.plain.setKind hother
  table := by
    have hkind : (h.setKind other (.hash t)).kind owner = h.kind owner := by
      rw [Heap.kind, Heap.setKind, get_modify_of_ne h _ hne, Heap.kind]
    rw [table?_eq_of_kind hkind]
    exact hf.table
  keys a hmem := (hf.keys a hmem).setKind hother
  hashable := hf.hashable

/-- A Hash whose table follows a longer ledger. -/
theorem Files.setKind {t : Table} {a : Assignment α} (hf : h.Files d owner value l)
    (ht : t.Follows d value (l ++ [a])) (hkey : h.Shows d (value a.key) a.content)
    (hhash : a.content.isHashable = true) :
    (h.setKind owner (.hash t)).Files d owner value (l ++ [a]) := by
  obtain ⟨before, hbefore, -⟩ := hf.table
  have howner : (h.table? owner).isSome = true := by rw [hbefore]; rfl
  refine ⟨hf.plain.setKind howner, ⟨t, table?_setKind hbefore, ht⟩, fun b hb => ?_, fun k hk => ?_⟩
  · rcases List.mem_append.1 hb with hb | hb
    · exact (hf.keys b hb).setKind howner
    · obtain rfl := List.mem_singleton.1 hb
      exact hkey.setKind howner
  · rcases Ledger.mem_contents_assign.1 hk with hk | rfl
    · exact hf.hashable k hk
    · exact hhash

/-! ## Texts -/

mutual

/-- A key has a text, because the elements of a tuple were there before it. -/
theorem Shows.fits_text {k : Key} {v : Value} {n : Nat} (quoted : Bool) (hv : h.Shows d v k)
    (hk : k.isHashable = true) (hn : v.address < n) : (h.textWithin n quoted v).isSome = true := by
  obtain ⟨n, rfl⟩ := Nat.exists_eq_add_one_of_ne_zero (Nat.ne_zero_of_lt hn)
  rw [isSome_textWithin]
  cases k with
  | tuple keys =>
    obtain ⟨-, items, hitems, hlower, hall⟩ := hv
    rw [parts, hitems]
    exact ShowsAll.fits_text hall hk fun item hitem =>
      Nat.lt_of_lt_of_le (hlower item hitem) (Nat.le_of_lt_succ hn)
  | unhashable => cases hk
  | _ => simp [parts, hv.2]

theorem ShowsAll.fits_text {keys : List Key} {items : List Value} {n : Nat}
    (hall : h.ShowsAll d items keys) (hk : Key.areHashable keys = true)
    (hn : ∀ item ∈ items, item.address < n) : ∀ item ∈ items, h.Fits n item := by
  cases keys with
  | nil =>
    cases hall
    exact fun item hitem => nomatch hitem
  | cons key keys =>
    obtain ⟨item, rest, rfl, hitem, hrest⟩ := hall
    rw [Key.areHashable, Bool.and_eq_true] at hk
    rw [List.forall_mem_cons] at hn ⊢
    exact ⟨Shows.fits_text true hitem hk.1 hn.1, ShowsAll.fits_text hrest hk.2 hn.2⟩

end

end Heap

theorem Run.exists_ends_repr (hkey : m.heap.Shows d key k) (hhash : k.isHashable = true) :
    ∃ text, (repr key).Ends d m (.ok text) := by
  obtain ⟨text, htext⟩ := Option.isSome_iff_exists.1
    (hkey.fits_text true hhash (Nat.lt_succ_of_lt hkey.lt))
  refine ⟨text, (ends_pure text).after (.refl _) ?_⟩
  rw [repr, read_bind, Heap.repr?, Heap.nestingBound, htext]

namespace Engine

/-! ## Finding -/

/-- A key is found at the first candidate that shows the same. -/
theorem ends_positionOf (hkey : m.heap.Shows d key k) {es : List (Assignment α)}
    (hes : ∀ e ∈ es, m.heap.Shows d (value e.key) e.content ∧ e.content.isHashable = true ∧
      e.content.depth < fuel) (n : Nat) :
    ((withFuel fuel d).positionOf key n (es.map fun e => value e.key)).Ends d m
      (.ok ((es.findIdx? fun e => e.content = k).map (n + ·))) := by
  induction es generalizing m n with
  | nil => exact ends_pure none
  | cons e rest ih =>
    obtain ⟨⟨hshows, hhash, hdepth⟩, hrest⟩ := List.forall_mem_cons.1 hes
    rw [List.map_cons, positionOf, List.findIdx?_cons]
    split
    · rename_i hsame
      have hcontent : e.content = k := (hsame ▸ hshows).unique hkey
      simpa [hcontent] using ends_pure (some n)
    · refine (ends_equals hshows hkey hhash hdepth).bind fun h ha => ?_
      by_cases hcontent : e.content = k
      · simpa [hcontent] using ends_pure (some n)
      · have hothers := ih (m := { m with heap := h }) (ha.shows hkey)
          (fun e he => ⟨ha.shows (hrest e he).1, (hrest e he).2⟩) (n + 1)
        simpa [hcontent, Option.map_map, Function.comp_def, Nat.add_assoc, Nat.add_comm 1]
          using hothers

/-- The same, when it is told by the candidates themselves what they show. -/
theorem ends_positionOf_candidates (hkey : m.heap.Shows d key k) {candidates : List Value}
    (content : Value → Key) (hcandidates : ∀ candidate ∈ candidates,
      m.heap.Shows d candidate (content candidate) ∧ (content candidate).isHashable = true ∧
        (content candidate).depth < fuel) :
    ((withFuel fuel d).positionOf key 0 candidates).Ends d m
      (.ok (candidates.findIdx? fun candidate => content candidate = k)) := by
  let es : List (Assignment Value) :=
    candidates.map fun candidate => ⟨content candidate, candidate, candidate⟩
  have hkeys : es.map (fun e => id e.key) = candidates := by
    simp only [es, List.map_map]
    exact List.map_id _
  have hplace : (es.findIdx? fun e => e.content = k) =
      candidates.findIdx? fun candidate => content candidate = k := by
    rw [List.findIdx?_map]
    rfl
  have hes : ∀ e ∈ es, m.heap.Shows d (id e.key) e.content ∧ e.content.isHashable = true ∧
      e.content.depth < fuel := by
    intro e he
    obtain ⟨candidate, hcandidate, rfl⟩ := List.mem_map.1 he
    exact hcandidates candidate hcandidate
  have hposition := ends_positionOf hkey hes 0
  rw [hkeys, hplace] at hposition
  simpa using hposition

theorem ends_expectTable {t : Table} (ht : m.heap.table? owner = some t) :
    (expectTable owner).Ends d m (.ok t) :=
  ⟨m.heap, .refl _, expectTable_of_table? ht⟩

/-- The place of a key in its bucket is that of its entry in the ledger. -/
theorem ends_locate {hash : Int64} (hf : m.heap.Files d owner value l)
    (hkey : m.heap.Shows d key k) (hhash : k.hash? d = some hash) (hk : k.depth < fuel)
    (hl : ∀ k ∈ l.contents, k.depth < fuel) :
    ((withFuel fuel d).locate owner key).Ends d m
      (.ok (hash, l.place? d hash k)) := by
  have hasked := ends_hashOf (d := d) hkey hk
  rw [hhash] at hasked
  refine hasked.bind fun h ha => ?_
  obtain ⟨t, ht, hfollows⟩ := (ha.files hf).table
  refine (ends_expectTable ht).bind fun h' ha' => ?_
  have hcandidates : (t.bucket hash).map (·.1) = (l.bucket d hash).map fun e => value e.key := by
    rw [hfollows.bucket, List.map_map]
    rfl
  have hes : ∀ e ∈ l.bucket d hash, h'.Shows d (value e.key) e.content ∧
      e.content.isHashable = true ∧ e.content.depth < fuel := by
    intro e he
    have hentry := (Ledger.mem_bucket.1 he).1
    have hcontent := Ledger.content_mem_contents hentry
    exact ⟨(ha'.files (ha.files hf)).shows_entry hentry, hf.hashable _ hcontent, hl _ hcontent⟩
  have hposition := ends_positionOf (m := { m with heap := h' }) (ha'.shows (ha.shows hkey)) hes 0
  rw [← hcandidates] at hposition
  simpa [Except.map, Ledger.place?] using hposition.map (g := fun position => (hash, position))

/-- Without a hash, nothing is looked for. -/
theorem ends_locate_of_not_isHashable (hkey : m.heap.Shows d key k) (hk : k.depth < fuel)
    (hhash : k.isHashable = false) :
    ((withFuel fuel d).locate owner key).Ends d m (.error "UnhashableTypeError") := by
  have hnone : k.hash? d = none := by
    rw [← Option.isNone_iff_eq_none, ← Option.not_isSome, Key.isSome_hash?, hhash]
    rfl
  have hasked := ends_hashOf (d := d) hkey hk
  rw [hnone] at hasked
  exact hasked.bind_error

/-- What is stored under a key is what was assigned last. -/
theorem ends_stored? (hf : m.heap.Files d owner value l) (hkey : m.heap.Shows d key k)
    (hhash : k.isHashable = true) (hk : k.depth < fuel) (hl : ∀ k ∈ l.contents, k.depth < fuel) :
    ((withFuel fuel d).stored? owner key).Ends d m
      (.ok ((l.last? k).map fun a => value a.value)) := by
  obtain ⟨hash, hsome⟩ := Key.exists_hash? d hhash
  rw [stored?, keep_withFuel]
  refine (ends_locate hf hkey hsome hk hl).bind fun h ha => ?_
  obtain ⟨t, ht, hfollows⟩ := (ha.files hf).table
  cases hplace : l.place? d hash k with
  | none =>
    rw [Ledger.last?_eq_none.2 ((Ledger.place?_eq_none hsome).1 hplace)]
    exact ends_pure none
  | some i =>
    refine (ends_expectTable ht).bind fun h' ha' => ?_
    have hvalue : ((t.bucket hash)[i]?).map (·.2) = (l.last? k).map fun a => value a.value := by
      have hentry := l.map_value_entryFor? k
      rw [← Ledger.getElem?_of_place? hsome hplace] at hentry
      rw [hfollows.bucket, List.getElem?_map, Option.map_map]
      simpa [Function.comp_def, Assignment.entry] using congrArg (Option.map value) hentry
    exact hvalue ▸ ends_pure _

/-- Whether a key is present is whether anything was assigned under it. -/
theorem ends_isStored (hf : m.heap.Files d owner value l) (hkey : m.heap.Shows d key k)
    (hhash : k.isHashable = true) (hk : k.depth < fuel) (hl : ∀ k ∈ l.contents, k.depth < fuel) :
    ((withFuel fuel d).isStored owner key).Ends d m (.ok (l.last? k).isSome) := by
  obtain ⟨hash, hsome⟩ := Key.exists_hash? d hhash
  have hlocated := (ends_locate hf hkey hsome hk hl).map (g := fun r => r.2.isSome)
  have hpresent : (l.place? d hash k).isSome = (l.last? k).isSome := by
    rw [Bool.eq_iff_iff, Option.isSome_iff_ne_none, Option.isSome_iff_ne_none, Ne, Ne,
      Ledger.place?_eq_none hsome, Ledger.last?_eq_none]
  rw [← hpresent, isStored, keep_withFuel]
  exact hlocated

theorem ends_stored?_of_not_isHashable (hkey : m.heap.Shows d key k) (hk : k.depth < fuel)
    (hhash : k.isHashable = false) :
    ((withFuel fuel d).stored? owner key).Ends d m (.error "UnhashableTypeError") := by
  rw [stored?, keep_withFuel]
  exact (ends_locate_of_not_isHashable hkey hk hhash).bind_error

theorem ends_isStored_of_not_isHashable (hkey : m.heap.Shows d key k) (hk : k.depth < fuel)
    (hhash : k.isHashable = false) :
    ((withFuel fuel d).isStored owner key).Ends d m (.error "UnhashableTypeError") := by
  rw [isStored, keep_withFuel]
  exact (ends_locate_of_not_isHashable hkey hk hhash).bind_error

/-! ## Storing -/

/-- A store asks the keys, and puts the table of one more assignment in the place of the other. -/
theorem exists_store_eq {a : Assignment α} (hf : m.heap.Files d owner value l)
    (hkey : m.heap.Shows d (value a.key) a.content) (hhash : a.content.isHashable = true)
    (hk : a.content.depth < fuel) (hl : ∀ k ∈ l.contents, k.depth < fuel) :
    ∃ h t, m.heap.Asked d h ∧ t.Follows d value (l ++ [a]) ∧
      (withFuel fuel d).store owner (value a.key) (value a.value) m =
        .ok () { m with heap := h.setKind owner (.hash t) } := by
  obtain ⟨hash, hsome⟩ := Key.exists_hash? d hhash
  obtain ⟨h, ha, hlocate⟩ := ends_locate hf hkey hsome hk hl
  obtain ⟨t, ht, hfollows⟩ := (ha.files hf).table
  refine ⟨h, _, ha, hfollows.put hsome, ?_⟩
  have htable := expectTable_of_table? (m := { m with heap := h }) ht
  simp only [store, keep_withFuel, bind, EStateM.bind, hlocate, htable]
  rfl

/-- A key without a hash is not stored, and nothing else is. -/
theorem ends_store_of_not_isHashable {v : Value} (hkey : m.heap.Shows d key k)
    (hk : k.depth < fuel) (hhash : k.isHashable = false) :
    ((withFuel fuel d).store owner key v).Ends d m (.error "UnhashableTypeError") := by
  rw [store, keep_withFuel]
  exact (ends_locate_of_not_isHashable hkey hk hhash).bind_error

end Engine
end ScriptVM
