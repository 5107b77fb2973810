import ScriptVM.Proofs.Keyed.Key
import Mathlib.Data.List.Induction
import Mathlib.Data.List.Nodup
import Mathlib.Data.List.Perm.Subperm

/-!
# What was assigned to a Hash

A ledger keeps every assignment, oldest first, and says what a Hash should do from that alone. Under
a key counts what was assigned last; of equal keys the first one stays, and in its place. Keys are
listed by their hashes, in the order in which the hashes came up, and those of one hash in the order
in which they were first assigned.
-/
namespace ScriptVM

/-- A value that is assigned under a key of some content. -/
structure Assignment (α : Type) where
  content : Key
  key : α
  value : α

/-- The assignments so far, oldest first. -/
abbrev Ledger (α : Type) := List (Assignment α)

namespace Ledger

variable {α : Type} {l : Ledger α} {a e : Assignment α} {k : Key} {d : Digests} {hash other : Int64}

/-- The first assignment under a key. -/
def first? (l : Ledger α) (k : Key) : Option (Assignment α) := l.find? fun a => a.content = k

/-- The last assignment under a key. -/
def last? (l : Ledger α) (k : Key) : Option (Assignment α) := first? l.reverse k

/-- The different keys, in the order of their first assignments. -/
def contents (l : Ledger α) : List Key := (l.map (·.content)).eraseDups

/-- What there is under a key: the key as it came first, and the last value. -/
def entryFor? (l : Ledger α) (k : Key) : Option (Assignment α) := do
  return ⟨k, (← l.first? k).key, (← l.last? k).value⟩

/-- One entry for each key. -/
def entries (l : Ledger α) : List (Assignment α) := l.contents.filterMap l.entryFor?

/-- The entries whose keys have a given hash. -/
def bucket (l : Ledger α) (d : Digests) (hash : Int64) : List (Assignment α) :=
  l.entries.filter fun e => e.content.hash? d = some hash

/-- The different hashes of the keys, in the order in which they came up. -/
def hashes (l : Ledger α) (d : Digests) : List Int64 := (l.contents.filterMap (·.hash? d)).eraseDups

/-- All entries in the order in which they are listed. -/
def listed (l : Ledger α) (d : Digests) : List (Assignment α) := (l.hashes d).flatMap (l.bucket d)

/-! ## Keys -/

theorem eraseDups_append_singleton {β : Type} [DecidableEq β] (bs : List β) (b : β) :
    (bs ++ [b]).eraseDups = if b ∈ bs then bs.eraseDups else bs.eraseDups ++ [b] := by
  rw [List.eraseDups_append]
  split
  · rename_i hmem
    simp [List.removeAll, hmem]
  · rename_i hmem
    simp [List.removeAll, hmem, List.eraseDups_cons]

theorem nodup_eraseDups {β : Type} [DecidableEq β] (bs : List β) : bs.eraseDups.Nodup := by
  induction bs using List.reverseRecOn with
  | nil => simp
  | append_singleton bs b ih =>
    rw [eraseDups_append_singleton]
    split
    · exact ih
    · rename_i hmem
      rw [List.nodup_append_comm]
      exact List.nodup_cons.2 ⟨fun h => hmem (List.mem_eraseDups.1 h), ih⟩

theorem nodup_contents (l : Ledger α) : l.contents.Nodup := nodup_eraseDups _

theorem mem_contents : k ∈ l.contents ↔ ∃ a ∈ l, a.content = k := by
  rw [contents, List.mem_eraseDups, List.mem_map]

theorem mem_contents_assign : k ∈ (l ++ [a]).contents ↔ k ∈ l.contents ∨ k = a.content := by
  simp [contents, eq_comm]

theorem contents_assign_of_mem (h : a.content ∈ l.contents) : (l ++ [a]).contents = l.contents := by
  rw [contents, List.map_append, List.map_singleton, eraseDups_append_singleton, if_pos]
  · rfl
  · exact List.mem_eraseDups.1 h

theorem contents_assign_of_not_mem (h : a.content ∉ l.contents) :
    (l ++ [a]).contents = l.contents ++ [a.content] := by
  rw [contents, List.map_append, List.map_singleton, eraseDups_append_singleton, if_neg]
  · rfl
  · exact fun hmem => h (List.mem_eraseDups.2 hmem)

/-! ## Entries -/

theorem first?_eq_none : l.first? k = none ↔ k ∉ l.contents := by
  simp [first?, mem_contents]

theorem last?_eq_none : l.last? k = none ↔ k ∉ l.contents := by
  simp [last?, first?, mem_contents]

theorem mem_of_last? (h : l.last? k = some a) : a ∈ l :=
  List.mem_reverse.1 (List.mem_of_find?_eq_some h)

theorem first?_assign (l : Ledger α) (a : Assignment α) (k : Key) :
    (l ++ [a]).first? k = (l.first? k).or (if a.content = k then some a else none) := by
  by_cases h : a.content = k <;> simp [first?, List.find?_append, h]

theorem last?_assign (l : Ledger α) (a : Assignment α) (k : Key) :
    (l ++ [a]).last? k = if a.content = k then some a else l.last? k := by
  by_cases h : a.content = k <;> simp [last?, first?, h]

/-- There is an entry under a key when something was assigned under it, with the last value. -/
theorem entryFor?_eq_some : l.entryFor? k = some e ↔
    e.content = k ∧ (∃ a, l.first? k = some a ∧ a.key = e.key) ∧
      ∃ a, l.last? k = some a ∧ a.value = e.value := by
  obtain ⟨content, key, value⟩ := e
  simp only [entryFor?, bind, pure, Option.bind_eq_some_iff, Option.some.injEq, Assignment.mk.injEq]
  constructor
  · rintro ⟨a, ha, b, hb, rfl, rfl, rfl⟩
    exact ⟨rfl, ⟨a, ha, rfl⟩, b, hb, rfl⟩
  · rintro ⟨rfl, ⟨a, ha, rfl⟩, b, hb, rfl⟩
    exact ⟨a, ha, b, hb, rfl, rfl, rfl⟩

theorem map_value_entryFor? (l : Ledger α) (k : Key) :
    (l.entryFor? k).map (·.value) = (l.last? k).map (·.value) := by
  cases hfirst : l.first? k with
  | none => simp [entryFor?, hfirst, last?_eq_none.2 (first?_eq_none.1 hfirst)]
  | some a => cases hlast : l.last? k <;> simp [entryFor?, hfirst, hlast]

theorem entryFor?_eq_none : l.entryFor? k = none ↔ k ∉ l.contents := by
  rw [← last?_eq_none, ← Option.map_eq_none_iff, map_value_entryFor?, Option.map_eq_none_iff]

theorem isSome_entryFor? (h : k ∈ l.contents) : (l.entryFor? k).isSome = true := by
  exact Option.isSome_iff_ne_none.2 fun hnone => entryFor?_eq_none.1 hnone h

theorem map_content_entries (l : Ledger α) : l.entries.map (·.content) = l.contents := by
  rw [entries, List.map_filterMap]
  calc l.contents.filterMap (fun k => (l.entryFor? k).map (·.content))
      = l.contents.filterMap some := by
        refine List.filterMap_congr fun k hk => ?_
        obtain ⟨e, he⟩ := Option.isSome_iff_exists.1 (isSome_entryFor? hk)
        rw [he, Option.map_some, (entryFor?_eq_some.1 he).1]
    _ = l.contents := List.filterMap_some

theorem mem_entries : e ∈ l.entries ↔ l.entryFor? e.content = some e := by
  rw [entries, List.mem_filterMap]
  constructor
  · rintro ⟨k, -, he⟩
    rwa [(entryFor?_eq_some.1 he).1]
  · intro he
    obtain ⟨-, ⟨first, hfirst, -⟩, -⟩ := entryFor?_eq_some.1 he
    have hmem : e.content ∈ l.contents :=
      Decidable.not_not.1 fun hnot => by simp [first?_eq_none.2 hnot] at hfirst
    exact ⟨e.content, hmem, he⟩

/-- An entry has its key and its value from assignments. -/
theorem exists_of_mem_entries (he : e ∈ l.entries) :
    (∃ a ∈ l, a.content = e.content ∧ a.key = e.key) ∧ ∃ a ∈ l, a.value = e.value := by
  obtain ⟨-, ⟨first, hfirst, hkey⟩, last, hlast, hvalue⟩ := entryFor?_eq_some.1 (mem_entries.1 he)
  have hcontent : first.content = e.content := by simpa using List.find?_some hfirst
  exact ⟨⟨first, List.mem_of_find?_eq_some hfirst, hcontent, hkey⟩, last,
    mem_of_last? hlast, hvalue⟩

theorem content_mem_contents (he : e ∈ l.entries) : e.content ∈ l.contents :=
  map_content_entries l ▸ List.mem_map_of_mem he

/-- A key that is assigned for the first time comes last. -/
theorem entries_assign_of_not_mem (h : a.content ∉ l.contents) :
    (l ++ [a]).entries = l.entries ++ [a] := by
  have hlast : (l ++ [a]).entryFor? a.content = some a :=
    entryFor?_eq_some.2 ⟨rfl, ⟨a, by simp [first?_assign, first?_eq_none.2 h], rfl⟩, a,
      by simp [last?_assign], rfl⟩
  rw [entries, contents_assign_of_not_mem h, List.filterMap_append, List.filterMap_cons, hlast]
  refine congrArg (· ++ [a]) (List.filterMap_congr fun k hk => ?_)
  have hne : a.content ≠ k := fun heq => h (heq ▸ hk)
  simp [entryFor?, first?_assign, last?_assign, hne]

/-- What an assignment does to an entry. -/
def overwrite (a e : Assignment α) : Assignment α :=
  if e.content = a.content then { e with value := a.value } else e

@[simp] theorem content_overwrite (a e : Assignment α) : (overwrite a e).content = e.content := by
  unfold overwrite
  split <;> rfl

/-- A key that is assigned again stays, and in its place. -/
theorem entries_assign_of_mem (h : a.content ∈ l.contents) :
    (l ++ [a]).entries = l.entries.map (overwrite a) := by
  rw [entries, contents_assign_of_mem h, entries, List.map_filterMap]
  refine List.filterMap_congr fun k hk => ?_
  obtain ⟨e, he⟩ := Option.isSome_iff_exists.1 (isSome_entryFor? hk)
  obtain ⟨rfl, ⟨first, hfirst, hkey⟩, last, hlast, hvalue⟩ := entryFor?_eq_some.1 he
  rw [he, Option.map_some]
  refine entryFor?_eq_some.2 ⟨content_overwrite a e, ⟨first, by simp [first?_assign, hfirst], ?_⟩, ?_⟩
  · rw [hkey, overwrite]
    split <;> rfl
  · rw [overwrite, last?_assign]
    by_cases heq : e.content = a.content
    · exact ⟨a, by simp [heq]⟩
    · exact ⟨last, by simp [heq, Ne.symm heq, hlast, hvalue]⟩

/-! ## Buckets -/

theorem mem_bucket : e ∈ l.bucket d hash ↔ e ∈ l.entries ∧ e.content.hash? d = some hash := by
  simp [bucket]

theorem bucket_assign_of_not_mem (h : a.content ∉ l.contents) (ha : a.content.hash? d = some hash)
    (other : Int64) : (l ++ [a]).bucket d other =
      l.bucket d other ++ if hash = other then [a] else [] := by
  rw [bucket, entries_assign_of_not_mem h, List.filter_append, List.filter_singleton]
  by_cases heq : hash = other <;> simp [bucket, ha, heq]

theorem bucket_assign_of_mem (h : a.content ∈ l.contents) (hash : Int64) :
    (l ++ [a]).bucket d hash = (l.bucket d hash).map (overwrite a) := by
  rw [bucket, entries_assign_of_mem h, List.filter_map]
  simp [bucket, Function.comp_def]

/-- An assignment leaves the entries alone whose keys have another hash. -/
theorem map_overwrite_bucket_of_ne (ha : a.content.hash? d = some hash) (hne : hash ≠ other) :
    (l.bucket d other).map (overwrite a) = l.bucket d other := by
  refine (List.map_congr_left fun e he => ?_).trans (List.map_id _)
  have hcontent : e.content ≠ a.content := by
    intro heq
    have he := (mem_bucket.1 he).2
    rw [heq, ha] at he
    exact hne (Option.some.inj he)
  rw [overwrite, if_neg hcontent, id]

theorem nodup_content_bucket (l : Ledger α) (d : Digests) (hash : Int64) :
    ((l.bucket d hash).map (·.content)).Nodup := by
  have hsub : (l.bucket d hash).Sublist l.entries := List.filter_sublist
  exact (map_content_entries l ▸ nodup_contents l).sublist (hsub.map _)

/-- The entry under a key is found in the bucket of its hash. -/
theorem find?_bucket (hk : k.hash? d = some hash) :
    (l.bucket d hash).find? (fun e => e.content = k) = l.entryFor? k := by
  cases hfound : (l.bucket d hash).find? fun e => e.content = k with
  | some e =>
    have hcontent : e.content = k := by simpa using List.find?_some hfound
    have hmem := (mem_bucket.1 (List.mem_of_find?_eq_some hfound)).1
    rw [← hcontent, mem_entries.1 hmem]
  | none =>
    refine (Option.eq_none_iff_forall_not_mem.2 fun e he => ?_).symm
    obtain rfl := (entryFor?_eq_some.1 he).1
    have hmem : e ∈ l.bucket d hash := mem_bucket.2 ⟨mem_entries.2 he, hk⟩
    simpa using List.find?_eq_none.1 hfound e hmem

/-- The place of the entry under a key, in the bucket of a hash. -/
def place? (l : Ledger α) (d : Digests) (hash : Int64) (k : Key) : Option Nat :=
  (l.bucket d hash).findIdx? fun e => e.content = k

theorem place?_eq_none (hk : k.hash? d = some hash) : l.place? d hash k = none ↔ k ∉ l.contents := by
  rw [← entryFor?_eq_none, ← find?_bucket hk, List.find?_eq_none, place?, List.findIdx?_eq_none_iff]
  simp

theorem lt_of_place? {i : Nat} (hi : l.place? d hash k = some i) : i < (l.bucket d hash).length :=
  (List.findIdx?_eq_some_iff_getElem.1 hi).1

theorem getElem?_of_place? (hk : k.hash? d = some hash) {i : Nat} (hi : l.place? d hash k = some i) :
    (l.bucket d hash)[i]? = l.entryFor? k := by
  obtain ⟨hlt, hfound, hbefore⟩ := List.findIdx?_eq_some_iff_getElem.1 hi
  rw [List.getElem?_eq_getElem hlt, ← find?_bucket hk, eq_comm, List.find?_eq_some_iff_getElem]
  exact ⟨hfound, i, hlt, rfl, fun j hj => by simpa using hbefore j hj⟩

/-! ## Hashes -/

theorem nodup_hashes (l : Ledger α) (d : Digests) : (l.hashes d).Nodup := nodup_eraseDups _

theorem hashes_assign_of_mem (h : a.content ∈ l.contents) : (l ++ [a]).hashes d = l.hashes d := by
  rw [hashes, contents_assign_of_mem h, hashes]

theorem hashes_assign_of_not_mem (h : a.content ∉ l.contents) (ha : a.content.hash? d = some hash) :
    (l ++ [a]).hashes d =
      if hash ∈ l.hashes d then l.hashes d else l.hashes d ++ [hash] := by
  rw [hashes, contents_assign_of_not_mem h, List.filterMap_append, List.filterMap_cons, ha]
  simp only [List.filterMap_nil, eraseDups_append_singleton, hashes, List.mem_eraseDups]

/-! ## All entries -/

theorem mem_entries_of_mem_listed (he : e ∈ l.listed d) : e ∈ l.entries := by
  obtain ⟨hash, -, he⟩ := List.mem_flatMap.1 he
  exact (mem_bucket.1 he).1

/-- No key is listed twice. -/
theorem nodup_content_listed (l : Ledger α) (d : Digests) :
    ((l.listed d).map (·.content)).Nodup := by
  rw [listed, List.map_flatMap, List.nodup_flatMap]
  refine ⟨fun hash _ => l.nodup_content_bucket d hash, ?_⟩
  refine (l.nodup_hashes d).imp fun {hash other} hne => ?_
  show List.Disjoint _ _
  intro k hk hk'
  obtain ⟨e, he, rfl⟩ := List.mem_map.1 hk
  obtain ⟨e', he', hsame⟩ := List.mem_map.1 hk'
  have hhash := (mem_bucket.1 he').2
  rw [hsame, (mem_bucket.1 he).2] at hhash
  exact hne (Option.some.inj hhash)

/-- There are at most as many entries as there were assignments. -/
theorem length_listed_le (l : Ledger α) (d : Digests) : (l.listed d).length ≤ l.length := by
  have hsub : (l.listed d).map (·.content) ⊆ l.map (·.content) := by
    intro k hk
    obtain ⟨e, he, rfl⟩ := List.mem_map.1 hk
    obtain ⟨⟨a, ha, hcontent, -⟩, -⟩ := exists_of_mem_entries (mem_entries_of_mem_listed he)
    exact List.mem_map.2 ⟨a, ha, hcontent⟩
  simpa using (List.subperm_of_subset (l.nodup_content_listed d) hsub).length_le

end Ledger
end ScriptVM
