import ScriptVM.Value.Object
import Mathlib.Data.List.Basic

/-!
# Tables of entries

What storing under a key does to the buckets of a table. An entry is replaced where the position is
one of the bucket, and is added at the end of the bucket otherwise, so that the keys of a bucket stay
where they are and new ones come behind them.
-/
namespace ScriptVM.Table

variable {t u : Table} {hash other : Int64} {key value : Value} {i : Nat}

/-! ## Entries -/

/-- The entries of one bucket are among all entries. -/
theorem mem_entries_of_mem_bucket {t : Table} {hash : Int64} {entry : Value × Value}
    (h : entry ∈ t.bucket hash) : entry ∈ t.entries := by
  unfold bucket at h
  split at h
  · rename_i b hb
    exact List.mem_flatMap.2 ⟨b, List.mem_of_find?_eq_some hb, h⟩
  · simp at h

theorem mem_addTo {hash : Int64} {new entry : Value × Value} {buckets : List Bucket}
    (h : entry ∈ (addTo hash new buckets).flatMap Bucket.entries) :
    entry = new ∨ entry ∈ buckets.flatMap Bucket.entries := by
  induction buckets with
  | nil => simpa [addTo] using h
  | cons b rest ih =>
    simp only [addTo] at h
    split at h
    · simp only [List.flatMap_cons, List.mem_append, List.mem_singleton] at h ⊢
      rcases h with (h | h) | h
      · exact .inr (.inl h)
      · exact .inl h
      · exact .inr (.inr h)
    · simp only [List.flatMap_cons, List.mem_append] at h ⊢
      rcases h with h | h
      · exact .inr (.inl h)
      · rcases ih h with h | h
        · exact .inl h
        · exact .inr (.inr h)

theorem mem_modify {entries : List (Value × Value)} {position : Nat} {value : Value}
    {entry : Value × Value}
    (h : entry ∈ entries.modify position fun old => (old.1, value)) :
    entry ∈ entries ∨ ∃ old ∈ entries, entry = (old.1, value) := by
  induction entries generalizing position with
  | nil => simp at h
  | cons first rest ih =>
    cases position with
    | zero =>
      simp only [List.modify_zero_cons, List.mem_cons] at h
      rcases h with rfl | h
      · exact .inr ⟨first, by simp, rfl⟩
      · exact .inl (by simp [h])
    | succ position =>
      simp only [List.modify_succ_cons, List.mem_cons] at h
      rcases h with rfl | h
      · exact .inl (by simp)
      · rcases ih h with h | ⟨old, hold, rfl⟩
        · exact .inl (by simp [h])
        · exact .inr ⟨old, by simp [hold], rfl⟩

theorem mem_replaceIn {hash : Int64} {position : Nat} {value : Value}
    {entry : Value × Value} {buckets : List Bucket}
    (h : entry ∈ (replaceIn hash position value buckets).flatMap Bucket.entries) :
    entry ∈ buckets.flatMap Bucket.entries ∨
      ∃ old ∈ buckets.flatMap Bucket.entries, entry = (old.1, value) := by
  induction buckets with
  | nil => simp [replaceIn] at h
  | cons b rest ih =>
    simp only [replaceIn] at h
    split at h
    · simp only [List.flatMap_cons, List.mem_append] at h ⊢
      rcases h with h | h
      · rcases mem_modify h with h | ⟨old, hold, rfl⟩
        · exact .inl (.inl h)
        · exact .inr ⟨old, .inl hold, rfl⟩
      · exact .inl (.inr h)
    · simp only [List.flatMap_cons, List.mem_append] at h ⊢
      rcases h with h | h
      · exact .inl (.inl h)
      · rcases ih h with h | ⟨old, hold, rfl⟩
        · exact .inl (.inr h)
        · exact .inr ⟨old, .inr hold, rfl⟩

/-- A table with a new entry holds its old keys and values, the new key and the new value. -/
theorem good_put {P : Value → Prop} {t : Table} {key value : Value} (hash : Int64)
    (position : Option Nat) (ht : ∀ entry ∈ t.entries, P entry.1 ∧ P entry.2) (hkey : P key)
    (hvalue : P value) :
    ∀ entry ∈ (t.put hash position key value).entries, P entry.1 ∧ P entry.2 := by
  have hadd : ∀ entry ∈ (addTo hash (key, value) t.buckets).flatMap Bucket.entries,
      P entry.1 ∧ P entry.2 := by
    intro entry hentry
    rcases mem_addTo hentry with rfl | hentry
    · exact ⟨hkey, hvalue⟩
    · exact ht entry hentry
  intro entry hentry
  unfold put at hentry
  split at hentry
  · split at hentry
    · rcases mem_replaceIn hentry with hentry | ⟨old, hold, rfl⟩
      · exact ht entry hentry
      · exact ⟨(ht old hold).1, hvalue⟩
    · exact hadd entry hentry
  · exact hadd entry hentry

/-! ## Keys -/

/-- The keys in the bucket of a hash. -/
def keysOf (t : Table) (hash : Int64) : List Value := (t.bucket hash).map (·.1)

@[simp] theorem length_keysOf (t : Table) (hash : Int64) :
    (t.keysOf hash).length = (t.bucket hash).length := List.length_map _

theorem mem_keys_of_mem_keysOf (h : key ∈ t.keysOf hash) : key ∈ t.keys := by
  obtain ⟨entry, hentry, rfl⟩ := List.mem_map.1 h
  exact List.mem_map_of_mem (mem_entries_of_mem_bucket hentry)

theorem bucket_addTo (buckets : List Bucket) (size size' : Nat) (entry : Value × Value) :
    bucket ⟨addTo hash entry buckets, size'⟩ other =
      bucket ⟨buckets, size⟩ other ++ if hash = other then [entry] else [] := by
  unfold bucket
  induction buckets with
  | nil => by_cases he : hash = other <;> simp [addTo, he]
  | cons b rest ih =>
    by_cases hb : b.hash = hash
    · by_cases he : hash = other <;> simp [addTo, hb, he]
    · simp only [addTo, if_neg hb]
      by_cases he : b.hash = other
      · have hne : hash ≠ other := fun h => hb (he.trans h.symm)
        simp [he, hne]
      · simpa [he] using ih

theorem bucket_replaceIn (buckets : List Bucket) (size size' : Nat) (value : Value) :
    bucket ⟨replaceIn hash i value buckets, size'⟩ other =
      if hash = other then (bucket ⟨buckets, size⟩ other).modify i fun entry => (entry.1, value)
      else bucket ⟨buckets, size⟩ other := by
  unfold bucket
  induction buckets with
  | nil => by_cases he : hash = other <;> simp [replaceIn, he]
  | cons b rest ih =>
    by_cases hb : b.hash = hash
    · by_cases he : hash = other <;> simp [replaceIn, hb, he]
    · simp only [replaceIn, if_neg hb]
      by_cases he : b.hash = other
      · have hne : hash ≠ other := fun h => hb (he.trans h.symm)
        simp [he, hne]
      · simpa [he] using ih

theorem bucket_put_none :
    (t.put hash none key value).bucket other =
      t.bucket other ++ if hash = other then [(key, value)] else [] :=
  bucket_addTo t.buckets t.size (t.size + 1) (key, value)

theorem put_some_of_ge (hi : (t.bucket hash).length ≤ i) :
    t.put hash (some i) key value = t.put hash none key value := by
  simp only [put, Nat.not_lt.2 hi, if_false]

theorem bucket_put_some (hi : i < (t.bucket hash).length) :
    (t.put hash (some i) key value).bucket other =
      if hash = other then (t.bucket other).modify i fun entry => (entry.1, value)
      else t.bucket other := by
  simp only [put, hi, if_true]
  exact bucket_replaceIn t.buckets t.size t.size value

theorem keys_modify (entries : List (Value × Value)) (i : Nat) (value : Value) :
    (entries.modify i fun entry => (entry.1, value)).map (·.1) = entries.map (·.1) := by
  refine List.ext_getElem (by simp) fun n hn hn' => ?_
  simp only [List.getElem_map, List.getElem_modify]
  split <;> rfl

theorem keys_replaceIn (buckets : List Bucket) :
    ((replaceIn hash i value buckets).flatMap Bucket.entries).map (·.1) =
      (buckets.flatMap Bucket.entries).map (·.1) := by
  induction buckets with
  | nil => rfl
  | cons b rest ih =>
    simp only [replaceIn]
    split
    · simp only [List.flatMap_cons, List.map_append, keys_modify]
    · simp only [List.flatMap_cons, List.map_append, ih]

/-- An entry that is replaced keeps its key. -/
theorem keys_put_some (hi : i < (t.bucket hash).length) :
    (t.put hash (some i) key value).keys = t.keys := by
  simp only [put, hi, if_true]
  exact keys_replaceIn t.buckets

theorem keysOf_put_some (hi : i < (t.bucket hash).length) :
    (t.put hash (some i) key value).keysOf other = t.keysOf other := by
  unfold keysOf
  rw [bucket_put_some hi]
  split
  · exact keys_modify _ i value
  · rfl

theorem perm_addTo (entry : Value × Value) (buckets : List Bucket) :
    ((addTo hash entry buckets).flatMap Bucket.entries).Perm
      (entry :: buckets.flatMap Bucket.entries) := by
  induction buckets with
  | nil => exact .refl _
  | cons b rest ih =>
    simp only [addTo]
    split
    · simp only [List.flatMap_cons, List.append_assoc]
      exact List.perm_middle
    · simp only [List.flatMap_cons]
      exact (ih.append_left b.entries).trans List.perm_middle

/-- An entry that is added brings its key. -/
theorem perm_keys_put_none : (t.put hash none key value).keys.Perm (key :: t.keys) :=
  (perm_addTo (key, value) t.buckets).map _

theorem mem_keys_put {position : Option Nat} {k : Value}
    (hk : k ∈ (t.put hash position key value).keys) : k = key ∨ k ∈ t.keys := by
  cases position with
  | none => exact List.mem_cons.1 (perm_keys_put_none.mem_iff.1 hk)
  | some i =>
    rcases Nat.lt_or_ge i (t.bucket hash).length with hlt | hge
    · exact .inr (keys_put_some hlt ▸ hk)
    · rw [put_some_of_ge hge] at hk
      exact List.mem_cons.1 (perm_keys_put_none.mem_iff.1 hk)

/-! ## Finding -/

/-- Whether the first key of a bucket that is looked for has a value. -/
def Finds (t : Table) (hash : Int64) (sought : Value → Bool) (value : Value) : Prop :=
  ∃ i, (t.keysOf hash).findIdx? sought = some i ∧ ((t.bucket hash)[i]?).map (·.2) = some value

/-- What is stored under a key, in the place where it is looked for, is found there. -/
theorem finds_put {sought : Value → Bool} (hkey : sought key = true) :
    (t.put hash ((t.keysOf hash).findIdx? sought) key value).Finds hash sought value := by
  cases hplace : (t.keysOf hash).findIdx? sought with
  | none =>
    have hkeys : (t.put hash none key value).keysOf hash = t.keysOf hash ++ [key] := by
      simp only [keysOf, bucket_put_none, if_true, List.map_append, List.map_cons, List.map_nil]
    refine ⟨(t.bucket hash).length, ?_, ?_⟩
    · rw [hkeys, List.findIdx?_append, hplace]
      simp [hkey]
    · simp [bucket_put_none]
  | some i =>
    have hlt : i < (t.bucket hash).length := by
      obtain ⟨hi, -⟩ := List.findIdx?_eq_some_iff_getElem.1 hplace
      simpa using hi
    refine ⟨i, (keysOf_put_some hlt).symm ▸ hplace, ?_⟩
    simp [bucket_put_some, hlt]

/-- A key that is found gets no other entry. -/
theorem Finds.keys_put {sought : Value → Bool} {old : Value} (h : t.Finds hash sought old) :
    (t.put hash ((t.keysOf hash).findIdx? sought) key value).keys = t.keys := by
  obtain ⟨i, hplace, -⟩ := h
  obtain ⟨hi, -⟩ := List.findIdx?_eq_some_iff_getElem.1 hplace
  rw [hplace]
  exact keys_put_some (by simpa using hi)

/-! ## Growth -/

/-- The keys of each bucket stay where they are. -/
def Grows (t u : Table) : Prop := ∀ hash, t.keysOf hash <+: u.keysOf hash

@[refl] theorem Grows.refl (t : Table) : t.Grows t := fun _ => List.prefix_rfl

theorem Grows.trans {v : Table} (h : t.Grows u) (h' : u.Grows v) : t.Grows v :=
  fun hash => (h hash).trans (h' hash)

/-- A table grows when something is stored. -/
theorem grows_put (t : Table) (hash : Int64) (position : Option Nat) (key value : Value) :
    t.Grows (t.put hash position key value) := by
  have hadd : t.Grows (t.put hash none key value) := by
    intro other
    simp only [keysOf, bucket_put_none, List.map_append]
    exact List.prefix_append _ _
  cases position with
  | none => exact hadd
  | some i =>
    rcases Nat.lt_or_ge i (t.bucket hash).length with hlt | hge
    · intro other
      have hsame : (t.put hash (some i) key value).keysOf other = t.keysOf other :=
        keysOf_put_some hlt
      exact hsame ▸ List.prefix_rfl
    · rw [put_some_of_ge hge]
      exact hadd

end ScriptVM.Table
