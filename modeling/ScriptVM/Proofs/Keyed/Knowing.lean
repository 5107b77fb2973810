import ScriptVM.Proofs.Keyed.Client

/-!
# What is known of the values of a client

Every value is what is known of it: a key shows what it is, and a Hash has what is in its ledger.
Different places have different Hashes. What only asks leaves all of this as it is, one more value
extends it, and one more assignment changes what is known of one Hash. With every operation keys are
nested at most one level deeper, and a ledger has at most one assignment more.
-/
namespace ScriptVM

/-! ## Names for values -/

section names

variable {α : Type} {d : Digests} {value value' : α → Value} {l : Ledger α} {h : Heap} {t : Table}
  {owner : Value}

/-- A table only depends on the values that are assigned. -/
theorem Table.Follows.congr (ht : t.Follows d value l)
    (hsame : ∀ a ∈ l, value a.key = value' a.key ∧ value a.value = value' a.value) :
    t.Follows d value' l where
  hashes := ht.hashes
  bucket hash := by
    rw [ht.bucket]
    refine List.map_congr_left fun e he => ?_
    obtain ⟨⟨a, ha, -, hkey⟩, b, hb, hvalue⟩ :=
      Ledger.exists_of_mem_entries (Ledger.mem_bucket.1 he).1
    rw [Assignment.entry, Assignment.entry, ← hkey, ← hvalue, (hsame a ha).1, (hsame b hb).2]
  size := ht.size

theorem Heap.Files.congr (hf : h.Files d owner value l)
    (hsame : ∀ a ∈ l, value a.key = value' a.key ∧ value a.value = value' a.value) :
    h.Files d owner value' l where
  plain := hf.plain
  table := by
    obtain ⟨t, ht, hfollows⟩ := hf.table
    exact ⟨t, ht, hfollows.congr hsame⟩
  keys a ha := (hsame a ha).1 ▸ hf.keys a ha
  hashable := hf.hashable

end names

namespace Client

variable {d : Digests} {m : Machine} {h h' : Heap} {values more : List Value} {v : Value}
  {cs : List Content} {c : Content} {place : Nat}

theorem valueAt_append (hplace : place < values.length) :
    valueAt (values ++ more) place = valueAt values place := by
  rw [valueAt, List.getD_eq_getElem?_getD, List.getElem?_append_left hplace,
    ← List.getD_eq_getElem?_getD, valueAt]

theorem valueAt_length (values : List Value) (v : Value) :
    valueAt (values ++ [v]) values.length = v := by
  simp [valueAt]

/-! ## What is known of values -/

/-- Whether a value is what is known of it. -/
def Content.Holds (d : Digests) (h : Heap) (values : List Value) (v : Value) : Content → Prop
  | .other => True
  | .key k => h.Shows d v k
  | .hash l => h.Files d v (valueAt values) l ∧
      ∀ a ∈ l, a.key < values.length ∧ a.value < values.length

theorem Content.Holds.shows {k : Key} (hc : c.Holds d h values v) (hk : c.key? = some k) :
    h.Shows d v k := by
  cases c with
  | other => cases hk
  | key k =>
    cases hk
    exact hc
  | hash l =>
    cases hk
    exact hc.1.plain

/-- What only asks changes nothing that is known. -/
theorem Content.Holds.asked (hc : c.Holds d h values v) (ha : h.Asked d h') :
    c.Holds d h' values v := by
  cases c with
  | other => trivial
  | key k => exact ha.shows hc
  | hash l => exact ⟨ha.files hc.1, hc.2⟩

theorem Content.Holds.append (hc : c.Holds d h values v) (more : List Value) :
    c.Holds d h (values ++ more) v := by
  cases c with
  | other => trivial
  | key k => exact hc
  | hash l =>
    refine ⟨hc.1.congr fun a ha => ⟨?_, ?_⟩, fun a ha => ?_⟩
    · exact (valueAt_append (hc.2 a ha).1).symm
    · exact (valueAt_append (hc.2 a ha).2).symm
    · rw [List.length_append]
      exact ⟨Nat.lt_add_right _ (hc.2 a ha).1, Nat.lt_add_right _ (hc.2 a ha).2⟩

/-- Nothing else is known when another Hash has other entries. -/
theorem Content.Holds.setKind_of_ne {t : Table} {other : Value} (hc : c.Holds d h values v)
    (hother : (h.table? other).isSome = true) (hne : ∀ l, c = .hash l → v ≠ other) :
    c.Holds d (h.setKind other (.hash t)) values v := by
  cases c with
  | other => trivial
  | key k => exact Heap.Shows.setKind hc hother
  | hash l => exact ⟨hc.1.setKind_of_ne hother (hne l rfl), hc.2⟩

/-- Whether the values of a client are what is known of them. -/
structure Knows (d : Digests) (h : Heap) (values : List Value) (cs : List Content) : Prop where
  length : values.length = cs.length
  content : ∀ place (c : Content), cs[place]? = some c → c.Holds d h values (valueAt values place)
  /-- Different places have different Hashes. -/
  apart : ∀ place place' l l', cs[place]? = some (.hash l) → cs[place']? = some (.hash l') →
    valueAt values place = valueAt values place' → place = place'

theorem getElem?_of_ledgerAt? {l : Ledger Nat} (hl : ledgerAt? cs place = some l) :
    cs[place]? = some (.hash l) := by
  unfold ledgerAt? at hl
  split at hl
  · rename_i heq
    cases hl
    exact heq
  · cases hl

theorem lt_of_getElem? (hc : cs[place]? = some c) : place < cs.length :=
  (List.getElem?_eq_some_iff.1 hc).1

theorem lt_of_keyAt? {k : Key} (hk : keyAt? cs place = some k) : place < cs.length := by
  obtain ⟨c, hplace, -⟩ := Option.bind_eq_some_iff.1 hk
  exact lt_of_getElem? hplace

namespace Knows

theorem shows {k : Key} (hc : Knows d h values cs) (hk : keyAt? cs place = some k) :
    h.Shows d (valueAt values place) k := by
  obtain ⟨c, hplace, hkey⟩ := Option.bind_eq_some_iff.1 hk
  exact (hc.content place c hplace).shows hkey

theorem files {l : Ledger Nat} (hc : Knows d h values cs) (hl : ledgerAt? cs place = some l) :
    h.Files d (valueAt values place) (valueAt values) l ∧
      ∀ a ∈ l, a.key < values.length ∧ a.value < values.length :=
  hc.content place _ (getElem?_of_ledgerAt? hl)

theorem asked (hc : Knows d h values cs) (ha : h.Asked d h') : Knows d h' values cs where
  length := hc.length
  content place c hplace := (hc.content place c hplace).asked ha
  apart := hc.apart

/-- One more value, which is new if it is a Hash. -/
theorem append (hc : Knows d h values cs) (hv : c.Holds d h (values ++ [v]) v)
    (hnew : ∀ l, c = .hash l → ∀ place l', cs[place]? = some (.hash l') →
      valueAt values place ≠ v) : Knows d h (values ++ [v]) (cs ++ [c]) := by
  have hlast : ∀ place c', (cs ++ [c])[place]? = some c' →
      (place < cs.length ∧ cs[place]? = some c' ∧
        valueAt (values ++ [v]) place = valueAt values place) ∨
      (place = cs.length ∧ c' = c ∧ valueAt (values ++ [v]) place = v) := by
    intro place c' hplace
    have hlt := lt_of_getElem? hplace
    rw [List.length_append, List.length_singleton] at hlt
    rcases Nat.lt_or_ge place cs.length with hlt' | hge
    · rw [List.getElem?_append_left hlt'] at hplace
      exact .inl ⟨hlt', hplace, valueAt_append (hc.length ▸ hlt')⟩
    · obtain rfl : place = cs.length := by omega
      refine .inr ⟨rfl, ?_, hc.length ▸ valueAt_length values v⟩
      simpa [eq_comm] using hplace
  refine ⟨by simp [hc.length], fun place c' hplace => ?_, fun p p' l l' hp hp' hsame => ?_⟩
  · rcases hlast place c' hplace with ⟨-, hplace, hvalue⟩ | ⟨-, rfl, hvalue⟩
    · rw [hvalue]
      exact (hc.content place c' hplace).append [v]
    · rw [hvalue]
      exact hv
  · rcases hlast p _ hp with ⟨-, hp, hvalue⟩ | ⟨rfl, hp, hvalue⟩ <;>
    rcases hlast p' _ hp' with ⟨-, hp', hvalue'⟩ | ⟨rfl, hp', hvalue'⟩
    · exact hc.apart p p' l l' hp hp' (hvalue.symm.trans (hsame.trans hvalue'))
    · exact absurd (hvalue.symm.trans (hsame.trans hvalue')) (hnew l' hp'.symm p l hp)
    · exact absurd (hvalue'.symm.trans (hsame.symm.trans hvalue)) (hnew l hp.symm p' l' hp')
    · rfl

/-- A Hash has one more assignment. -/
theorem assign {l : Ledger Nat} {a : Assignment Nat} {t : Table} (hc : Knows d h values cs)
    (hl : ledgerAt? cs place = some l) (ht : t.Follows d (valueAt values) (l ++ [a]))
    (hkey : h.Shows d (valueAt values a.key) a.content) (hhash : a.content.isHashable = true)
    (ha : a.key < values.length ∧ a.value < values.length) :
    Knows d (h.setKind (valueAt values place) (.hash t)) values
      (cs.set place (.hash (l ++ [a]))) := by
  obtain ⟨hf, hplaces⟩ := hc.files hl
  have hat := getElem?_of_ledgerAt? hl
  have howner : (h.table? (valueAt values place)).isSome = true := by
    obtain ⟨before, hbefore, -⟩ := hf.table
    rw [hbefore]
    rfl
  -- The Hashes are in the same places as before.
  have hbefore : ∀ (p : Nat) l', (cs.set place (.hash (l ++ [a])))[p]? = some (Content.hash l') →
      ∃ l'', cs[p]? = some (Content.hash l'') := by
    intro p l' hp
    by_cases hsame : place = p
    · exact ⟨l, hsame ▸ hat⟩
    · rw [List.getElem?_set_ne hsame] at hp
      exact ⟨l', hp⟩
  refine ⟨by simp [hc.length], fun p c hp => ?_, fun p p' l₁ l₂ hp hp' => ?_⟩
  · by_cases hsame : place = p
    · subst hsame
      rw [List.getElem?_set_self (lt_of_getElem? hat)] at hp
      cases hp
      refine ⟨hf.setKind ht hkey hhash, fun b hb => ?_⟩
      rcases List.mem_append.1 hb with hb | hb
      · exact hplaces b hb
      · exact List.mem_singleton.1 hb ▸ ha
    · rw [List.getElem?_set_ne hsame] at hp
      refine (hc.content p c hp).setKind_of_ne howner fun l' hl' hvalue => ?_
      exact hsame (hc.apart place p l l' hat (hl' ▸ hp) hvalue.symm)
  · obtain ⟨l₁, hp⟩ := hbefore p l₁ hp
    obtain ⟨l₂, hp'⟩ := hbefore p' l₂ hp'
    exact hc.apart p p' l₁ l₂ hp hp'

end Knows

/-! ## Bounds -/

/-- How deep the keys are nested and how much was assigned, at most. -/
def Content.Within (n : Nat) : Content → Prop
  | .other => True
  | .key k => k.depth ≤ n
  | .hash l => l.length ≤ n ∧ ∀ k ∈ l.contents, k.depth ≤ n

section bounds

variable {n : Nat}

theorem Content.Within.mono {n' : Nat} (hc : c.Within n) (hn : n ≤ n') : c.Within n' := by
  cases c with
  | other => trivial
  | key k => exact Nat.le_trans hc hn
  | hash l => exact ⟨Nat.le_trans hc.1 hn, fun k hk => Nat.le_trans (hc.2 k hk) hn⟩

theorem depth_le_of_keyAt? {k : Key} (hcs : ∀ c ∈ cs, c.Within n) (hk : keyAt? cs place = some k) :
    k.depth ≤ n := by
  obtain ⟨c, hplace, hkey⟩ := Option.bind_eq_some_iff.1 hk
  have hc := hcs c (List.mem_of_getElem? hplace)
  cases c with
  | other => cases hkey
  | key k =>
    cases hkey
    exact hc
  | hash l =>
    cases hkey
    exact Nat.zero_le n

theorem depthOfItems_le_of_mapM {items : List Nat} {keys : List Key} (hcs : ∀ c ∈ cs, c.Within n)
    (hkeys : items.mapM (keyAt? cs) = some keys) : Key.depthOfItems keys ≤ n := by
  induction items generalizing keys with
  | nil =>
    cases hkeys
    exact Nat.zero_le n
  | cons item rest ih =>
    rw [List.mapM_cons] at hkeys
    obtain ⟨key, hkey, hrest⟩ := Option.bind_eq_some_iff.1 hkeys
    obtain ⟨others, hothers, hsame⟩ := Option.bind_eq_some_iff.1 hrest
    cases hsame
    exact Nat.max_le.2 ⟨depth_le_of_keyAt? hcs hkey, ih hothers⟩

theorem within_contentOf (hcs : ∀ c ∈ cs, c.Within n) (datum : Datum Nat) :
    (contentOf cs datum).Within (n + 1) := by
  cases datum with
  | tuple items =>
    rw [contentOf]
    split
    · rename_i keys hkeys
      exact Nat.succ_le_succ (depthOfItems_le_of_mapM hcs hkeys)
    · trivial
  | hash => exact ⟨Nat.zero_le _, fun k hk => nomatch hk⟩
  | _ => simp [contentOf, Content.Within, Key.depth]

/-- An operation nests keys one level deeper, or assigns once more, at most. -/
theorem within_of_expected {o : Operation} {outcome : Outcome Nat} {cs' : List Content}
    (hcs : ∀ c ∈ cs, c.Within n) (hexpected : expected d cs o = some (outcome, cs')) :
    ∀ c ∈ cs', c.Within (n + 1) := by
  have hold : ∀ c ∈ cs, c.Within (n + 1) := fun c hc => (hcs c hc).mono (Nat.le_succ n)
  cases o with
  | make datum =>
    cases hexpected
    exact List.forall_mem_append.2 ⟨hold, List.forall_mem_singleton.2 (within_contentOf hcs datum)⟩
  | copy owner =>
    obtain ⟨l, hl, hsame⟩ := Option.bind_eq_some_iff.1 hexpected
    cases hsame
    refine List.forall_mem_append.2 ⟨hold, List.forall_mem_singleton.2 ?_⟩
    exact hold _ (List.mem_of_getElem? (getElem?_of_ledgerAt? hl))
  | assign owner key value =>
    obtain ⟨l, hl, hsame⟩ := Option.bind_eq_some_iff.1 hexpected
    obtain ⟨k, hk, hsame⟩ := Option.bind_eq_some_iff.1 hsame
    split at hsame
    · cases hsame
    split at hsame
    · cases hsame
      have hmem := hcs _ (List.mem_of_getElem? (getElem?_of_ledgerAt? hl))
      intro c hc
      rcases List.mem_or_eq_of_mem_set hc with hc | rfl
      · exact hold c hc
      · refine ⟨by simpa using hmem.1, fun k' hk' => ?_⟩
        rcases Ledger.mem_contents_assign.1 hk' with hk' | rfl
        · exact Nat.le_succ_of_le (hmem.2 k' hk')
        · exact Nat.le_succ_of_le (depth_le_of_keyAt? hcs hk)
    · cases hsame
      exact hold
  | index owner key =>
    obtain ⟨l, -, hsame⟩ := Option.bind_eq_some_iff.1 hexpected
    obtain ⟨k, -, hsame⟩ := Option.bind_eq_some_iff.1 hsame
    cases hsame
    exact hold
  | contains owner key =>
    obtain ⟨l, -, hsame⟩ := Option.bind_eq_some_iff.1 hexpected
    obtain ⟨k, -, hsame⟩ := Option.bind_eq_some_iff.1 hsame
    cases hsame
    exact hold
  | keys owner =>
    obtain ⟨l, -, hsame⟩ := Option.bind_eq_some_iff.1 hexpected
    cases hsame
    exact hold

end bounds

end Client
end ScriptVM
