import ScriptVM.Lowering.Statement
import ScriptVM.Proofs.CallStack.Discipline
import ScriptVM.Proofs.Growth
import ScriptVM.Proofs.Session.Turn

/-!
# Entries of a Hash

An assignment asks a key for its hash and compares it with the keys that are in the bucket of that
hash. Both run code of the program, which may store into the same Hash, so three tables matter: the
one whose keys are compared, the one that the value is put into, and the one that is left. A key that
was in the bucket when the comparisons began gets no second entry, whatever the program does
meanwhile. A key that the comparisons themselves bring into the bucket does get one.
-/
namespace ScriptVM

section inversion

variable {α β : Type} {m m' : Machine} {v : Value} {t : Table}

/-- A computation in two parts that comes to a result. -/
theorem Run.bind_eq_ok {x : Run α} {f : α → Run β} {b : β} (h : (x >>= f) m = .ok b m') :
    ∃ a k, x m = .ok a k ∧ f a k = .ok b m' := by
  simp only [Bind.bind, EStateM.bind] at h
  cases hx : x m with
  | ok a k =>
    rw [hx] at h
    exact ⟨a, k, rfl, h⟩
  | error stop k =>
    rw [hx] at h
    cases h

theorem Engine.expectTable_eq_ok (h : Engine.expectTable v m = .ok t m') :
    m' = m ∧ m.heap.table? v = some t := by
  obtain ⟨k, m₁, hk, hrest⟩ := Run.bind_eq_ok h
  have hread : m.heap.kind v = k ∧ m₁ = m := by
    cases hk
    exact ⟨rfl, rfl⟩
  obtain ⟨hkind, rfl⟩ := hread
  split at hrest
  · cases hrest
    exact ⟨rfl, Heap.table?_of_kind hkind⟩
  · obtain ⟨name, m₂, hname, hfail⟩ := Run.bind_eq_ok hrest
    cases hfail

theorem Engine.expectTable_of_table? (h : m.heap.table? v = some t) :
    Engine.expectTable v m = .ok t m := by
  simp only [Engine.expectTable, Run.kindOf, Run.read, bind, EStateM.bind, Heap.kind_of_table? h]
  rfl

end inversion

namespace Heap

variable {h h' : Heap} {v : Value} {t t' : Table}

/-- The tables of a heap grow with it. -/
theorem Extends.grows (hh : h.Extends h') (ht : h.table? v = some t) (ht' : h'.table? v = some t') :
    t.Grows t' := by
  have hbecomes := hh.becomes v (lt_size_of_table? ht)
  rw [kind_of_table? ht, kind_of_table? ht'] at hbecomes
  exact hbecomes

end Heap

namespace Engine

variable {e : Engine} {m m' k k' : Machine} {owner key value : Value} {fuel : Nat}

/-! ## Comparisons -/

/-- Comparing a key with candidates, from one machine to another, tells it apart from every other
key. -/
def TellsApart (e : Engine) (key : Value) : List Value → Machine → Machine → Prop
  | [], m, m' => m' = m
  | candidate :: rest, m, m' =>
    if candidate = key then m' = m
    else ∃ k, e.equals candidate key m = .ok false k ∧ e.TellsApart key rest k m'

/-- Compares a key with candidates until it finds it or one that is equal to it. What is left is the
machine, unless there is an equal one. -/
def apart? (e : Engine) (key : Value) : List Value → Machine → Option Machine
  | [], m => some m
  | candidate :: rest, m =>
    if candidate = key then some m
    else match e.equals candidate key m with
      | .ok false k => e.apart? key rest k
      | _ => none

theorem tellsApart_of_apart? {candidates : List Value} (h : e.apart? key candidates m = some m') :
    e.TellsApart key candidates m m' := by
  induction candidates generalizing m with
  | nil => exact (Option.some.inj h).symm
  | cons candidate rest ih =>
    unfold apart? at h
    unfold TellsApart
    split at h
    · rename_i heq
      rw [if_pos heq]
      exact (Option.some.inj h).symm
    · rename_i hne
      rw [if_neg hne]
      split at h
      · rename_i k hk
        exact ⟨k, hk, ih h⟩
      · cases h

/-- Where a search for a key among candidates may end: at the key or at one before it. -/
def FoundAt (key : Value) (candidates : List Value) : Option Nat → Prop
  | some i => i < candidates.length ∧ key ∉ candidates.take i
  | none => key ∉ candidates

theorem positionOf_eq_ok {candidates : List Value} {n : Nat} {r : Option Nat}
    (h : e.positionOf key n candidates m = .ok r m') :
    ∃ p, r = p.map (n + ·) ∧ FoundAt key candidates p := by
  induction candidates generalizing n m with
  | nil =>
    cases h
    exact ⟨none, rfl, List.not_mem_nil⟩
  | cons candidate rest ih =>
    have hfirst : FoundAt key (candidate :: rest) (some 0) := ⟨Nat.succ_pos _, List.not_mem_nil⟩
    unfold positionOf at h
    split at h
    · cases h
      exact ⟨some 0, rfl, hfirst⟩
    · rename_i hne
      obtain ⟨equal, m₁, -, hrest⟩ := Run.bind_eq_ok h
      cases equal with
      | true =>
        cases hrest
        exact ⟨some 0, rfl, hfirst⟩
      | false =>
        obtain ⟨p, rfl, hp⟩ := ih hrest
        have hkey : key ≠ candidate := fun e => hne e.symm
        cases p with
        | none => exact ⟨none, rfl, fun hmem => (List.mem_cons.1 hmem).elim hkey hp⟩
        | some i =>
          refine ⟨some (i + 1), by simp [Nat.add_assoc, Nat.add_comm 1],
            Nat.succ_lt_succ hp.1, ?_⟩
          rw [List.take_succ_cons]
          exact fun hmem => (List.mem_cons.1 hmem).elim hkey hp.2

/-- A key that is told apart is found where it is, if it is there. -/
theorem TellsApart.positionOf {candidates : List Value} (h : e.TellsApart key candidates m m')
    (n : Nat) : e.positionOf key n candidates m =
      .ok (if key ∈ candidates then some (n + candidates.idxOf key) else none) m' := by
  induction candidates generalizing n m with
  | nil =>
    cases h
    rfl
  | cons candidate rest ih =>
    unfold TellsApart at h
    unfold Engine.positionOf
    split at h
    · rename_i heq
      subst heq h
      simp [pure, EStateM.pure]
    · rename_i hne
      obtain ⟨k, hk, h⟩ := h
      have hkey : key ≠ candidate := fun e => hne e.symm
      have hidx : (candidate :: rest).idxOf key = rest.idxOf key + 1 :=
        List.idxOf_cons_ne _ hne
      simp only [if_neg hne, bind, EStateM.bind, hk, Bool.false_eq_true, if_false]
      rw [ih h (n + 1), hidx]
      by_cases hmem : key ∈ rest
      · simp only [hmem, List.mem_cons_of_mem, if_true, Nat.add_assoc, Nat.add_comm 1]
      · simp only [hmem, List.mem_cons, hkey, or_self, if_false]

/-! ## Stores -/

/-- The parts of a search that succeeds. -/
theorem locate_eq_ok (hplain : e.tracks = false) {hash : Int64} {position : Option Nat}
    (h : e.locate owner key k = .ok (hash, position) k') :
    ∃ k₁ before, e.hashOf key k = .ok hash k₁ ∧ k₁.heap.table? owner = some before ∧
      e.positionOf key 0 (before.keysOf hash) k₁ = .ok position k' := by
  unfold locate at h
  simp only [keep_of_plain hplain] at h
  obtain ⟨hash', k₁, hhash, hcompare⟩ := Run.bind_eq_ok h
  obtain ⟨before, k₁', hbefore, hfind⟩ := Run.bind_eq_ok hcompare
  obtain ⟨rfl, htable⟩ := expectTable_eq_ok hbefore
  obtain ⟨position', k₂, hposition, hfound⟩ := Run.bind_eq_ok hfind
  cases hfound
  exact ⟨_, before, hhash, htable, hposition⟩

/-- The parts of a store that succeeds. -/
theorem store_eq_ok (hplain : e.tracks = false) (h : e.store owner key value k = .ok () k') :
    ∃ hash k₁ before position k₂ during,
      e.hashOf key k = .ok hash k₁ ∧ k₁.heap.table? owner = some before ∧
      e.positionOf key 0 (before.keysOf hash) k₁ = .ok position k₂ ∧
      k₂.heap.table? owner = some during ∧
      k' = { k₂ with
        heap := k₂.heap.setKind owner (.hash (during.put hash position key value)) } := by
  unfold store at h
  simp only [keep_of_plain hplain] at h
  obtain ⟨⟨hash, position⟩, k₂, hlocate, hput⟩ := Run.bind_eq_ok h
  obtain ⟨k₁, before, hhash, htable, hposition⟩ := locate_eq_ok hplain hlocate
  obtain ⟨during, k₂', hduring, hdone⟩ := Run.bind_eq_ok hput
  obtain ⟨rfl, htable'⟩ := expectTable_eq_ok hduring
  cases hdone
  exact ⟨hash, k₁, before, position, _, during, hhash, htable, hposition, htable', rfl⟩

/-- What a key is looked up as, when it is told apart. -/
theorem TellsApart.stored? (hplain : e.tracks = false) {hash : Int64} {t : Table} {i : Nat}
    (hhash : e.hashOf key m = .ok hash k)
    (htable : k.heap.table? owner = some t) (h : e.TellsApart key (t.keysOf hash) k k')
    (htable' : k'.heap.table? owner = some t) (hi : (t.keysOf hash).idxOf key = i)
    (hentry : (t.bucket hash)[i]? = some (key, value)) :
    e.stored? owner key m = .ok (some value) k' := by
  have hmem : key ∈ t.keysOf hash := List.mem_map.2 ⟨_, List.mem_of_getElem? hentry, rfl⟩
  have hposition : e.positionOf key 0 ((t.bucket hash).map (·.1)) k = .ok (some i) k' := by
    have hfound := h.positionOf 0
    rw [if_pos hmem, Nat.zero_add, hi] at hfound
    exact hfound
  have hlocate : e.locate owner key m = .ok (hash, some i) k' := by
    simp only [locate, keep_of_plain hplain, bind, EStateM.bind, hhash,
      expectTable_of_table? htable, hposition]
    rfl
  simp only [Engine.stored?, keep_of_plain hplain, bind, EStateM.bind, hlocate,
    expectTable_of_table? htable', hentry]
  rfl

end Engine

/-! ## Three tables -/

namespace Table

variable {before during : Table} {hash : Int64} {key value : Value} {position : Option Nat}

/-- A key that was there when it was compared brings no entry. -/
theorem keys_put_of_mem (hgrows : before.Grows during)
    (hposition : Engine.FoundAt key (before.keysOf hash) position)
    (hmem : key ∈ before.keysOf hash) :
    (during.put hash position key value).keys = during.keys := by
  cases position with
  | none => exact absurd hmem hposition
  | some i =>
    refine keys_put_some (Nat.lt_of_lt_of_le hposition.1 ?_)
    rw [← length_keysOf during]
    exact (hgrows hash).length_le

/-- No key gets a second entry that was not brought into its bucket while it was compared. -/
theorem nodup_keys_put (hgrows : before.Grows during)
    (hposition : Engine.FoundAt key (before.keysOf hash) position)
    (hmeanwhile : key ∈ during.keys → key ∈ before.keysOf hash) (hnodup : during.keys.Nodup) :
    (during.put hash position key value).keys.Nodup := by
  by_cases hmem : key ∈ before.keysOf hash
  · rwa [keys_put_of_mem hgrows hposition hmem]
  · have hnew : (key :: during.keys).Nodup := List.nodup_cons.2 ⟨fun h => hmem (hmeanwhile h), hnodup⟩
    cases position with
    | none => exact perm_keys_put_none.nodup_iff.2 hnew
    | some i =>
      rcases Nat.lt_or_ge i (during.bucket hash).length with hlt | hge
      · rwa [keys_put_some hlt]
      · rw [put_some_of_ge hge]
        exact perm_keys_put_none.nodup_iff.2 hnew

/-- The first entry of a key has the value that was stored, unless the key came into its bucket
while it was compared. -/
theorem bucket_put_idxOf (value : Value) (hgrows : before.Grows during)
    (hmeanwhile : key ∈ during.keysOf hash → key ∈ before.keysOf hash) :
    let after := during.put hash
      (if key ∈ before.keysOf hash then some ((before.keysOf hash).idxOf key) else none) key value
    (after.bucket hash)[(after.keysOf hash).idxOf key]? = some (key, value) := by
  by_cases hmem : key ∈ before.keysOf hash
  · obtain ⟨more, hmore⟩ := hgrows hash
    have hidx : (during.keysOf hash).idxOf key = (before.keysOf hash).idxOf key := by
      rw [← hmore, List.idxOf_append_of_mem hmem]
    have hmem' : key ∈ during.keysOf hash := hmore ▸ List.mem_append_left more hmem
    have hlt : (during.keysOf hash).idxOf key < (during.bucket hash).length := by
      rw [← length_keysOf]
      exact List.idxOf_lt_length_of_mem hmem'
    have hkey : ((during.bucket hash)[(during.keysOf hash).idxOf key]).1 = key := by
      have hget := List.getElem_idxOf (List.idxOf_lt_length_of_mem hmem')
      simpa only [keysOf, List.getElem_map] using hget
    simp only [if_pos hmem, ← hidx, keysOf_put_some hlt, bucket_put_some hlt, if_true,
      List.getElem?_modify, List.getElem?_eq_getElem hlt, Option.map_eq_map, Option.map_some, hkey]
  · have hnot : key ∉ during.keysOf hash := fun h => hmem (hmeanwhile h)
    have hkeys : (during.put hash none key value).keysOf hash = during.keysOf hash ++ [key] := by
      simp only [keysOf, bucket_put_none, if_true, List.map_append, List.map_cons, List.map_nil]
    simp only [if_neg hmem, hkeys, List.idxOf_append_of_notMem hnot, bucket_put_none, if_true]
    rw [length_keysOf, List.idxOf_cons_self, Nat.add_zero, List.getElem?_concat_length]

end Table

/-! ## Assignments -/

variable {digests : Digests}

open Likeness in
/-- A table does not lose its entries, nor their places, while a key is compared. -/
theorem Engine.extends_positionOf {fuel : Nat} {key : Value} {n : Nat} {candidates : List Value}
    {m m' : Machine} {r : Option Nat}
    (h : (Engine.withFuel fuel digests).positionOf key n candidates m = .ok r m') :
    m.heap.Extends m'.heap := by
  have hagree :
    (growing m.heap False).Agree () ((Engine.withFuel fuel digests).positionOf key n candidates)
      ((Engine.withFuel fuel digests).positionOf key n candidates) fun _ _ => True :=
    (growing_knot m.heap False fuel).toCalls.positionOf trivial (fun _ _ => trivial) n
  exact hagree.extends h

open Likeness in
theorem Builtin.countsEntries_assignHash {fuel : Nat} {owner key value r : Value} {k k' : Machine}
    (hk : k.heap.CountsEntries)
    (h : Builtin.assignHash (Engine.withFuel fuel digests) owner key value k = .ok r k') :
    k'.heap.CountsEntries := by
  have hagree :
    (growing k.heap True).Agree () (Builtin.assignHash (.withFuel fuel digests) owner key value)
      (Builtin.assignHash (.withFuel fuel digests) owner key value) fun _ _ => True :=
    ((growing_knot k.heap True fuel).toCalls.store trivial trivial trivial).bind fun _ _ _ _ =>
      agree_newNone
  exact hagree.countsEntries hk h

theorem Machine.Reachable.countsEntries {config : Config} {m : Machine}
    (h : Reachable config digests m) :
    m.heap.CountsEntries := by
  intro v t ht
  have hkind := (h.isIdle.sound v trivial).kind
  rw [show (m.heap.get v).kind = .hash t from Heap.kind_of_table? ht] at hkind
  exact hkind.1

open Engine in
/-- A Hash knows how many entries it has. An assignment that succeeds, on whatever machine, gives a
key that was in its bucket before the comparisons no second entry, and gives no key a second entry
but by comparisons that bring the key itself into the bucket or by a hash that is not the one before.
When the comparisons told the key apart and did not bring it in, its entry has the value, which is
what is found when the key is looked up with the same hash, and told apart by comparisons that change
nothing. -/
theorem Machine.Reachable.hash_entries {config : Config} {m : Machine}
    (h : Reachable config digests m) :
    m.heap.CountsEntries ∧ ∀ (fuel : Nat) (owner key value r : Value) (k k' : Machine),
      Builtin.assignHash (withFuel fuel digests) owner key value k = .ok r k' →
      (k.heap.CountsEntries → k'.heap.CountsEntries) ∧
      ∃ hash k₁ before position k₂ during after,
        (withFuel fuel digests).hashOf key k = .ok hash k₁ ∧ k₁.heap.table? owner = some before ∧
        (withFuel fuel digests).positionOf key 0 (before.keysOf hash) k₁ = .ok position k₂ ∧
        k₂.heap.table? owner = some during ∧ k'.heap.table? owner = some after ∧
        before.Grows during ∧
        (key ∈ before.keysOf hash → after.keys = during.keys) ∧
        ((key ∈ during.keys → key ∈ before.keysOf hash) → during.keys.Nodup → after.keys.Nodup) ∧
        ((withFuel fuel digests).TellsApart key (before.keysOf hash) k₁ k₂ →
          (key ∈ during.keysOf hash → key ∈ before.keysOf hash) →
          (key, value) ∈ after.bucket hash ∧ ∀ (fuel' : Nat) (n n₁ n₂ : Machine),
            (withFuel fuel' digests).hashOf key n = .ok hash n₁ → n₁.heap.table? owner = some after →
            (withFuel fuel' digests).TellsApart key (after.keysOf hash) n₁ n₂ →
            n₂.heap.table? owner = some after →
            Builtin.indexHash (withFuel fuel' digests) owner key n = .ok value n₂) := by
  refine ⟨h.countsEntries, fun fuel owner key value r k k' hassign =>
    ⟨fun hk => Builtin.countsEntries_assignHash hk hassign, ?_⟩⟩
  obtain ⟨_, k₃, hstore, hnone⟩ := Run.bind_eq_ok hassign
  obtain ⟨hash, k₁, before, position, k₂, during, hhash, hbefore, hposition, hduring, hput⟩ :=
    store_eq_ok (tracks_withFuel fuel digests) hstore
  have hgrows : before.Grows during := (extends_positionOf hposition).grows hbefore hduring
  have hfound : FoundAt key (before.keysOf hash) position := by
    obtain ⟨p, hp, hfound⟩ := positionOf_eq_ok hposition
    have hsame : position = p := by simpa using hp
    rwa [hsame]
  have hafter : k'.heap.table? owner = some (during.put hash position key value) := by
    cases hnone
    rw [hput]
    exact Heap.table?_alloc (Heap.table?_setKind hduring) .none
  refine ⟨hash, k₁, before, position, k₂, during, _, hhash, hbefore, hposition, hduring, hafter, hgrows,
    Table.keys_put_of_mem hgrows hfound, Table.nodup_keys_put hgrows hfound, ?_⟩
  intro hapart hmeanwhile
  have hplace : position =
      if key ∈ before.keysOf hash then some ((before.keysOf hash).idxOf key) else none := by
    have hplaced := hapart.positionOf 0
    rw [hposition, Nat.zero_add] at hplaced
    exact (EStateM.Result.ok.inj hplaced).1
  have hentry := Table.bucket_put_idxOf value hgrows hmeanwhile
  rw [← hplace] at hentry
  refine ⟨List.mem_of_getElem? hentry, fun fuel' n n₁ n₂ hhash' htable hapart' htable' => ?_⟩
  have hstored := hapart'.stored? (tracks_withFuel ..) hhash' htable htable' rfl hentry
  simp only [Builtin.indexHash, bind, EStateM.bind, hstored]
  rfl

open Engine in
/-- Two objects of a class with a hash and a comparison of its own are in one bucket. The first
comparison of the two stores under another key of the same Hash, later ones do not. Then the second
object has one entry, which has the value, and this is what it is looked up as. -/
theorem Machine.Reachable.hash_entries_collision :
    ∃ m owner key value r k' after hash n, Reachable .standard .standard m ∧
      Builtin.assignHash (withFuel 40 .standard) owner key value m = .ok r k' ∧
      k'.heap.table? owner = some after ∧ after.size = 3 ∧ after.keys.Nodup ∧
      (after.keysOf hash).length = 2 ∧ (key, value) ∈ after.bucket hash ∧
      Builtin.indexHash (withFuel 40 .standard) owner key k' = .ok value n := by
  let at' : Span := ⟨some 1⟩
  let name : String → Expr := .identifier at'
  let assign : Expr → Expr → Node := fun target value => .assign at' target .assign value
  let zero : Expr := .integer at' "0"
  let one : Expr := .integer at' "1"
  let program : Program := .ofBody [
    assign (name "h") (.hash at' []),
    assign (name "asked") (.array at' [.bool at' false]),
    .classDef at' "K" [] [
      .function at' ⟨"Hash", [], [.exit at' [one]]⟩,
      .function at' ⟨"Equals", ["other"], [
        .conditional at' true ⟨.index at' (name "asked") zero, [
          assign (.index at' (name "asked") zero) (.bool at' true),
          assign (.index at' (name "h") zero) one]⟩ [] none,
        .exit at' [.bool at' false]]⟩],
    assign (name "a") (.call at' (name "K") []),
    assign (name "b") (.call at' (name "K") []),
    assign (.index at' (name "h") (name "a")) zero,
    .exit at' [.tuple at' [name "h", name "b", one]]]
  let e := withFuel 40 .standard
  have hends : (program.compile.toOption.any fun code =>
      (finished? ((Service.withFuel 40 .standard).serve (.execute code) (.new .standard))).any fun x =>
      x.1.value?.any fun result => (x.2.heap.items? result).any fun items =>
      items[0]?.any fun owner => items[1]?.any fun key => items[2]?.any fun value =>
      (finished? (e.hashOf key x.2)).any fun asked =>
      (asked.2.heap.table? owner).any fun before =>
      (e.apart? key (before.keysOf asked.1) asked.2).any fun k₂ =>
      (k₂.heap.table? owner).any fun during =>
      (finished? (Builtin.assignHash e owner key value x.2)).any fun assigned =>
      (assigned.2.heap.table? owner).any fun after =>
      (finished? (e.hashOf key assigned.2)).any fun asked' =>
      (e.apart? key (after.keysOf asked.1) asked'.2).any fun n₂ =>
      key ∉ during.keys && decide during.keys.Nodup && after.size == 3 &&
      (after.keysOf asked.1).length == 2 && asked'.1 == asked.1 &&
      asked'.2.heap.table? owner == some after && n₂.heap.table? owner == some after) = true := by
    decide +kernel
  obtain ⟨code, -, hends⟩ := (Option.any_eq_true _ _).1 hends
  obtain ⟨⟨_, m⟩, hrun, hends⟩ := (Option.any_eq_true _ _).1 hends
  obtain ⟨result, -, hends⟩ := (Option.any_eq_true _ _).1 hends
  obtain ⟨items, -, hends⟩ := (Option.any_eq_true _ _).1 hends
  obtain ⟨owner, -, hends⟩ := (Option.any_eq_true _ _).1 hends
  obtain ⟨key, -, hends⟩ := (Option.any_eq_true _ _).1 hends
  obtain ⟨value, -, hends⟩ := (Option.any_eq_true _ _).1 hends
  obtain ⟨⟨hash, k₁⟩, hhash, hends⟩ := (Option.any_eq_true _ _).1 hends
  obtain ⟨before, hbefore, hends⟩ := (Option.any_eq_true _ _).1 hends
  obtain ⟨k₂, hapart, hends⟩ := (Option.any_eq_true _ _).1 hends
  obtain ⟨during, hduring, hends⟩ := (Option.any_eq_true _ _).1 hends
  obtain ⟨⟨r, k'⟩, hassigned, hends⟩ := (Option.any_eq_true _ _).1 hends
  obtain ⟨after, hafter, hends⟩ := (Option.any_eq_true _ _).1 hends
  obtain ⟨⟨hash', n₁⟩, hhash', hends⟩ := (Option.any_eq_true _ _).1 hends
  obtain ⟨n₂, hapart', hends⟩ := (Option.any_eq_true _ _).1 hends
  simp only [Bool.and_eq_true, decide_eq_true_eq, beq_iff_eq] at hends
  obtain ⟨⟨⟨⟨⟨⟨hnew, hnodup⟩, hsize⟩, hlength⟩, rfl⟩, htable⟩, htable'⟩ := hends
  have hm : Reachable .standard .standard m := .served .new (.ok (eq_ok_of_finished? hrun))
  have hassign := eq_ok_of_finished? hassigned
  obtain ⟨-, hassigns⟩ := hm.hash_entries
  obtain ⟨-, _, _, _, position, _, _, _, hhash₀, hbefore₀, hposition, hduring₀, hafter₀, -, -,
    hdistinct,
    hstores⟩ := hassigns 40 owner key value r m k' hassign
  -- The machines and tables that the theorem speaks of are the ones that were computed.
  obtain ⟨rfl, rfl⟩ := EStateM.Result.ok.inj ((eq_ok_of_finished? hhash).symm.trans hhash₀)
  obtain rfl := Option.some.inj (hbefore.symm.trans hbefore₀)
  obtain ⟨-, rfl⟩ := EStateM.Result.ok.inj
    (((tellsApart_of_apart? hapart).positionOf 0).symm.trans hposition)
  obtain rfl := Option.some.inj (hduring.symm.trans hduring₀)
  obtain rfl := Option.some.inj (hafter.symm.trans hafter₀)
  have hnew' : ∀ hash, key ∉ during.keysOf hash := fun hash hkey =>
    hnew (Table.mem_keys_of_mem_keysOf hkey)
  obtain ⟨hentry, hindex⟩ := hstores (tellsApart_of_apart? hapart) fun h => absurd h (hnew' _)
  exact ⟨m, owner, key, value, r, k', after, _, n₂, hm, hassign, hafter, hsize,
    hdistinct (fun h => absurd h hnew) hnodup, hlength, hentry,
    hindex 40 k' n₁ n₂ (eq_ok_of_finished? hhash') htable (tellsApart_of_apart? hapart') htable'⟩

/-- Comparing keys may bring in the key that is being stored: here the first comparison of two objects
with the same hash stores under the second one. The table then has two entries for it. -/
theorem Machine.Reachable.not_nodup_keys :
    ∃ m owner t, Reachable .standard .standard m ∧ m.heap.table? owner = some t ∧ ¬t.keys.Nodup := by
  let at' : Span := ⟨some 1⟩
  let name : String → Expr := .identifier at'
  let assign : Expr → Expr → Node := fun target value => .assign at' target .assign value
  let zero : Expr := .integer at' "0"
  let one : Expr := .integer at' "1"
  let program : Program := .ofBody [
    assign (name "h") (.hash at' []),
    assign (name "asked") (.array at' [.bool at' false]),
    .classDef at' "K" [] [
      .function at' ⟨"Hash", [], [.exit at' [one]]⟩,
      .function at' ⟨"Equals", ["other"], [
        .conditional at' true ⟨.index at' (name "asked") zero, [
          assign (.index at' (name "asked") zero) (.bool at' true),
          assign (.index at' (name "h") (name "other")) zero]⟩ [] none,
        .exit at' [.bool at' false]]⟩],
    assign (name "a") (.call at' (name "K") []),
    assign (name "b") (.call at' (name "K") []),
    assign (.index at' (name "h") (name "a")) zero,
    assign (.index at' (name "h") (name "b")) one]
  have hends : (program.compile.toOption.any fun code =>
      (finished? ((Service.withFuel 40 .standard).serve (.execute code) (.new .standard))).any fun x =>
      (List.range x.2.heap.objects.size).any fun i =>
      (x.2.heap.table? ⟨i⟩).any fun t => !decide t.keys.Nodup) = true := by
    decide +kernel
  obtain ⟨code, -, hends⟩ := (Option.any_eq_true _ _).1 hends
  obtain ⟨⟨a, m⟩, hend, hends⟩ := (Option.any_eq_true _ _).1 hends
  obtain ⟨i, -, htable⟩ := List.any_eq_true.1 hends
  obtain ⟨t, ht, hnodup⟩ := (Option.any_eq_true _ _).1 htable
  exact ⟨m, ⟨i⟩, t, .served .new (.ok (eq_ok_of_finished? hend)), ht, by simpa using hnodup⟩

end ScriptVM
