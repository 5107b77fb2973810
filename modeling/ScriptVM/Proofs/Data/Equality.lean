import ScriptVM.Proofs.Data.Keeping
import ScriptVM.Proofs.Storage

/-!
# Equality of data

On every machine that a host can bring about, values that are made of data only are compared by what
they say, and so equality is an equivalence relation on them. Those that are keys of a Hash are asked
for their hashes by what they say as well, so a Hash does not tell equal keys apart. Floats are not
among them: the hash of a Float is made of its text, and a Float equals an Integer of another hash.
-/
namespace ScriptVM

variable {m : Machine} {v w : Value} {x y : Data} {n fuel : Nat} {d digests : Digests}

/-- Whether a machine finds values equal, as soon as it is given enough fuel. -/
def Machine.Equates (digests : Digests) (m : Machine) (v w : Value) : Prop :=
  ∃ needed, ∀ fuel, needed ≤ fuel → ∃ m', (Engine.withFuel fuel digests).equals v w m = .ok true m'

namespace Heap

variable {h : Heap}

theorem Holds.tag_eq (hv : h.Holds n v x) (hw : h.Holds n w x) : h.tag v = h.tag w := by
  cases n with
  | zero => exact hv.elim
  | succ n =>
    have hv := hv.2
    have hw := hw.2
    simp only [tag]
    generalize h.kind v = kind at hv
    generalize h.kind w = kind' at hw
    cases hv <;> cases hw <;> rfl

/-- Values of different types do not say the same. -/
theorem Says.tag_eq (hv : h.Says v x) (hw : h.Says w x) : h.tag v = h.tag w := by
  obtain ⟨n, hv⟩ := hv
  obtain ⟨n', hw⟩ := hw
  exact (hv.mono (Nat.le_max_left n n')).tag_eq (hw.mono (Nat.le_max_right n n'))

end Heap

namespace Heap.Settled

variable (hs : m.heap.Settled digests) (hcounts : m.heap.CountsEntries)
include hs hcounts

/-- On a heap of settled data, values are compared by what they say, and the operators of equality
only ask. -/
theorem exists_answers (hv : m.heap.Says v x) (hw : m.heap.Says w y) :
    ∃ needed, ∀ fuel, needed ≤ fuel → ∃ b h answer h',
      (Engine.withFuel fuel digests).equals v w m = .ok b { m with heap := h } ∧
        m.heap.Asked digests h ∧
      (Engine.withFuel fuel digests).operation .notEquals v w m = .ok answer { m with heap := h' } ∧
      m.heap.Asked digests h' ∧ h'.bool? answer = some (!b) ∧ (b = true ↔ x = y) := by
  obtain ⟨n, hv⟩ := hv
  obtain ⟨n', hw⟩ := hw
  have hv := hs.presents hcounts (hv.mono (Nat.le_max_left n n'))
  have hw := hs.presents hcounts (hw.mono (Nat.le_max_right n n'))
  refine ⟨max n n', fun fuel hfuel => ?_⟩
  obtain ⟨b, ⟨h, ha, hb⟩, hiff⟩ := Engine.compares digests _ hfuel hv hw
  obtain ⟨b', h', ha', hiff', hnot⟩ := Engine.exists_notEquals_eq hfuel hv hw
  obtain rfl : b = b' := Bool.eq_iff_iff.2 (hiff.trans hiff'.symm)
  have hanswer : (h'.alloc (.bool !b)).2.bool? (h'.alloc (.bool !b)).1 = some (!b) := by
    rw [bool?, kind_alloc]
  exact ⟨b, h, _, _, hb, ha, hnot, ha'.trans (asked_alloc h' _), hanswer, hiff⟩

/-- Comparing does not fail, not even with too little fuel. -/
theorem equals_ne_failed (hv : m.heap.Says v x) (hw : m.heap.Says w y) (fuel : Nat) (f : Failure)
    (m' : Machine) : (Engine.withFuel fuel digests).equals v w m ≠ .error (.failed f) m' := by
  intro hfailed
  obtain ⟨needed, hall⟩ := hs.exists_answers hcounts hv hw
  obtain ⟨b, h, -, -, hb, -⟩ := hall _ (Nat.le_max_right fuel needed)
  have hmore : (Engine.withFuel (max fuel needed) digests).equals v w m =
    (Engine.withFuel fuel digests).equals v w m :=
    Likeness.eq_of_agree_same
      ((Likeness.same_engines digests (Nat.le_max_left fuel needed)).equals trivial trivial)
      (by rw [hfailed]; rfl)
  cases hb.symm.trans (hmore.trans hfailed)

theorem equates_iff (hv : m.heap.Says v x) (hw : m.heap.Says w y) : m.Equates digests v w ↔ x = y := by
  obtain ⟨needed, hall⟩ := hs.exists_answers hcounts hv hw
  constructor
  · rintro ⟨needed', hequal⟩
    obtain ⟨b, h, -, -, hb, -, -, -, -, hiff⟩ := hall _ (Nat.le_max_left needed needed')
    obtain ⟨m', htrue⟩ := hequal _ (Nat.le_max_right needed needed')
    cases hb.symm.trans htrue
    exact hiff.1 rfl
  · rintro rfl
    refine ⟨needed, fun fuel hfuel => ?_⟩
    obtain ⟨b, h, -, -, hb, -, -, -, -, hiff⟩ := hall fuel hfuel
    obtain rfl := hiff.2 rfl
    exact ⟨_, hb⟩

end Heap.Settled

/-- What serving a request comes to is something that a host can bring about. -/
theorem Machine.Reachable.of_ok {α : Type} {config : Config} {x : Run α} {a : α} {m' : Machine}
    {r : Request Value} {f : α → Answer} (h : Reachable config digests m)
    (hserve : (Service.withFuel fuel digests).serve r = f <$> x) (hx : x m = .ok a m') :
    Reachable config digests m' := by
  have hend : (Service.withFuel fuel digests).serve r m = .ok (f a) m' := by
    rw [hserve, map_eq_pure_bind]
    simp only [bind, EStateM.bind, hx]
    rfl
  exact .served h (.ok hend)

open Engine in
/-- Finite values that are made of `None`, Bools, Integers, Strings, Bytes, Tuples, Arrays and Hashes,
whose members nobody changed, are compared by what they say, a Hash by its map. Comparing them never
fails, gives a result as soon as there is enough fuel, the opposite one with the other operator, and
leaves what every value says as it is. Values of different types are not equal, and equality is an
equivalence relation. -/
theorem Machine.Reachable.equals_data {config : Config} {m : Machine} (h : Reachable config digests m) :
    (∀ v, m.heap.IsData v → ∃! x, m.heap.Says v x) ∧
    (∀ v w x y, m.heap.Says v x → m.heap.Says w y →
      (∀ fuel f k, (withFuel fuel digests).equals v w m ≠ .error (.failed f) k) ∧
      ∃ needed, ∀ fuel, needed ≤ fuel → ∃ b k answer k',
        (withFuel fuel digests).equals v w m = .ok b k ∧ Reachable config digests k ∧
        (withFuel fuel digests).operation .notEquals v w m = .ok answer k' ∧
          Reachable config digests k' ∧
        k'.heap.bool? answer = some (!b) ∧ (b = true ↔ x = y) ∧
        (b = true → m.heap.tag v = m.heap.tag w) ∧
        ∀ u z, m.heap.Says u z → k.heap.Says u z ∧ k'.heap.Says u z) ∧
    Equivalence fun v w : {v // m.heap.IsData v} => m.Equates digests v w := by
  have hs := h.settled
  have hcounts := h.countsEntries
  refine ⟨fun v hv => ?_, fun v w x y hv hw => ⟨hs.equals_ne_failed hcounts hv hw, ?_⟩, ?_⟩
  · obtain ⟨x, hx⟩ := hs.says_of_isData hv
    exact ⟨x, hx, fun y hy => hy.unique hx⟩
  · obtain ⟨needed, hall⟩ := hs.exists_answers hcounts hv hw
    refine ⟨needed, fun fuel hfuel => ?_⟩
    obtain ⟨b, heap, answer, heap', hb, ha, hnot, ha', hanswer, hiff⟩ := hall fuel hfuel
    have htag : b = true → m.heap.tag v = m.heap.tag w := fun htrue =>
      hv.tag_eq (hiff.1 htrue ▸ hw)
    have hk : Reachable config digests { m with heap := heap } := h.of_ok (r := .equals v w) rfl hb
    have hk' : Reachable config digests { m with heap := heap' } :=
      h.of_ok (r := .operation .notEquals v w) rfl hnot
    exact ⟨b, _, answer, _, hb, hk, hnot, hk', hanswer, hiff, htag,
      fun u z hu => ⟨ha.sameContent hu, ha'.sameContent hu⟩⟩
  · choose content hcontent using fun v : {v // m.heap.IsData v} => hs.says_of_isData v.2
    have hequates : ∀ v w : {v // m.heap.IsData v}, m.Equates digests v w ↔ content v = content w :=
      fun v w => hs.equates_iff hcounts (hcontent v) (hcontent w)
    simp only [hequates]
    exact ⟨fun _ => rfl, Eq.symm, Eq.trans⟩

open Engine in
/-- Two Hashes with the same entries in another order, whose values are an Array with a Tuple in it and
`None`. -/
theorem Machine.Reachable.equals_data_reordered :
    ∃ m v w t u x, Reachable .standard .standard m ∧ m.heap.table? v = some t ∧ m.heap.table? w =
      some u ∧
      t.buckets.map (·.hash) = (u.buckets.map (·.hash)).reverse ∧ t.buckets.length = 2 ∧
      m.heap.Says v x ∧ m.heap.Says w x ∧ m.Equates .standard v w := by
  let at' : Span := ⟨some 1⟩
  let name : String → Expr := .identifier at'
  let assign : Expr → Expr → Node := fun target value => .assign at' target .assign value
  let items : Expr :=
    .array at' [.integer at' "2", .tuple at' [.integer at' "3", .string at' "x"]]
  let program : Program := .ofBody [
    assign (name "a") (.hash at' [(.integer at' "1", items), (.string at' "k", .none at')]),
    assign (name "b") (.hash at' [(.string at' "k", .none at'), (.integer at' "1", items)])]
  have hends : (program.compile.toOption.any fun code =>
      (finished? ((Service.withFuel 40 .standard).serve (.execute code) (.new .standard))).any fun x =>
      (List.range x.2.heap.objects.size).any fun i => (List.range x.2.heap.objects.size).any fun j =>
      (x.2.heap.table? ⟨i⟩).any fun t => (x.2.heap.table? ⟨j⟩).any fun u =>
      t.buckets.length = 2 && t.buckets.map (·.hash) = (u.buckets.map (·.hash)).reverse &&
      x.2.heap.isData 4 ⟨i⟩ && x.2.heap.isData 4 ⟨j⟩ &&
      (finished? ((withFuel 9 .standard).equals ⟨i⟩ ⟨j⟩ x.2)).any (·.1)) = true := by
    decide +kernel
  obtain ⟨code, -, hends⟩ := (Option.any_eq_true _ _).1 hends
  obtain ⟨⟨a, m⟩, hend, hends⟩ := (Option.any_eq_true _ _).1 hends
  obtain ⟨i, -, hends⟩ := List.any_eq_true.1 hends
  obtain ⟨j, -, hends⟩ := List.any_eq_true.1 hends
  obtain ⟨t, ht, hends⟩ := (Option.any_eq_true _ _).1 hends
  obtain ⟨u, hu, hends⟩ := (Option.any_eq_true _ _).1 hends
  simp only [Bool.and_eq_true, decide_eq_true_iff] at hends
  obtain ⟨⟨⟨⟨hlength, horder⟩, hv⟩, hw⟩, hequal⟩ := hends
  obtain ⟨⟨b, k⟩, hb, htrue⟩ := (Option.any_eq_true _ _).1 hequal
  have hb := eq_ok_of_finished? hb
  have hm : Reachable .standard .standard m := .served .new (.ok (eq_ok_of_finished? hend))
  obtain ⟨hcontents, hequals, -⟩ := hm.equals_data
  obtain ⟨x, hx, -⟩ := hcontents _ (.of_isData hv)
  obtain ⟨y, hy, -⟩ := hcontents _ (.of_isData hw)
  obtain ⟨-, needed, hall⟩ := hequals _ _ x y hx hy
  have hmore : (withFuel (max 9 needed) .standard).equals ⟨i⟩ ⟨j⟩ m = .ok b k :=
    Likeness.ok_of_agree_same
      ((Likeness.same_engines .standard (Nat.le_max_left 9 needed)).equals trivial trivial) hb
  obtain ⟨b', _, _, _, hb', -, -, -, -, hiff, -⟩ := hall _ (Nat.le_max_right 9 needed)
  cases hmore.symm.trans hb'
  obtain rfl : x = y := hiff.1 htrue
  refine ⟨m, ⟨i⟩, ⟨j⟩, t, u, x, hm, ht, hu, horder, hlength, hx, hy, needed, fun fuel hfuel => ?_⟩
  obtain ⟨b', k', _, _, hb', -, -, -, -, hiff, -⟩ := hall fuel hfuel
  obtain rfl := hiff.2 rfl
  exact ⟨k', hb'⟩

/-! ## Keys -/

namespace Engine

variable {a b u owner : Value} {t : Table} {content : Value → Key} {hash : Int64} {k l : Key}

/-- Values that say keys with a hash are compared and asked for their hashes. -/
theorem exists_asks (hs : m.heap.Settled d) (ha : m.heap.Bears a k) (hb : m.heap.Bears b l)
    (hk : k.isHashable = true) (hl : l.isHashable = true) (hdepth : max k.depth l.depth < fuel) :
    ∃ hash hash' m₁ m₂ m₃, k.hash? d = some hash ∧ l.hash? d = some hash' ∧
      (withFuel fuel d).equals a b m = .ok (decide (k = l)) m₁ ∧
      (withFuel fuel d).hashOf a m = .ok hash m₂ ∧ (withFuel fuel d).hashOf b m = .ok hash' m₃ := by
  have hshows := hs.shows hk ha
  have hshows' := hs.shows hl hb
  obtain ⟨hdepth, hdepth'⟩ := Nat.max_lt.1 hdepth
  obtain ⟨hash, hhash⟩ := Key.exists_hash? d hk
  obtain ⟨hash', hhash'⟩ := Key.exists_hash? d hl
  have hasked := ends_hashOf hshows hdepth
  have hasked' := ends_hashOf hshows' hdepth'
  rw [hhash] at hasked
  rw [hhash'] at hasked'
  obtain ⟨_, -, hequal⟩ := ends_equals hshows hshows' hk hdepth
  obtain ⟨_, -, hfirst⟩ := hasked
  obtain ⟨_, -, hsecond⟩ := hasked'
  exact ⟨hash, hash', _, _, _, hhash, hhash', hequal, hfirst, hsecond⟩

/-- A key that is found has its value and is present. -/
theorem exists_lookups (ht : m.heap.Keyed d n owner t content) (hb : m.heap.Shows d b k)
    (hhash : k.hash? d = some hash) (hdepth : k.depth < n) (hn : n ≤ fuel)
    (hfinds : t.Finds hash (fun candidate => content candidate = k) u) :
    ∃ m₁ m₂, Builtin.indexHash (withFuel fuel d) owner b m = .ok u m₁ ∧
      (withFuel fuel d).isStored owner b m = .ok true m₂ := by
  have hdepth' := Nat.lt_of_lt_of_le hdepth hn
  obtain ⟨h, -, hstored⟩ := ends_stored?_of_finds ht hb hhash hdepth' hn hfinds
  obtain ⟨h', -, hlocate⟩ := ends_locate_of_keyed ht hb hhash hdepth' hn
  obtain ⟨i, hplace, -⟩ := hfinds
  refine ⟨{ m with heap := h }, { m with heap := h' }, ?_, ?_⟩
  · simp only [Builtin.indexHash, bind, EStateM.bind, hstored]
    rfl
  · simp only [isStored, keep_withFuel, bind, EStateM.bind, hlocate, hplace]
    rfl

/-- Two stores under keys that say the same make one entry, which is found under both. -/
theorem exists_stores (ht : m.heap.Keyed d n owner t content) (ha : m.heap.Shows d a k)
    (hb : m.heap.Shows d b k) (hcontent : content a = k) (hcontent' : content b = k)
    (hk : k.isHashable = true) (hdepth : k.depth < n) (hn : n ≤ fuel) (u v : Value) :
    ∃ r r' m₁ m₂ m₃ m₄ m₅ t₁ t₂,
      Builtin.assignHash (withFuel fuel d) owner a u m = .ok r m₁ ∧
      m₁.heap.table? owner = some t₁ ∧
      Builtin.indexHash (withFuel fuel d) owner b m₁ = .ok u m₂ ∧
      (withFuel fuel d).isStored owner b m₁ = .ok true m₃ ∧
      Builtin.assignHash (withFuel fuel d) owner b v m₁ = .ok r' m₄ ∧
      m₄.heap.table? owner = some t₂ ∧ t₂.keys = t₁.keys ∧
      Builtin.indexHash (withFuel fuel d) owner a m₄ = .ok v m₅ := by
  obtain ⟨hash, hhash⟩ := Key.exists_hash? d hk
  obtain ⟨r, m₁, t₁, hfirst, ht₁, hfinds₁, -, hshows₁⟩ :=
    exists_assignHash_eq ht ha hcontent hk hhash hdepth hn u
  have hb₁ := hshows₁ b k hb
  obtain ⟨m₂, m₃, hindex, hpresent⟩ := exists_lookups ht₁ hb₁ hhash hdepth hn hfinds₁
  obtain ⟨r', m₄, t₂, hsecond, ht₂, hfinds₂, hkeys, hshows₂⟩ :=
    exists_assignHash_eq ht₁ hb₁ hcontent' hk hhash hdepth hn v
  have ha₂ := hshows₂ a k (hshows₁ a k ha)
  obtain ⟨m₅, -, hindex', -⟩ := exists_lookups ht₂ ha₂ hhash hdepth hn hfinds₂
  exact ⟨r, r', m₁, m₂, m₃, m₄, m₅, t₁, t₂, hfirst, ht₁.table, hindex, hpresent, hsecond, ht₂.table,
    hkeys u hfinds₁, hindex'⟩

end Engine

open Engine in
/-- Keys that are made of `None`, Bools, Integers, Strings, Bytes and Tuples of these, whose members
nobody changed, are equal if they say the same and only then, and equal ones have one hash. In a Hash
that has only such keys, what is stored under one of two equal keys is found under the other one, and
a store under the other one puts its value in the place of the first and adds no entry. -/
theorem Machine.Reachable.equal_keys {config : Config} {m : Machine} (h : Reachable config digests m)
    {a b : Value} {k l : Key} (ha : m.heap.Bears a k) (hb : m.heap.Bears b l)
    (hk : k.isHashable = true) (hl : l.isHashable = true) :
    (∃ needed, ∀ fuel, needed ≤ fuel → ∃ equal hash hash' m₁ m₂ m₃,
      (withFuel fuel digests).equals a b m = .ok equal m₁ ∧ (withFuel fuel digests).hashOf a m =
        .ok hash m₂ ∧
      (withFuel fuel digests).hashOf b m = .ok hash' m₃ ∧ (equal = true ↔ k = l) ∧
      (equal = true → hash = hash')) ∧
    (m.Equates digests a b → ∀ owner t, m.heap.table? owner = some t →
      (∀ key ∈ t.keys, m.heap.IsKey key) →
      ∃ needed, ∀ fuel, needed ≤ fuel → ∀ u v, ∃ r r' m₁ m₂ m₃ m₄ m₅ t₁ t₂,
        Builtin.assignHash (withFuel fuel digests) owner a u m = .ok r m₁ ∧
        m₁.heap.table? owner = some t₁ ∧
        Builtin.indexHash (withFuel fuel digests) owner b m₁ = .ok u m₂ ∧
        (withFuel fuel digests).isStored owner b m₁ = .ok true m₃ ∧
        Builtin.assignHash (withFuel fuel digests) owner b v m₁ = .ok r' m₄ ∧
        m₄.heap.table? owner = some t₂ ∧ t₂.keys = t₁.keys ∧
        Builtin.indexHash (withFuel fuel digests) owner a m₄ = .ok v m₅) := by
  have hs := h.settled
  refine ⟨⟨max k.depth l.depth + 1, fun fuel hfuel => ?_⟩, fun hequates owner t ht hkeys => ?_⟩
  · obtain ⟨hash, hash', m₁, m₂, m₃, hhash, hhash', hequal, hfirst, hsecond⟩ :=
      exists_asks hs ha hb hk hl hfuel
    refine ⟨_, hash, hash', m₁, m₂, m₃, hequal, hfirst, hsecond, decide_eq_true_iff, fun hsame => ?_⟩
    obtain rfl : k = l := of_decide_eq_true hsame
    exact Option.some.inj (hhash.symm.trans hhash')
  · obtain ⟨needed, hall⟩ := hequates
    obtain rfl : k = l := by
      obtain ⟨_, _, m₁, _, _, -, -, hequal, -⟩ :=
        exists_asks hs ha hb hk hl (Nat.le_max_left (max k.depth l.depth + 1) needed)
      obtain ⟨m', htrue⟩ := hall _ (Nat.le_max_right (max k.depth l.depth + 1) needed)
      exact of_decide_eq_true (EStateM.Result.ok.inj (hequal.symm.trans htrue)).1
    obtain ⟨n, hn⟩ := hs.exists_keyed ht hkeys
    have hkeyed := hn.mono (Nat.le_max_left n (k.depth + 1))
    exact ⟨max n (k.depth + 1), fun fuel hfuel u v =>
      exists_stores hkeyed (hs.shows hk ha) (hs.shows hk hb) ha.keyOf_eq hb.keyOf_eq hk
        (Nat.le_max_right n (k.depth + 1)) hfuel u v⟩

open Engine in
/-- Two Strings with the same text, one after the other as the key of a new Hash. -/
theorem Machine.Reachable.equal_keys_strings :
    ∃ m a b owner fuel r r' m₁ m₂ m₄ t₁ t₂, Reachable .standard .standard m ∧ a ≠ b ∧
      Builtin.assignHash (withFuel fuel .standard) owner a a m = .ok r m₁ ∧
      m₁.heap.table? owner = some t₁ ∧ Builtin.indexHash (withFuel fuel .standard) owner b m₁ =
        .ok a m₂ ∧
      Builtin.assignHash (withFuel fuel .standard) owner b b m₁ = .ok r' m₄ ∧
      m₄.heap.table? owner = some t₂ ∧ t₂.keys = t₁.keys := by
  have hends :
    ((finished? ((Service.withFuel 0 .standard).serve (.make .hash) (.new .standard))).any fun x =>
      x.1.value?.any fun owner =>
      (finished? ((Service.withFuel 0 .standard).serve (.make (.string "k")) x.2)).any fun y =>
      y.1.value?.any fun a =>
      (finished? ((Service.withFuel 0 .standard).serve (.make (.string "k")) y.2)).any fun z =>
      z.1.value?.any fun b => (z.2.heap.table? owner).any fun t =>
      a ≠ b && t.keys.isEmpty && z.2.heap.isPristine a && z.2.heap.isPristine b &&
      z.2.heap.text? a = some "k" && z.2.heap.text? b = some "k") = true := by
    decide +kernel
  obtain ⟨⟨_, m₁⟩, hfirst, hends⟩ := (Option.any_eq_true _ _).1 hends
  obtain ⟨owner, -, hends⟩ := (Option.any_eq_true _ _).1 hends
  obtain ⟨⟨_, m₂⟩, hsecond, hends⟩ := (Option.any_eq_true _ _).1 hends
  obtain ⟨a, -, hends⟩ := (Option.any_eq_true _ _).1 hends
  obtain ⟨⟨_, m⟩, hthird, hends⟩ := (Option.any_eq_true _ _).1 hends
  obtain ⟨b, -, hends⟩ := (Option.any_eq_true _ _).1 hends
  obtain ⟨t, ht, hends⟩ := (Option.any_eq_true _ _).1 hends
  simp only [Bool.and_eq_true, decide_eq_true_iff, List.isEmpty_iff] at hends
  obtain ⟨⟨⟨⟨⟨hne, hempty⟩, hpristine⟩, hpristine'⟩, htext⟩, htext'⟩ := hends
  have hm : Reachable .standard .standard m := .served (.served (.served .new
    (.ok (eq_ok_of_finished? hfirst))) (.ok (eq_ok_of_finished? hsecond)))
    (.ok (eq_ok_of_finished? hthird))
  have ha : m.heap.Bears a (.string "k") := ⟨.of_isPristine hpristine, Heap.kind_of_text? htext⟩
  have hb : m.heap.Bears b (.string "k") := ⟨.of_isPristine hpristine', Heap.kind_of_text? htext'⟩
  obtain ⟨⟨needed, hasks⟩, hstores⟩ := hm.equal_keys ha hb rfl rfl
  have hequates : m.Equates .standard a b := by
    refine ⟨needed, fun fuel hfuel => ?_⟩
    obtain ⟨equal, -, -, k, -, -, hequal, -, -, hiff, -⟩ := hasks fuel hfuel
    exact ⟨k, hiff.2 rfl ▸ hequal⟩
  obtain ⟨fuel, hall⟩ := hstores hequates owner t ht fun key hkey =>
    absurd (hempty ▸ hkey) List.not_mem_nil
  obtain ⟨r, r', k₁, k₂, -, k₄, -, t₁, t₂, hassign, ht₁, hindex, -, hassign', ht₂, hkeys, -⟩ :=
    hall fuel (Nat.le_refl fuel) a b
  exact ⟨m, a, b, owner, fuel, r, r', k₁, k₂, k₄, t₁, t₂, hm, hne, hassign, ht₁, hindex, hassign',
    ht₂, hkeys⟩

end ScriptVM
