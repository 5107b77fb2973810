import ScriptVM.Proofs.Data.Settled
import ScriptVM.Proofs.Session.Lasting

/-!
# Data stays settled

Whatever a machine does, hashes are remembered rightly and the keys of Hashes are where they belong.
All but two things that happen to objects leave hashes and entries alone. Where a value remembers its
hash and says a key, its hash was computed from what it says. Where a value is stored and all keys of
the Hash say keys in the end, they said them all along, so that comparing them ran no code of the
program: no key of the bucket says what the new one says, and nothing was stored meanwhile.
-/
namespace ScriptVM

namespace Lasting

variable {inv : Heap → Prop} {allows : Object → Object → Prop}

/-- Something that stays true of the objects, however generators change. -/
def ofChanges (inv : Heap → Prop) (allows : Object → Object → Prop)
    (allows_mild : ∀ {o o'}, o.Mild o' → allows o o')
    (inv_alloc : ∀ {h}, inv h → ∀ k, h.Lends k → inv (h.alloc k).2)
    (inv_modify : ∀ {h}, inv h → ∀ {v : Value} {f : Object → Object},
      allows (h.get v) (f (h.get v)) → inv (h.modify v f)) : Lasting where
  inv := inv
  becomes _ _ _ := True
  becomes_refl _ _ := trivial
  becomes_framed _ _ _ := trivial
  becomes_exhausted _ _ := trivial
  becomes_delivered _ _ := trivial
  allows := allows
  allows_mild := allows_mild
  inv_alloc := inv_alloc
  inv_modify hinv _ _ _ := inv_modify hinv
  excuses := Cutoff.Stops
  excuses_gaveUp := Cutoff.stops
  excuses_placedAt := Cutoff.Stops.placedAt
  oneWay _ := False

/-- No object loses what it keeps. -/
def preceding (old : Heap) : Lasting :=
  ofChanges old.Precedes Object.Precedes (fun h => h.toPrecedes)
    (fun h k _ => h.trans (Heap.precedes_alloc _ k)) fun h _ _ hf => h.trans (Heap.precedes_modify hf)

theorem preceding_steps (digests : Digests) (old : Heap) : (preceding old).Steps digests :=
  .of_becomes (fun _ _ h => h) (fun _ C => C.calls id) fun _ _ _ => trivial

/-- Data is settled. -/
def settled (digests : Digests) : Lasting :=
  ofChanges (·.Settled digests) Object.Mild id (fun h _ hk => h.alloc hk) fun h _ _ hf =>
    h.modify_mild hf

end Lasting

variable {m m' k : Machine} {fuel : Nat} {owner key v : Value} {hash : Int64} {l : Key} {t : Table}
  {digests : Digests}

/-! ## Looking back over a run -/

namespace Engine

theorem precedes_hashOf (h : (withFuel fuel digests).hashOf v m = .ok hash m') :
    m.heap.Precedes m'.heap :=
  have hcarries := ((Lasting.preceding_steps digests m.heap).knot fuel).toCalling.hashOf v
  Lasting.inv_of_endsIn hcarries (.refl _) (.ok h)

theorem precedes_positionOf {candidates : List Value} {n : Nat} {position : Option Nat}
    (h : (withFuel fuel digests).positionOf key n candidates m = .ok position m') :
    m.heap.Precedes m'.heap := by
  have hcarries :=
    ((Lasting.preceding_steps digests m.heap).knot fuel).toCalling.positionOf key n candidates
  exact Lasting.inv_of_endsIn hcarries (.refl _) (.ok h)

theorem precedes_compute {tag : TypeTag} {compute : Engine → Value → Run Int64}
    (hr : tag.Remembers compute) (htag : m.heap.tag v = tag)
    (h : compute (withFuel fuel digests) v m = .ok hash m') : m.heap.Precedes m'.heap := by
  have hcarries := ((Lasting.preceding_steps digests m.heap).knot fuel).toCalling.carries_compute hr v
  exact Lasting.inv_of_endsIn_when hcarries (.refl _) ⟨htag, fun _ => rfl⟩ (.ok h)

end Engine

/-- Looking up behaviour where there is no object yet leaves something bound to the value. -/
theorem Heap.anticipates_lookup {h h' : Heap} {name : String} {f : Value}
    (hge : h.objects.size ≤ v.address) (hlookup : h.lookup v name = (some f, h')) :
    h'.Anticipates v := by
  have hget : (h.get v).members.get? name = none := by
    rw [get_of_le hge]
    rfl
  unfold lookup find at hlookup
  rw [hget] at hlookup
  cases hsymbol : (h.tag v).symbol? name with
  | none =>
    rw [hsymbol] at hlookup
    cases hlookup
  | some s =>
    rw [hsymbol] at hlookup
    cases hlookup
    refine ⟨_, _, kind_alloc _ _, ?_⟩
    simpa [alloc, setMember] using hge

namespace Engine

/-- Either there is an object behind a value that has a hash, or something was bound to it first. -/
theorem known_of_hashOf (h : (withFuel fuel digests).hashOf v m = .ok hash m') :
    v.address < m.heap.objects.size ∨ m'.heap.Anticipates v := by
  refine or_iff_not_imp_left.2 fun hnot => ?_
  obtain ⟨r, k, hlookup, hcall⟩ := Run.bind_eq_ok h
  rw [Run.lookup, Run.modifyGet_apply] at hlookup
  obtain ⟨hr, rfl⟩ := EStateM.Result.ok.inj hlookup
  cases r with
  | none =>
    obtain ⟨_, _, _, hfail⟩ := Run.bind_eq_ok hcall
    cases hfail
  | some method =>
    simp only [keep_withFuel] at hcall
    have hearly : (m.heap.lookup v Symbol.hash.name).2.Anticipates v :=
      Heap.anticipates_lookup (Nat.not_lt.1 hnot) (Prod.ext hr rfl)
    have K := (Lasting.preceding_steps digests (m.heap.lookup v Symbol.hash.name).2).knot fuel
    have hcarries := (K.call method []).bind fun a => Passage.carries_expectInteger a
    refine hearly.mono (Lasting.inv_of_endsIn hcarries ?_ (.ok hcall))
    exact Heap.Precedes.refl _

/-! ## Hashes -/

theorem hash?_of_ends {x : Run Int64} {hash? : Option Int64}
    (hx : x.Ends digests m (hashOrFailure hash?)) (h : x m = .ok hash m') : hash? = some hash := by
  cases hash? with
  | none =>
    obtain ⟨_, _, -, hx, -⟩ := hx
    cases h.symm.trans hx
  | some hash' => rw [(hx.eq_of_ok h).1]

theorem tupleHash_eq {e : Engine} (hplain : e.tracks = false) {items : List Value}
    (hv : m.heap.kind v = .tuple items) :
    Builtin.tupleHash e v m = (items.foldlM (fun hash element => do
      return Builtin.mixHash hash (← e.hashOf element)) (e.digests.text "Tuple") : Run Int64) m := by
  simp only [Builtin.tupleHash, Builtin.expectItems, bind_assoc, Run.kindOf_bind, hv, pure_bind,
    Engine.keep_of_plain hplain]

/-- Unless a hash is remembered it is computed. -/
theorem computes_of_rememberedHash {e : Engine} {compute : Engine → Value → Run Int64} {r : Value}
    (h : Method.rememberedHash compute e v [] m = .ok r m') :
    (m.heap.get v).hash ≠ 0 ∨ ∃ hash k, compute e v m = .ok hash k := by
  refine or_iff_not_imp_left.2 fun hzero => ?_
  have hzero : m.heap.hash? v = none := if_pos (not_not.1 hzero)
  have hcompute : (do
      let hash ← compute e v
      Run.modifyHeap fun h => h.setHash v hash
      Run.newInteger hash) m = .ok r m' := by
    rw [← h]
    simp only [Method.rememberedHash, Method.nullary, Run.read_bind, hzero]
  obtain ⟨hash, k, hk, -⟩ := Run.bind_eq_ok hcompute
  exact ⟨hash, k, hk⟩

/-- What is asked for the hash of a key that has one is only asked. -/
theorem asked_of_hashOf (hs : m.heap.Settled digests) (hl : l.isHashable = true)
    (hv : m.heap.Bears v l) (h : (withFuel fuel digests).hashOf v m = .ok hash m') :
    l.hash? digests = some hash ∧ m.heap.Asked digests m'.heap := by
  let more := max fuel (l.depth + 1)
  have hmore : (withFuel more digests).hashOf v m = .ok hash m' :=
    Likeness.ok_of_agree_same ((Likeness.same_engines digests (Nat.le_max_left _ _)).hashOf trivial) h
  have hends : ((withFuel more digests).hashOf v).Ends digests m (hashOrFailure (l.hash? digests)) :=
    ends_hashOf (hs.shows hl hv) (Nat.le_max_right _ _)
  obtain ⟨hash', hhash'⟩ := Key.exists_hash? digests hl
  rw [hhash'] at hends ⊢
  obtain ⟨rfl, ha⟩ := hends.eq_of_ok hmore
  exact ⟨rfl, ha⟩

section hashes

variable {most : Nat}

mutual

/-- What has a hash contains nothing that changes. -/
theorem isHashable_of_hashOf (C : (Lasting.settled digests).passage.Calling (.withFuel most digests)
    (.withFuel most digests))
    {k : Key} {m m' : Machine} {v : Value} {fuel : Nat} {hash : Int64} (hfuel : fuel ≤ most)
    (hs : m.heap.Settled digests) (hv : m.heap.Bears v k)
    (h : (withFuel fuel digests).hashOf v m = .ok hash m') : k.isHashable = true := by
  cases k with
  | tuple keys =>
    obtain ⟨hpristine, items, hitems, -, -⟩ := id hv
    have htag : m.heap.tag v = .tuple := congrArg Kind.tag hitems
    have hmethod : (m.heap.tag v).method? .hash = some (.rememberedHash Builtin.tupleHash) := by
      rw [htag]
      rfl
    obtain ⟨f, heap, ha, hlookup, hcall⟩ :=
      exists_call_eq (d := digests) fuel [] hpristine.plain (by rw [htag]; rfl) hmethod rfl
    have hmore : (withFuel (fuel + 1) digests).hashOf v m = .ok hash m' :=
      Likeness.ok_of_agree_same ((Likeness.same_engines digests (Nat.le_succ fuel)).hashOf trivial) h
    have hs₁ : heap.Settled digests :=
      Lasting.inv_of_endsIn (S := .settled digests) (Passage.carries_lookup v _) hs (.ok hlookup)
    obtain ⟨_, _, hlookup', hmore⟩ := Run.bind_eq_ok hmore
    cases hlookup.symm.trans hlookup'
    obtain ⟨_, _, hcall', -⟩ := Run.bind_eq_ok hmore
    obtain ⟨-, items', hitems', -, hall⟩ := ha.bears hv
    rcases computes_of_rememberedHash (hcall.symm.trans hcall') with hne | ⟨hash', m₁, hcompute⟩
    · have hmemo := (hs₁.memo v _ (ha.bears hv) nofun).resolve_left hne
      rw [← Key.isSome_hash? digests, hmemo]
      rfl
    · rw [tupleHash_eq (tracks_withFuel ..) hitems'] at hcompute
      exact areHashable_of_hashItems C hfuel hs₁ hall hcompute
  | unhashable =>
    have hends : ((withFuel fuel digests).hashOf v).Ends digests m (hashOrFailure none) :=
      ends_hashOf_of_not_supports hv.pristine.plain
        (by rcases hv.2 with htag | htag <;> rw [htag] <;> rfl)
    cases hash?_of_ends hends h
  | _ => rfl

/-- Neither do the elements of what has a hash. -/
theorem areHashable_of_hashItems
    (C : (Lasting.settled digests).passage.Calling (.withFuel most digests)
      (.withFuel most digests)) {keys : List Key}
    {m m' : Machine} {items : List Value} {fuel : Nat} {start hash : Int64} (hfuel : fuel ≤ most)
    (hs : m.heap.Settled digests) (hall : m.heap.BearsAll items keys)
    (h : (items.foldlM (fun hash element => do
      return Builtin.mixHash hash (← (withFuel fuel digests).hashOf element)) start : Run Int64) m =
        .ok hash m') :
    Key.areHashable keys = true := by
  cases keys with
  | nil => rfl
  | cons key keys =>
    obtain ⟨item, rest, rfl, hitem, hrest⟩ := hall
    rw [List.foldlM_cons, bind_assoc] at h
    obtain ⟨first, m₁, hfirst, h⟩ := Run.bind_eq_ok h
    have hkey := isHashable_of_hashOf C hfuel hs hitem hfirst
    have ha := (asked_of_hashOf hs hkey hitem hfirst).2
    have hmost : (withFuel most digests).hashOf item m = .ok first m₁ :=
      Likeness.ok_of_agree_same ((Likeness.same_engines digests hfuel).hashOf trivial) hfirst
    have hs₁ : m₁.heap.Settled digests := Lasting.inv_of_endsIn (C.hashOf item) hs (.ok hmost)
    rw [Key.areHashable, hkey, areHashable_of_hashItems C hfuel hs₁ (ha.bearsAll hrest) h]
    rfl

end

variable (C : (Lasting.settled digests).passage.Calling (.withFuel most digests)
  (.withFuel most digests))
include C

/-- What says a key has the hash of the key. -/
theorem hash_of_hashOf (hs : m.heap.Settled digests) (hv : m.heap.Bears v l)
    (h : (withFuel most digests).hashOf v m = .ok hash m') : l.hash? digests = some hash :=
  (asked_of_hashOf hs (isHashable_of_hashOf C (Nat.le_refl most) hs hv h) hv h).1

/-- The hash that is computed for a value that says a key is that of the key. -/
theorem hash_of_compute (hs : m.heap.Settled digests) (hv : m.heap.Bears v l) (hl : l ≠ .unhashable)
    {tag : TypeTag} {compute : Engine → Value → Run Int64} (hr : tag.Remembers compute)
    (htag : m.heap.tag v = tag) (h : compute (withFuel most digests) v m = .ok hash m') :
    l.hash? digests = some hash := by
  have hkind : ∀ {kind : Kind}, m.heap.kind v = kind → tag = kind.tag := fun hkind =>
    htag.symm.trans (congrArg Kind.tag hkind)
  cases l with
  | string s =>
    have htag : tag = .string := hkind hv.2
    subst htag
    cases hr with
    | string => exact hash?_of_ends (ends_textHash hv.2) h
    | identity hnumber => exact absurd hnumber (by decide)
  | bytes content =>
    have htag : tag = .bytes := hkind hv.2
    subst htag
    cases hr with
    | bytes => exact hash?_of_ends (ends_bytesHash hv.2) h
    | identity hnumber => exact absurd hnumber (by decide)
  | tuple keys =>
    obtain ⟨-, items, hitems, -, hall⟩ := hv
    have htag : tag = .tuple := hkind hitems
    subst htag
    cases hr with
    | tuple =>
      have hkeys := areHashable_of_hashItems C (Nat.le_refl most) hs hall
        (tupleHash_eq (tracks_withFuel ..) hitems ▸ h)
      let more := max most (Key.depthOfItems keys + 1)
      have hmore : Builtin.tupleHash (withFuel more digests) v m = .ok hash m' :=
        Likeness.ok_of_agree_same
          ((Likeness.same_engines digests (Nat.le_max_left _ _)).tupleHash trivial) h
      have hends : (Builtin.tupleHash (withFuel more digests) v).Ends digests m
          (hashOrFailure ((Key.tuple keys).hash? digests)) :=
        ends_tupleHash hitems (ends_hashItems (hs.showsAll hkeys hall) (Nat.le_max_right _ _))
      exact hash?_of_ends hends hmore
    | identity hnumber => exact absurd hnumber (by decide)
  | unhashable => exact absurd rfl hl
  | none | bool | integer =>
    have htag := hkind hv.2
    subst htag
    cases hr with
    | identity hnumber => cases hnumber

end hashes

/-- A key that is not found among candidates that say keys is told apart from them by what they say,
and nothing else happens. -/
theorem apart_of_positionOf {candidates : List Value} (hs : m.heap.Settled digests)
    (hl : l.isHashable = true) (hv : m.heap.Bears v l)
    (hall : ∀ c ∈ candidates, ∃ k, m.heap.Bears c k ∧ k.isHashable = true)
    (h : (withFuel fuel digests).positionOf v 0 candidates m = .ok none m') :
    m.heap.Asked digests m'.heap ∧ ∀ c ∈ candidates, ¬m.heap.Bears c l := by
  let more := max fuel (Key.depthOfItems (candidates.map m.heap.keyOf) + 1)
  have hmore : (withFuel more digests).positionOf v 0 candidates m = .ok none m' :=
    Likeness.ok_of_agree_same
      ((Likeness.same_engines digests (Nat.le_max_left _ _)).positionOf trivial
        (fun _ _ => trivial) 0) h
  have hcandidates : ∀ c ∈ candidates, m.heap.Shows digests c (m.heap.keyOf c) ∧
      (m.heap.keyOf c).isHashable = true ∧ (m.heap.keyOf c).depth < more := by
    intro c hc
    obtain ⟨k, hk, hhashable⟩ := hall c hc
    have hdepth := Key.depth_le_depthOfItems (List.mem_map_of_mem (f := m.heap.keyOf) hc)
    rw [hk.keyOf_eq] at hdepth ⊢
    exact ⟨hs.shows hhashable hk, hhashable,
      Nat.lt_of_lt_of_le (Nat.lt_succ_of_le hdepth) (Nat.le_max_right _ _)⟩
  obtain ⟨hnone, ha⟩ := (ends_positionOf_candidates (hs.shows hl hv) _ hcandidates).eq_of_ok hmore
  refine ⟨ha, fun c hc hsame => ?_⟩
  simpa [hsame.keyOf_eq] using List.findIdx?_eq_none_iff.1 hnone.symm c hc

/-! ## Stores -/

open Lasting in
/-- Where a key is looked for, its entry belongs. -/
theorem sorts_of_locate {position : Option Nat}
    (C : (settled digests).passage.Calling (.withFuel fuel digests) (.withFuel fuel digests))
    (hs : m.heap.Settled digests)
    (h : (withFuel fuel digests).locate owner key m = .ok (hash, position) m')
    (ht : m'.heap.table? owner = some t) : m'.heap.Sorts digests (t.put hash position key v) := by
  obtain ⟨m₁, before, hhash, hbefore, hposition⟩ := locate_eq_ok (tracks_withFuel ..) h
  have hs₁ : m₁.heap.Settled digests := inv_of_endsIn (C.hashOf key) hs (.ok hhash)
  have hs' : m'.heap.Settled digests := inv_of_endsIn (C.locate owner key) hs (.ok h)
  have hfirst : m.heap.Precedes m₁.heap := precedes_hashOf hhash
  have hsecond : m₁.heap.Precedes m'.heap := precedes_positionOf hposition
  have hgrows : before.Grows t := (extends_positionOf hposition).grows hbefore ht
  have hentries := hs'.sorts owner t ht
  cases position with
  | some i =>
    obtain ⟨p, hp, hfound⟩ := positionOf_eq_ok hposition
    obtain rfl : p = some i := by simpa using hp.symm
    have hlt : i < (t.keysOf hash).length := Nat.lt_of_lt_of_le hfound.1 (hgrows hash).length_le
    exact hentries.put_some (by simpa using hlt)
  | none =>
    have hearlier : ∀ k, m'.heap.Bears key k → m.heap.Bears key k := fun k hk =>
      have hlt := (known_of_hashOf hhash).resolve_right
        fun hearly => hk.pristine.not_anticipates (hearly.mono hsecond)
      (hfirst.trans hsecond).bears hlt hk
    have hhashable : ∀ k, m'.heap.Bears key k → k.isHashable = true := fun k hk =>
      isHashable_of_hashOf C (Nat.le_refl fuel) hs (hearlier k hk) hhash
    refine hentries.put_none ?_ hhashable fun k hk hothers =>
      ⟨hash_of_hashOf C hs (hearlier k hk) hhash, ?_⟩
    · exact (known_of_hashOf hhash).elim (fun hlt => .inl (Nat.lt_of_lt_of_le hlt
        (hfirst.trans hsecond).size)) fun hearly => .inr (hearly.mono hsecond)
    · have hkey₁ : m₁.heap.Bears key k :=
        hsecond.bears (Nat.lt_of_lt_of_le (hearlier k hk).lt hfirst.size) hk
      have hold := hs₁.sorts owner before hbefore
      have hback : ∀ c ∈ before.keysOf hash, ∀ l, m'.heap.Bears c l → m₁.heap.Bears c l :=
        fun c hc _ => (hold.known c (Table.mem_keys_of_mem_keysOf hc)).bears hsecond
      have hcandidates : ∀ c ∈ before.keysOf hash, ∃ l, m₁.heap.Bears c l ∧ l.isHashable = true := by
        intro c hc
        obtain ⟨l, hl⟩ := hothers c (Table.mem_keys_of_mem_keysOf ((hgrows hash).subset hc))
        have hl := hback c hc l hl
        exact ⟨l, hl, hold.hashable c (Table.mem_keys_of_mem_keysOf hc) l hl⟩
      obtain ⟨ha, hapart⟩ := apart_of_positionOf hs₁ (hhashable k hk) hkey₁ hcandidates hposition
      -- Nothing was stored meanwhile, because no code of the program ran.
      have hsame : t = before := by
        have htable := Heap.table?_eq_of_kind (ha.kind owner (Heap.lt_size_of_table? hbefore))
        exact Option.some.inj (ht.symm.trans (htable.trans hbefore))
      subst hsame
      exact fun other hother hsame => hapart other hother (hback other hother k hsame)

end Engine

/-! ## Runs -/

namespace Lasting

variable {digests : Digests}

/-- Stores and hashes keep data settled, as soon as calls do. -/
theorem settled_calls (fuel : Nat)
    (C : (settled digests).passage.Calling (.withFuel fuel digests) (.withFuel fuel digests)) :
    (settled digests).passage.Calls (.withFuel fuel digests) (.withFuel fuel digests) where
  toCalling := C
  store owner key v := by
    refine C.store_of_put (q := fun found m => ∀ t, m.heap.table? owner = some t →
      m.heap.Sorts digests (t.put found.1 found.2 key v)) ?_ fun hash position t => ?_
    · rintro m _ ⟨hash, position⟩ m' ⟨rfl, hs⟩ hlocate t ht
      exact Engine.sorts_of_locate C hs hlocate ht
    · refine ⟨fun m => Nat.le_of_eq (Heap.size_modify _ _ _).symm, ?_⟩
      rintro _ m ⟨rfl, hs⟩ ⟨hsorts, hkind⟩ -
      have hput := hs.setTable (congrArg Kind.tag hkind) (hsorts t (Heap.table?_of_kind hkind))
      have hsame : t.rename (settled digests).passage.value = t := Table.rename_id t
      rw [hsame]
      exact .ok () ⟨rfl, hput⟩
  hash {tag method} hmethod this args := by
    refine C.hash_of_set hmethod (q := fun hash m => ∀ k, m.heap.Bears this k → k ≠ .unhashable →
      k.hash? digests = some hash) ?_ (fun hash => ?_) args
    · rintro compute hr _ m hash m' ⟨rfl, hs⟩ htag hcompute k hk hne
      have hlt : this.address < m.heap.objects.size := by
        refine Heap.lt_size_of_kind rfl fun hnone => ?_
        rw [Heap.tag, hnone] at htag
        subst htag
        cases hr with
        | identity hnumber => cases hnumber
      exact Engine.hash_of_compute C hs ((Engine.precedes_compute hr htag hcompute).bears hlt hk) hne
        hr htag hcompute
    · refine ⟨fun m => Nat.le_of_eq (Heap.size_modify _ _ _).symm, ?_⟩
      rintro m _ ⟨rfl, hs⟩ hhash -
      exact .ok () ⟨rfl, hs.setHash hhash⟩

theorem settled_steps : (settled digests).Steps digests :=
  .of_becomes (fun _ _ h => h) settled_calls fun _ _ _ => trivial

end Lasting

variable {digests : Digests}

theorem Machine.settled_new (config : Config) : (Machine.new config).heap.Settled digests := by
  refine new_induction (P := fun m => m.heap.Settled digests) config
    ⟨fun v k hv => ?_, fun v t ht => ?_⟩ fun m tag h => h.alloc (m.heap.lends_of_isPlain rfl)
  · exact absurd hv.lt (Nat.not_lt_zero _)
  · exact absurd (Heap.lt_size_of_table? ht) (Nat.not_lt_zero _)

/-- Whatever a host does, data is settled. -/
theorem Machine.Reachable.settled {config : Config} {m : Machine} (h : Reachable config digests m) :
    m.heap.Settled digests :=
  Lasting.settled_steps.inv_of_leadsTo h.leadsTo (settled_new config)

end ScriptVM
