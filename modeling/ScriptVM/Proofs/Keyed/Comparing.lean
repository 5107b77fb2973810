import ScriptVM.Proofs.Keyed.Asking

/-!
# Hashes and equality of keys

A value that shows a key is asked for its hash and gives that of the key, or fails because the key
has none; asked whether it equals another value, it says whether the keys are the same. Tuples ask
their elements, with less fuel than they were asked with themselves.
-/
namespace ScriptVM

open Run

/-- What asking for a hash comes to, when there is one and when there is none. -/
def hashOrFailure : Option Int64 → Except String Int64
  | some hash => .ok hash
  | none => .error "UnhashableTypeError"

variable {d : Digests} {m : Machine} {v w : Value} {k l : Key} {fuel : Nat}

namespace Engine

/-! ## Hashes -/

/-- Asking a plain object for its hash, when the method of its type only asks. -/
theorem ends_hashOf_of_method {hash? : Option Int64} {tag : TypeTag} {method : Method}
    {r : Except String Int64} (hplain : m.heap.Plain v hash?) (htag : m.heap.tag v = tag)
    (hs : tag.supports .hash = true) (hmethod : tag.method? .hash = some method)
    (hends : ∀ h, m.heap.Asked d h →
      (method (withFuel fuel d) v [] >>= expectInteger).Ends d { m with heap := h } r) :
    ((withFuel (fuel + 1) d).hashOf v).Ends d m r := by
  subst htag
  obtain ⟨f, h, ha, hlookup, hcall⟩ := exists_call_eq fuel [] hplain hs hmethod rfl
  refine (hends h ha).after ha ?_
  simp only [hashOf, keep_withFuel, bind, EStateM.bind, hlookup, hcall]

/-- What has no behaviour `Hash` has no hash. -/
theorem ends_hashOf_of_not_supports {hash? : Option Int64} (hplain : m.heap.Plain v hash?)
    (hs : (m.heap.tag v).supports .hash = false) :
    ((withFuel fuel d).hashOf v).Ends d m (.error "UnhashableTypeError") := by
  have hlookup := lookup_of_not_supports (m := m) hplain hs
  have hfail : ((withFuel fuel d).hashOf v) m =
      (fail (.unhashable (m.heap.typeName v)) : Run Int64) m := by
    simp only [hashOf, bind, EStateM.bind, hlookup]
    rfl
  exact (ends_fail (α := Int64) (.unhashable (m.heap.typeName v))).after (.refl _) hfail

/-- A remembered hash is the one that would be computed. -/
theorem ends_rememberedHash {e : Engine} {compute : Engine → Value → Run Int64}
    (hv : m.heap.Shows d v k) (hcompute : (compute e v).Ends d m (hashOrFailure (k.hash? d))) :
    (Method.rememberedHash compute e v [] >>= expectInteger).Ends d m (hashOrFailure (k.hash? d)) := by
  refine Ends.after (x := (match m.heap.hash? v with
    | some hash => newInteger hash
    | none => do
      let hash ← compute e v
      modifyHeap fun h => h.setHash v hash
      newInteger hash) >>= expectInteger) ?_ (.refl _) rfl
  unfold Heap.hash?
  by_cases hzero : (m.heap.get v).hash = 0
  · simp only [hzero, if_true, bind_assoc]
    cases hhash : k.hash? d with
    | some hash =>
      rw [hhash] at hcompute
      refine hcompute.bind fun h ha => ?_
      exact (ends_expectInteger hash).after (Heap.asked_setHash (ha.shows hv) hhash) rfl
    | none =>
      rw [hhash] at hcompute
      exact hcompute.bind_error
  · have hhash : k.hash? d = some (m.heap.get v).hash := hv.plain.object.memo.resolve_left hzero
    rw [hhash]
    simp only [hzero, if_false]
    exact ends_expectInteger _

theorem ends_textHash {s : String} (hv : m.heap.kind v = .string s) :
    (do return (withFuel fuel d).digests.text (← expectText v) : Run Int64).Ends d m
      (.ok (d.text s)) := by
  refine (ends_pure (d.text s)).after (.refl _) ?_
  simp only [digests_withFuel, expectText, bind_assoc, kindOf_bind, hv, pure_bind]

theorem ends_bytesHash {content : List UInt8} (hv : m.heap.kind v = .bytes content) :
    (do return (withFuel fuel d).digests.bytes (← Builtin.expectBytes v) : Run Int64).Ends d m
      (.ok (d.bytes content)) := by
  refine (ends_pure (d.bytes content)).after (.refl _) ?_
  simp only [digests_withFuel, Builtin.expectBytes, bind_assoc, kindOf_bind, hv, pure_bind]

/-- The hash of a tuple is that of its elements. -/
theorem ends_tupleHash {items : List Value} {r : Except String Int64}
    (hv : m.heap.kind v = .tuple items)
    (hitems : (items.foldlM (fun hash element => do
      return Builtin.mixHash hash (← (withFuel fuel d).hashOf element)) (d.text "Tuple")).Ends d m r) :
    (Builtin.tupleHash (withFuel fuel d) v).Ends d m r := by
  refine hitems.after (.refl _) ?_
  simp only [Builtin.tupleHash, Builtin.expectItems, digests_withFuel, keep_withFuel, bind_assoc,
    kindOf_bind, hv, pure_bind]

mutual

/-- Asking a value for its hash gives that of the key that it shows. -/
theorem ends_hashOf {k : Key} {m : Machine} {v : Value} {fuel : Nat} (hv : m.heap.Shows d v k)
    (hfuel : k.depth < fuel) :
    ((withFuel fuel d).hashOf v).Ends d m (hashOrFailure (k.hash? d)) := by
  obtain ⟨fuel, rfl⟩ := Nat.exists_eq_add_one_of_ne_zero (Nat.ne_zero_of_lt hfuel)
  have htag : ∀ {kind : Kind}, m.heap.kind v = kind → m.heap.tag v = kind.tag := congrArg Kind.tag
  have hkind : ∀ {h : Heap}, m.heap.Asked d h → h.kind v = m.heap.kind v := fun ha => ha.kind v hv.lt
  cases k with
  | none =>
    refine ends_hashOf_of_method hv.plain (htag hv.2) rfl rfl fun h ha => ?_
    simp only [Method.nullary, digests_withFuel]
    exact ends_expectInteger (d.text "None")
  | bool b =>
    refine ends_hashOf_of_method hv.plain (htag hv.2) rfl rfl fun h ha => ?_
    refine (ends_expectInteger (if b then 1 else 0)).after (.refl _) ?_
    simp only [Method.nullary, Builtin.flagNumber, bind_assoc, pure_bind, read_bind, Heap.bool?,
      hkind ha, hv.2]
    cases b <;> rfl
  | integer n =>
    refine ends_hashOf_of_method hv.plain (htag hv.2) rfl rfl fun h ha => ?_
    refine (ends_expectInteger n).after (.refl _) ?_
    simp only [Builtin.onInteger, Method.nullary, expectInteger, bind_assoc, kindOf_bind, hkind ha,
      hv.2, pure_bind]
  | string s =>
    exact ends_hashOf_of_method hv.plain (htag hv.2) rfl rfl fun h ha =>
      ends_rememberedHash (ha.shows hv) (ends_textHash ((hkind ha).trans hv.2))
  | bytes content =>
    exact ends_hashOf_of_method hv.plain (htag hv.2) rfl rfl fun h ha =>
      ends_rememberedHash (ha.shows hv) (ends_bytesHash ((hkind ha).trans hv.2))
  | tuple keys =>
    obtain ⟨hplain, items, hitems, -, hall⟩ := id hv
    have hdepth : Key.depthOfItems keys < fuel := Nat.lt_of_succ_lt_succ hfuel
    exact ends_hashOf_of_method hplain (htag hitems) rfl rfl fun h ha =>
      ends_rememberedHash (ha.shows hv)
        (ends_tupleHash ((hkind ha).trans hitems) (ends_hashItems (ha.showsAll hall) hdepth))
  | unhashable =>
    refine ends_hashOf_of_not_supports hv.plain ?_
    rcases hv.2 with ⟨items, hitems⟩ | ⟨t, ht⟩
    · rw [htag hitems]
      rfl
    · rw [htag ht]
      rfl

/-- The hash of a tuple is put together from those of its elements. -/
theorem ends_hashItems {keys : List Key} {m : Machine} {items : List Value} {fuel : Nat}
    {hash : Int64} (hall : m.heap.ShowsAll d items keys) (hfuel : Key.depthOfItems keys < fuel) :
    (items.foldlM (fun hash element => do
      return Builtin.mixHash hash (← (withFuel fuel d).hashOf element)) hash).Ends d m
        (hashOrFailure (Key.hashItems? d hash keys)) := by
  cases keys with
  | nil =>
    cases hall
    exact ends_pure hash
  | cons key keys =>
    obtain ⟨item, rest, rfl, hitem, hrest⟩ := hall
    rw [Key.depthOfItems, Nat.max_lt] at hfuel
    have hfirst := ends_hashOf hitem hfuel.1
    rw [List.foldlM_cons, Key.hashItems?, bind_assoc]
    cases hkey : key.hash? d with
    | none =>
      rw [hkey] at hfirst
      exact hfirst.bind_error
    | some first =>
      rw [hkey] at hfirst
      exact hfirst.bind fun h ha => ends_hashItems (ha.showsAll hrest) hfuel.2

end

/-! ## Equality -/

/-- Applying an operator to a plain object whose type takes it for a question that only asks. -/
theorem exists_operation_eq {hash? : Option Int64} (operator : BinaryOperator) {negated b : Bool}
    {body : Engine → Value → Value → Run Bool} (hplain : m.heap.Plain v hash?)
    (hs : (m.heap.tag v).supports operator.forward = true) (harity : operator.forward.arity = 1)
    (hmethod : (m.heap.tag v).method? operator.forward = some (.question negated body))
    (hbody : ∀ h, m.heap.Asked d h →
      (body (withFuel fuel d) v w).Ends d { m with heap := h } (.ok b)) :
    ∃ h, m.heap.Asked d h ∧ (withFuel (fuel + 1) d).operation operator v w m =
      newBool (negated != b) { m with heap := h } := by
  obtain ⟨f, h, ha, hlookup, hcall⟩ := exists_call_eq fuel [w] hplain hs hmethod harity.symm
  obtain ⟨h', ha', hb⟩ := hbody h ha
  have hanswer : Method.question negated body (withFuel fuel d) v [w] { m with heap := h } =
      newBool (negated != b) { m with heap := h' } := by
    simp only [Method.question, Method.unary, bind, EStateM.bind, hb]
  refine ⟨h', ha.trans ha', ?_⟩
  simp only [operation, bind, EStateM.bind, hlookup, attempt, hcall, hanswer]
  rfl

/-- Asking a plain object whether it equals a value, when the answer of its type only asks. -/
theorem ends_equals_of_body {hash? : Option Int64} {tag : TypeTag} {b : Bool}
    {body : Engine → Value → Value → Run Bool} (hplain : m.heap.Plain v hash?)
    (htag : m.heap.tag v = tag) (hs : tag.supports .equals = true)
    (hmethod : tag.method? .equals = some (.question false body))
    (hbody : ∀ h, m.heap.Asked d h →
      (body (withFuel fuel d) v w).Ends d { m with heap := h } (.ok b)) :
    ((withFuel (fuel + 1) d).equals v w).Ends d m (.ok b) := by
  subst htag
  obtain ⟨h, ha, hoperation⟩ := exists_operation_eq .equals hplain hs rfl hmethod hbody
  refine (ends_expectBool b).after ha ?_
  simp only [equals, keep_withFuel, bind, EStateM.bind, hoperation, Bool.false_bne]

mutual

/-- A value says whether it equals another one by the keys that they show. -/
theorem ends_equals {k l : Key} {m : Machine} {v w : Value} {fuel : Nat}
    (hv : m.heap.Shows d v k) (hw : m.heap.Shows d w l) (hhash : k.isHashable = true)
    (hfuel : k.depth < fuel) :
    ((withFuel fuel d).equals v w).Ends d m (.ok (k = l)) := by
  obtain ⟨fuel, rfl⟩ := Nat.exists_eq_add_one_of_ne_zero (Nat.ne_zero_of_lt hfuel)
  have htag : ∀ {kind : Kind}, m.heap.kind v = kind → m.heap.tag v = kind.tag := congrArg Kind.tag
  have hkind : ∀ {h : Heap}, m.heap.Asked d h → h.kind v = m.heap.kind v := fun ha => ha.kind v hv.lt
  cases k with
  | none =>
    refine ends_equals_of_body hv.plain (htag hv.2) rfl rfl fun h ha => ends_read_of ?_
    have hfits := (ha.shows hw).fits
    unfold Heap.isNone
    generalize h.kind w = kind at hfits ⊢
    cases hfits <;> simp
  | bool b =>
    refine ends_equals_of_body hv.plain (htag hv.2) rfl rfl fun h ha => ends_read_of ?_
    have hfits := (ha.shows hw).fits
    unfold Heap.bool?
    rw [hkind ha, hv.2]
    generalize h.kind w = kind at hfits ⊢
    cases hfits <;> simp
  | integer n =>
    refine ends_equals_of_body hv.plain (htag hv.2) rfl rfl fun h ha => ends_read_of ?_
    have hfits := (ha.shows hw).fits
    rw [hkind ha, hv.2]
    generalize h.kind w = kind at hfits ⊢
    cases hfits <;> simp [Number.ofKind?, Number.equal]
  | string s =>
    refine ends_equals_of_body hv.plain (htag hv.2) rfl rfl fun h ha => ends_read_of ?_
    have hfits := (ha.shows hw).fits
    unfold Heap.text?
    rw [hkind ha, hv.2]
    generalize h.kind w = kind at hfits ⊢
    cases hfits <;> simp
  | bytes content =>
    refine ends_equals_of_body hv.plain (htag hv.2) rfl rfl fun h ha => ends_read_of ?_
    have hfits := (ha.shows hw).fits
    unfold Heap.bytes?
    rw [hkind ha, hv.2]
    generalize h.kind w = kind at hfits ⊢
    cases hfits <;> simp
  | tuple keys =>
    obtain ⟨hplain, items, hitems, -, hall⟩ := id hv
    have hdepth : Key.depthOfItems keys < fuel := Nat.lt_of_succ_lt_succ hfuel
    refine ends_equals_of_body hplain (htag hitems) rfl rfl fun h ha => ?_
    cases l with
    | tuple keys' =>
      obtain ⟨-, items', hitems', -, hall'⟩ := ha.shows hw
      have hsame : h.tag v = h.tag w := by rw [Heap.tag, hkind ha, hitems, Heap.tag, hitems']; rfl
      refine Ends.after (x := if items.length = items'.length then
        Builtin.allEqual (withFuel fuel d) items items' else pure false) ?_ (.refl _) ?_
      · simp only [Key.tuple.injEq]
        have hlength := (ha.showsAll hall).length_eq
        have hlength' := hall'.length_eq
        split
        · rename_i heq
          exact ends_allEqual (ha.showsAll hall) hall' (hlength ▸ hlength' ▸ heq) hhash hdepth
        · rename_i hne
          have hkeys : keys ≠ keys' := fun heq => hne (by rw [hlength, hlength', heq])
          exact (decide_eq_false hkeys).symm ▸ ends_pure false
      · simp only [Builtin.equalSequences, Builtin.haveSameTag, read_bind, hsame, decide_true, if_true,
          Builtin.expectItems, bind_assoc, kindOf_bind, hkind ha, hitems, pure_bind, hitems',
          keep_withFuel]
    | _ =>
      have hfits := (ha.shows hw).fits
      have hother : h.tag v ≠ h.tag w := by
        rw [Heap.tag, hkind ha, hitems, Heap.tag]
        generalize h.kind w = kind at hfits ⊢
        cases hfits <;> simp [Kind.tag]
      refine (ends_pure false).after (.refl _) ?_
      simp only [Builtin.equalSequences, Builtin.haveSameTag, read_bind, hother, decide_false,
        Bool.false_eq_true, if_false]
  | unhashable => cases hhash

/-- Elements are compared in order. -/
theorem ends_allEqual {keys keys' : List Key} {m : Machine} {items items' : List Value}
    {fuel : Nat} (hall : m.heap.ShowsAll d items keys) (hall' : m.heap.ShowsAll d items' keys')
    (hlength : keys.length = keys'.length) (hhash : Key.areHashable keys = true)
      (hfuel : Key.depthOfItems keys < fuel) :
    (Builtin.allEqual (withFuel fuel d) items items').Ends d m (.ok (keys = keys')) := by
  cases keys with
  | nil =>
    cases hall
    obtain rfl := List.length_eq_zero_iff.1 hlength.symm
    exact ends_pure true
  | cons key keys =>
    cases keys' with
    | nil => cases hlength
    | cons key' keys' =>
      obtain ⟨item, rest, rfl, hitem, hrest⟩ := hall
      obtain ⟨item', rest', rfl, hitem', hrest'⟩ := hall'
      rw [Key.depthOfItems, Nat.max_lt] at hfuel
      rw [Key.areHashable, Bool.and_eq_true] at hhash
      refine (ends_equals hitem hitem' hhash.1 hfuel.1).bind fun h ha => ?_
      by_cases heq : key = key'
      · have hrests := ends_allEqual (m := { m with heap := h }) (ha.showsAll hrest)
          (ha.showsAll hrest') (Nat.succ.inj hlength) hhash.2 hfuel.2
        simpa only [heq, decide_true, if_true, List.cons.injEq, true_and] using hrests
      · simp only [heq, decide_false, List.cons.injEq, false_and, Bool.false_eq_true, if_false]
        exact ends_pure false

end

end Engine
end ScriptVM
