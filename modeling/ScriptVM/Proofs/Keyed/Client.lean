import ScriptVM.Proofs.Keyed.Storing
import ScriptVM.Proofs.Session.Turn

/-!
# A client of Hashes

A client makes values, copies Hashes, assigns under keys, looks keys up, asks for them and lists
them, in whatever order, with keys that are equal or not and whose hashes are the same or not, as the
digests have it. It names a value by its place among those that it has.

What it should get is said by the ledgers alone: one for each Hash, which a copy takes over as it is
then and in which every assignment under a key with a hash is noted.
-/

/-! ## What a Hash does when it is asked

The behaviour of a Hash that has what was assigned: looking up a key, asking for it, listing the
keys, copying the Hash and assigning under a key. Only an assignment changes a Hash.
-/

namespace ScriptVM

open Run

variable {α : Type} {d : Digests} {value : α → Value} {l : Ledger α} {m : Machine}
  {owner key : Value} {k : Key} {fuel : Nat}

theorem Heap.Files.tag {h : Heap} (hf : h.Files d owner value l) : h.tag owner = .hash := by
  obtain ⟨t, ht, -⟩ := hf.table
  exact congrArg Kind.tag (kind_of_table? ht)

namespace Engine

section behaviour

variable {s : Symbol} {args : List Value} {method : Method}

/-- Asking a Hash for behaviour that it has. -/
theorem exists_callHash_eq (fuel : Nat) (args : List Value) (hf : m.heap.Files d owner value l)
    (hs : TypeTag.hash.supports s = true) (hmethod : TypeTag.hash.method? s = some method)
    (hargs : args.length = s.arity) :
    ∃ h, m.heap.Asked d h ∧ (withFuel (fuel + 1) d).callSymbol owner s args m =
      method (withFuel fuel d) owner args { m with heap := h } :=
  exists_callSymbol_eq fuel args hf.plain.plain (hf.tag ▸ hs) (hf.tag ▸ hmethod) hargs

theorem ends_callHash_bind {β : Type} {f : Value → Run β} {r : Except String β}
    (hf : m.heap.Files d owner value l) (hs : TypeTag.hash.supports s = true)
    (hmethod : TypeTag.hash.method? s = some method) (hargs : args.length = s.arity)
    (hends : ∀ h, m.heap.Asked d h →
      (method (withFuel fuel d) owner args >>= f).Ends d { m with heap := h } r) :
    ((withFuel (fuel + 1) d).callSymbol owner s args >>= f).Ends d m r := by
  obtain ⟨h, ha, hcall⟩ := exists_callHash_eq fuel args hf hs hmethod hargs
  refine (hends h ha).after ha ?_
  simp only [bind, EStateM.bind, hcall]

theorem ends_callHash {r : Except String Value} (hf : m.heap.Files d owner value l)
    (hs : TypeTag.hash.supports s = true) (hmethod : TypeTag.hash.method? s = some method)
    (hargs : args.length = s.arity)
    (hends : ∀ h, m.heap.Asked d h →
      (method (withFuel fuel d) owner args).Ends d { m with heap := h } r) :
    ((withFuel (fuel + 1) d).callSymbol owner s args).Ends d m r := by
  obtain ⟨h, ha, hcall⟩ := exists_callHash_eq fuel args hf hs hmethod hargs
  exact (hends h ha).after ha hcall

end behaviour

/-! ## Looking up -/

/-- What looking up a key comes to. -/
def indexing (value : α → Value) : Option (Assignment α) → Except String Value
  | some a => .ok (value a.value)
  | none => .error "KeyNotFoundError"

theorem ends_index (hf : m.heap.Files d owner value l) (hkey : m.heap.Shows d key k)
    (hhash : k.isHashable = true) (hk : k.depth < fuel) (hl : ∀ k ∈ l.contents, k.depth < fuel) :
    ((withFuel (fuel + 1) d).callSymbol owner .index [key]).Ends d m
      (indexing value (l.last? k)) := by
  refine ends_callHash hf rfl rfl rfl fun h ha => ?_
  refine (ends_stored? (ha.files hf) (ha.shows hkey) hhash hk hl).bind fun h' ha' => ?_
  cases l.last? k with
  | some a => exact ends_pure (value a.value)
  | none =>
    have hkey' := ha'.shows (ha.shows hkey)
    obtain ⟨text, htext⟩ := exists_ends_repr (m := { m with heap := h' }) hkey' hhash
    exact htext.bind fun _ _ => ends_fail (.keyNotFound text)

theorem ends_index_of_not_isHashable (hf : m.heap.Files d owner value l)
    (hkey : m.heap.Shows d key k) (hhash : k.isHashable = false) (hk : k.depth < fuel) :
    ((withFuel (fuel + 1) d).callSymbol owner .index [key]).Ends d m
      (.error "UnhashableTypeError") := by
  refine ends_callHash hf rfl rfl rfl fun h ha => ?_
  exact (ends_stored?_of_not_isHashable (ha.shows hkey) hk hhash).bind_error

/-- Asking for a key tells whether anything was assigned under it. -/
theorem ends_contains (hf : m.heap.Files d owner value l) (hkey : m.heap.Shows d key k)
    (hhash : k.isHashable = true) (hk : k.depth < fuel) (hl : ∀ k ∈ l.contents, k.depth < fuel) :
    ((withFuel (fuel + 1) d).callSymbol owner .contains [key] >>= expectBool).Ends d m
      (.ok (l.last? k).isSome) := by
  refine ends_callHash_bind hf rfl rfl rfl fun h ha => ?_
  have hstored := ends_isStored (m := { m with heap := h }) (ha.files hf) (ha.shows hkey) hhash hk hl
  rw [Method.question, Method.unary, bind_assoc]
  exact hstored.bind fun h' _ => by simpa using ends_expectBool _

theorem ends_contains_of_not_isHashable (hf : m.heap.Files d owner value l)
    (hkey : m.heap.Shows d key k) (hhash : k.isHashable = false) (hk : k.depth < fuel) :
    ((withFuel (fuel + 1) d).callSymbol owner .contains [key] >>= expectBool).Ends d m
      (.error "UnhashableTypeError") := by
  refine ends_callHash_bind hf rfl rfl rfl fun h ha => ?_
  exact (ends_isStored_of_not_isHashable (ha.shows hkey) hk hhash).bind_error.bind_error

/-! ## Listing -/

/-- An iterator that is new delivers what remains. -/
theorem exists_drainWithin_eq {base h : Heap} {iterator : Value} {remaining delivered : List Value}
    {rounds : Nat} (fuel : Nat) (taken : List Value) (ha : base.Asked d h)
    (hnew : base.objects.size ≤ iterator.address) (hlt : iterator.address < h.objects.size)
    (hkind : h.kind iterator = .iterator remaining delivered) (hrounds : remaining.length < rounds) :
    ∃ h', base.Asked d h' ∧
      (withFuel (fuel + 1) d).drainWithin iterator rounds taken { m with heap := h } =
        .ok (taken.reverse ++ remaining) { m with heap := h' } := by
  induction remaining generalizing h rounds taken delivered with
  | nil =>
    obtain ⟨rounds, rfl⟩ := Nat.exists_eq_add_one_of_ne_zero (Nat.ne_zero_of_lt hrounds)
    refine ⟨h, ha, ?_⟩
    have hnext : (withFuel (fuel + 1) d).next iterator { m with heap := h } =
        .ok none { m with heap := h } := by
      rw [next, fuel_withFuel, nextWithin, kindOf_bind, hkind]
      rfl
    simp only [drainWithin, keep_withFuel, bind, EStateM.bind, hnext, List.append_nil]
    rfl
  | cons item rest ih =>
    have hnext : (withFuel (fuel + 1) d).next iterator { m with heap := h } =
        .ok (some item) { m with
          heap := h.setKind iterator (.iterator rest (item :: delivered)) } := by
      rw [next, fuel_withFuel, nextWithin, kindOf_bind, hkind]
      rfl
    obtain ⟨rounds, rfl⟩ := Nat.exists_eq_add_one_of_ne_zero (Nat.ne_zero_of_lt hrounds)
    have hkind' : (h.setKind iterator (.iterator rest (item :: delivered))).kind iterator =
        .iterator rest (item :: delivered) := by
      rw [Heap.kind, Heap.setKind, Heap.get_modify_self _ hlt]
    obtain ⟨h', ha', hdrain⟩ := ih (item :: taken) (ha.modify_new hnew)
      (by simpa [Heap.setKind] using hlt) hkind' (Nat.lt_of_succ_lt_succ hrounds)
    rw [List.reverse_cons, List.append_assoc] at hdrain
    refine ⟨h', ha', ?_⟩
    rw [drainWithin, keep_withFuel]
    simp only [bind, EStateM.bind, hnext]
    exact hdrain

/-- Listing the keys of a Hash. -/
theorem ends_keys (hf : m.heap.Files d owner value l) (hfuel : (l.listed d).length ≤ fuel) :
    ((withFuel (fuel + 1) d).callSymbol owner .iter [] >>= (withFuel (fuel + 1) d).drain).Ends d m
      (.ok ((l.listed d).map fun e => value e.key)) := by
  refine ends_callHash_bind hf rfl rfl rfl fun h ha => ?_
  obtain ⟨t, ht, hfollows⟩ := (ha.files hf).table
  have htable := expectTable_of_table? (m := { m with heap := h }) ht
  let items : Kind := .iterator t.keys []
  have hnew : h.objects.size ≤ (h.alloc items).1.address := Nat.le_refl _
  have hlt : (h.alloc items).1.address < (h.alloc items).2.objects.size := by simp [Heap.alloc]
  have hrounds : t.keys.length < fuel + 1 := by
    rw [hfollows.keys, List.length_map]
    exact Nat.lt_succ_of_le hfuel
  obtain ⟨h', ha', hdrain⟩ := exists_drainWithin_eq (m := m) fuel []
    (Heap.asked_alloc (d := d) h items) hnew hlt (h.kind_alloc items) hrounds
  refine ⟨h', ha', ?_⟩
  rw [← hfollows.keys]
  simp only [Method.nullary, bind, EStateM.bind, htable, drain, fuel_withFuel]
  exact hdrain

/-! ## Copying and assigning -/

/-- A copy is a new Hash that has what was assigned. -/
theorem exists_copy_eq (fuel : Nat) (hf : m.heap.Files d owner value l) :
    ∃ h t, m.heap.Asked d h ∧ t.Follows d value l ∧
      (withFuel (fuel + 1) d).callSymbol owner .copy [] m =
        newObject (.hash t) { m with heap := h } := by
  obtain ⟨h, ha, hcall⟩ := exists_callHash_eq (s := .copy) fuel [] hf rfl rfl rfl
  obtain ⟨t, ht, hfollows⟩ := (ha.files hf).table
  have htable := expectTable_of_table? (m := { m with heap := h }) ht
  refine ⟨h, t, ha, hfollows, hcall.trans ?_⟩
  simp only [Method.nullary, bind, EStateM.bind, htable]

/-- An assignment under a key with a hash is one more assignment. -/
theorem exists_assign_eq {a : Assignment α} (hf : m.heap.Files d owner value l)
    (hkey : m.heap.Shows d (value a.key) a.content) (hhash : a.content.isHashable = true)
    (hk : a.content.depth < fuel) (hl : ∀ k ∈ l.contents, k.depth < fuel) :
    ∃ h t, m.heap.Asked d h ∧ t.Follows d value (l ++ [a]) ∧
      (withFuel (fuel + 1) d).callSymbol owner .assign [value a.key, value a.value] m =
        newNone { m with heap := h.setKind owner (.hash t) } := by
  obtain ⟨h, ha, hcall⟩ := exists_callHash_eq (s := .assign) fuel [value a.key, value a.value]
    hf rfl rfl rfl
  obtain ⟨h', t, ha', hfollows, hstore⟩ := exists_store_eq (m := { m with heap := h })
    (ha.files hf) (ha.shows hkey) hhash hk hl
  refine ⟨h', t, ha.trans ha', hfollows, hcall.trans ?_⟩
  simp only [Method.binary, Builtin.assignHash, bind, EStateM.bind, hstore]

/-- An assignment under any other key fails, and changes no Hash. -/
theorem ends_assign_of_not_isHashable {v : Value} (hf : m.heap.Files d owner value l)
    (hkey : m.heap.Shows d key k) (hhash : k.isHashable = false) (hk : k.depth < fuel) :
    ((withFuel (fuel + 1) d).callSymbol owner .assign [key, v]).Ends d m
      (.error "UnhashableTypeError") := by
  refine ends_callHash hf rfl rfl rfl fun h ha => ?_
  exact (ends_store_of_not_isHashable (ha.shows hkey) hk hhash).bind_error

end Engine
end ScriptVM

namespace ScriptVM.Client

open Run Engine

/-! ## On the machine -/

/-- What a client does. -/
inductive Operation where
  /-- Makes a value: an empty Hash, a tuple of other values, or anything else. -/
  | make (datum : Datum Nat)
  | copy (owner : Nat)
  | assign (owner key value : Nat)
  | index (owner key : Nat)
  | contains (owner key : Nat)
  /-- Takes all items out of a new iterator. -/
  | keys (owner : Nat)

/-- What a client gets. -/
inductive Outcome (α : Type) where
  /-- One more value. -/
  | made
  | done
  | value (v : α)
  | flag (b : Bool)
  | values (vs : List α)
  /-- A failure of some kind. -/
  | failed (kind : String)
  deriving DecidableEq

/-- What a client gets, with other names for the values. -/
def Outcome.map {α β : Type} (f : α → β) : Outcome α → Outcome β
  | .made => .made
  | .done => .done
  | .value v => .value (f v)
  | .flag b => .flag b
  | .values vs => .values (vs.map f)
  | .failed kind => .failed kind

/-- The value in a place. -/
def valueAt (values : List Value) (place : Nat) : Value := values.getD place default

/-- What an operation gives, and the values that the client has besides then. -/
def perform (e : Engine) (value : Nat → Value) : Operation → Run (Outcome Value × List Value)
  | .make datum => do
    return (.made, [← newObject (datum.map value).kind])
  | .copy owner => do
    return (.made, [← e.callSymbol (value owner) .copy []])
  | .assign owner key v => do
    let _ ← e.callSymbol (value owner) .assign [value key, value v]
    return (.done, [])
  | .index owner key => do
    return (.value (← e.callSymbol (value owner) .index [value key]), [])
  | .contains owner key => do
    return (.flag (← expectBool (← e.callSymbol (value owner) .contains [value key])), [])
  | .keys owner => do
    return (.values (← e.drain (← e.callSymbol (value owner) .iter [])), [])

/-- A failure is something that a client gets, too. -/
def settle (x : Run (Outcome Value × List Value)) : Run (Outcome Value × List Value) := fun m =>
  match x m with
  | .ok r m => .ok r m
  | .error (.failed f) m => .ok (.failed f.cause.kindName, []) m
  | .error (.gaveUp why) m => .error (.gaveUp why) m

/-- One operation after the other: all values in the end, and what each operation gave. -/
def performAll (e : Engine) (values : List Value) : List Operation →
    Run (List Value × List (Outcome Value))
  | [] => return (values, [])
  | o :: os => do
    let (outcome, more) ← settle (perform e (valueAt values) o)
    let (values, outcomes) ← performAll e (values ++ more) os
    return (values, outcome :: outcomes)

/-! ## In ledgers -/

/-- What is known of a value. -/
inductive Content where
  | other
  | key (k : Key)
  /-- A Hash, with what was assigned to it. -/
  | hash (l : Ledger Nat)

/-- What a value is as a key, when it is known. -/
def Content.key? : Content → Option Key
  | .other => none
  | .key k => some k
  | .hash _ => some .unhashable

/-- The key in a place. -/
def keyAt? (cs : List Content) (place : Nat) : Option Key := cs[place]?.bind Content.key?

/-- The ledger of the Hash in a place. -/
def ledgerAt? (cs : List Content) (place : Nat) : Option (Ledger Nat) :=
  match cs[place]? with
  | some (.hash l) => some l
  | _ => none

/-- What is known of a value that is made. -/
def contentOf (cs : List Content) : Datum Nat → Content
  | .none => .key .none
  | .bool b => .key (.bool b)
  | .integer n => .key (.integer n)
  | .string s => .key (.string s)
  | .bytes content => .key (.bytes content)
  | .tuple items =>
    match items.mapM (keyAt? cs) with
    | some keys => .key (.tuple keys)
    | none => .other
  | .array _ => .key .unhashable
  | .hash => .hash []
  | .float _ | .iterator _ | .error .. | .module _ => .other

/-- What looking up a key in a ledger gives. -/
def lookUp (l : Ledger Nat) (k : Key) : Outcome Nat :=
  match l.last? k with
  | some a => .value a.value
  | none => .failed "KeyNotFoundError"

/-- What an operation should give, and what is known afterwards. Nothing is said of an operation on
values that the client does not have, on something that is no Hash, and with keys that are nothing
but themselves. -/
def expected (d : Digests) (cs : List Content) : Operation → Option (Outcome Nat × List Content)
  | .make datum => some (.made, cs ++ [contentOf cs datum])
  | .copy owner => do
    let l ← ledgerAt? cs owner
    return (.made, cs ++ [.hash l])
  | .assign owner key value => do
    let l ← ledgerAt? cs owner
    let k ← keyAt? cs key
    if cs.length ≤ value then none
    else if k.isHashable then some (.done, cs.set owner (.hash (l ++ [⟨k, key, value⟩])))
    else some (.failed "UnhashableTypeError", cs)
  | .index owner key => do
    let l ← ledgerAt? cs owner
    let k ← keyAt? cs key
    return (if k.isHashable then lookUp l k else .failed "UnhashableTypeError", cs)
  | .contains owner key => do
    let l ← ledgerAt? cs owner
    let k ← keyAt? cs key
    return (if k.isHashable then .flag (l.last? k).isSome else .failed "UnhashableTypeError", cs)
  | .keys owner => do
    let l ← ledgerAt? cs owner
    return (.values ((l.listed d).map (·.key)), cs)

/-- What a list of operations should give, and what is known in the end. -/
def expectedAll (d : Digests) (cs : List Content) :
    List Operation → Option (List (Outcome Nat) × List Content)
  | [] => some ([], cs)
  | o :: os => do
    let (outcome, cs) ← expected d cs o
    let (outcomes, cs) ← expectedAll d cs os
    return (outcome :: outcomes, cs)

end ScriptVM.Client
