import ScriptVM.Builtin.Behaviour
import ScriptVM.Proofs.Passage.Objects

/-!
# The value protocol along a passage

When the calls of one engine carry over to those of another one, so does everything that the machine
asks of values through them: behaviour by name, operators, truth, text, iteration and the storage of
hashes. What a passage says about the steps of generators is left to it, because a generator may only
change as the passage allows.
-/
namespace ScriptVM

/-- Whether the hash of the values of a type comes from the number of the object. -/
def TypeTag.hashesNumber (tag : TypeTag) : Bool := (tag.special? .hash).isNone

namespace Passage

open Engine

/-- The steps of two iterations correspond. -/
def NextCarries (P : Passage) (next next' : Value → Run (Option Value)) : Prop :=
  ∀ v, P.Carries (next v) (next' (P.value v)) (Option.map P.value)

/-- Neither engine keeps track of what the machine holds on to. -/
structure Plain (e e' : Engine) : Prop where
  left : e.tracks = false
  right : e'.tracks = false

theorem Plain.keep {e e' : Engine} {P : Passage} {α β : Type} {known : Machine → Prop} {x : Run α}
    {y : Run β} {r : α → β} (h : Plain e e') (hxy : P.CarriesWhen known x y r)
    {refs refs' : List Reference} :
    P.CarriesWhen known (e.keep refs x) (e'.keep refs' y) r := by
  rwa [keep_of_plain h.left, keep_of_plain h.right]

theorem plain_withFuel (fuel fuel' : Nat) (d d' : Digests) :
    Plain (.withFuel fuel d) (.withFuel fuel' d') :=
  ⟨tracks_withFuel fuel d, tracks_withFuel fuel' d'⟩

/-- The calls and operators of one engine carry over to those of another one. -/
structure Calling (P : Passage) (e e' : Engine) : Prop extends Plain e e' where
  fuel_eq : e'.fuel = e.fuel
  digests_eq : e'.digests = e.digests
  call : ∀ callee args,
    P.Carries (e.call callee args) (e'.call (P.value callee) (args.map P.value)) P.value
  operation : ∀ operator left right, P.Carries (e.operation operator left right)
    (e'.operation operator (P.value left) (P.value right)) P.value

/-- So do stores and the hashes that built-in types give, which change what a passage need not speak
of. The hash of an object as itself comes from its number. -/
structure Calls (P : Passage) (e e' : Engine) : Prop extends Calling P e e' where
  store : ∀ owner key v,
    P.Carries (e.store owner key v) (e'.store (P.value owner) (P.value key) (P.value v)) id
  hash : ∀ {tag : TypeTag} {method : Method}, tag.method? .hash = some method → ∀ this args,
    P.CarriesWhen (fun m => m.heap.tag this = tag ∧ (tag.hashesNumber = true → P.value this = this))
      (method e this args) (method e' (P.value this) (args.map P.value)) P.value

/-- The steps of generators carry over, too. -/
structure Resumes (P : Passage) (e e' : Engine) : Prop extends Calls P e e' where
  resumeWith : ∀ {next next'}, P.NextCarries next next' → ∀ g,
    P.Carries (e.resumeWith next g) (e'.resumeWith next' (P.value g)) (Option.map P.value)

/-- Everything that is asked of iterators carries over. -/
structure Engines (P : Passage) (e e' : Engine) : Prop extends Resumes P e e' where
  hasNext : ∀ v, P.Carries (e.hasNext v) (e'.hasNext (P.value v)) id

variable {P : Passage} {e e' : Engine}

/-! ## Expectations -/

theorem carries_expectBool (v : Value) :
    P.Carries (expectBool v) (expectBool (P.value v)) id := by
  refine (carries_kindOf v).bind fun k => ?_
  cases k with
  | bool b => exact .pure rfl
  | _ => exact carries_failType v _

theorem carries_expectInteger (v : Value) :
    P.Carries (expectInteger v) (expectInteger (P.value v)) id := by
  refine (carries_kindOf v).bind fun k => ?_
  cases k with
  | integer n => exact .pure rfl
  | _ => exact carries_failType v _

theorem carries_expectText (v : Value) :
    P.Carries (expectText v) (expectText (P.value v)) id := by
  refine (carries_kindOf v).bind fun k => ?_
  cases k with
  | string s => exact .pure rfl
  | _ => exact carries_failType v _

theorem carries_expectGenerator (v : Value) :
    P.Carries (expectGenerator v) (expectGenerator (P.value v)) (Generator.rename P.value) := by
  refine (carries_kindOf v).bind fun k => ?_
  cases k with
  | generator g => exact .pure rfl
  | _ => exact carries_failType v _

theorem carries_expectTable (v : Value) :
    P.Carries (expectTable v) (expectTable (P.value v)) (Table.rename P.value) := by
  refine (carries_kindOf v).bind fun k => ?_
  cases k with
  | hash table => exact .pure rfl
  | _ => exact carries_failType v _

/-! ## Behaviour by name -/

theorem carries_callNamed (hplain : Plain e e')
    (hcall : ∀ callee args,
      P.Carries (e.call callee args) (e'.call (P.value callee) (args.map P.value)) P.value)
    (v : Value) (name : String) (args : List Value) :
    P.Carries (e.callNamed v name args) (e'.callNamed (P.value v) name (args.map P.value))
      P.value := by
  refine (carries_lookup v name).bind fun r => ?_
  cases r with
  | some method => exact hplain.keep (hcall method args)
  | none => exact carries_missingSymbol v name

theorem Calls.callNamed (C : P.Calls e e') (v : Value) (name : String) (args : List Value) :
    P.Carries (e.callNamed v name args) (e'.callNamed (P.value v) name (args.map P.value))
      P.value :=
  carries_callNamed C.toPlain C.call v name args

theorem Calls.callSymbol (C : P.Calls e e') (v : Value) (s : Symbol) (args : List Value) :
    P.Carries (e.callSymbol v s args) (e'.callSymbol (P.value v) s (args.map P.value)) P.value :=
  C.callNamed v s.name args

/-- Operators carry over when the second engine only gives up where the first one does. -/
theorem carries_operation (hplain : Plain e e')
    (hstrict : ∀ why stop, P.excuses why stop → stop = .gaveUp why)
    (hcall : ∀ callee args,
      P.Carries (e.call callee args) (e'.call (P.value callee) (args.map P.value)) P.value)
    (operator : BinaryOperator) (left right : Value) :
    P.Carries (e.operation operator left right)
      (e'.operation operator (P.value left) (P.value right)) P.value := by
  have hreflected : P.Carries (e.reflectedOperation operator left right)
      (e'.reflectedOperation operator (P.value left) (P.value right)) P.value :=
    carries_callNamed hplain hcall right _ [left]
  refine (carries_lookup left _).bind fun r => ?_
  cases r with
  | none => exact hreflected
  | some method =>
    refine (Carries.attempt hstrict (hcall method [right])).bind fun r => ?_
    cases r with
    | none => exact hreflected
    | some result => exact .pure rfl

theorem Calling.equals (C : P.Calling e e') (left right : Value) :
    P.Carries (e.equals left right) (e'.equals (P.value left) (P.value right)) id :=
  (C.keep (C.operation .equals left right)).bind fun v => carries_expectBool v

theorem Calling.hashOf (C : P.Calling e e') (v : Value) :
    P.Carries (e.hashOf v) (e'.hashOf (P.value v)) id := by
  refine (carries_lookup v _).bind fun r => ?_
  cases r with
  | some method => exact (C.keep (C.call method [])).bind fun h => carries_expectInteger h
  | none => exact (carries_typeName v).bind fun _ => .fail _

theorem Calls.truthy (C : P.Calls e e') (v : Value) :
    P.Carries (e.truthy v) (e'.truthy (P.value v)) id := by
  refine (carries_kindOf v).bind fun k => ?_
  cases k with
  | bool b => exact .pure rfl
  | _ => exact (C.callSymbol v .toBool []).bind fun b => carries_expectBool b

theorem Calls.stringify (C : P.Calls e e') (v : Value) :
    P.Carries (e.stringify v) (e'.stringify (P.value v)) id := by
  refine (carries_kindOf v).bind fun k => ?_
  cases k with
  | string s => exact .pure rfl
  | _ => exact (C.callSymbol v .toText []).bind fun b => carries_expectText b

/-! ## Iteration -/

theorem Calls.iteratorOf (C : P.Calls e e') (v : Value) :
    P.Carries (e.iteratorOf v) (e'.iteratorOf (P.value v)) P.value := by
  have hasked : P.Carries
      (do
        if ← Run.read fun m => m.heap.has v Symbol.hasNext.name && m.heap.has v Symbol.next.name then
          return v
        else e.callSymbol v .iter [])
      (do
        if ← Run.read fun m =>
            m.heap.has (P.value v) Symbol.hasNext.name && m.heap.has (P.value v) Symbol.next.name then
          return P.value v
        else e'.callSymbol (P.value v) .iter []) P.value := by
    refine .read_bind id (fun _ _ hmn => by rw [P.has_eq hmn, P.has_eq hmn]; rfl) fun b => ?_
    cases b with
    | true => exact .pure rfl
    | false => exact C.callSymbol v .iter []
  refine (carries_kindOf v).bind fun k => ?_
  cases k with
  | iterator remaining delivered => exact .pure rfl
  | generator g => exact .pure rfl
  | _ => exact hasked

theorem Plain.takeItems (hplain : Plain e e') {next next' : Value → Run (Option Value)}
    (hnext : P.NextCarries next next')
    (iterator : Value) (wanted missing : Nat) (taken : List Value) :
    P.Carries (e.takeItems next iterator wanted missing taken)
      (e'.takeItems next' (P.value iterator) wanted missing (taken.map P.value))
        (List.map P.value) := by
  induction missing generalizing taken with
  | zero => exact .pure (by simp)
  | succ missing ih =>
    refine (hplain.keep (hnext iterator)).bind fun r => ?_
    cases r with
    | some item => exact ih (item :: taken)
    | none =>
      have hlength : (taken.map P.value).length = taken.length := List.length_map _
      simp only [Option.map_none, hlength]
      exact .fail _

theorem Calls.unpackWith (C : P.Calls e e') {next next' : Value → Run (Option Value)}
    (hnext : P.NextCarries next next') (v : Value) (wanted : Nat) :
    P.Carries (e.unpackWith next v wanted) (e'.unpackWith next' (P.value v) wanted)
      (List.map P.value) :=
  (C.iteratorOf v).bind fun i => C.takeItems hnext i wanted wanted []

theorem Calls.received (C : P.Calls e e') {next next' : Value → Run (Option Value)}
    (hnext : P.NextCarries next next') (item : Value) (receivers : Nat) :
    P.Carries (e.received next item receivers) (e'.received next' (P.value item) receivers)
      (List.map P.value) := by
  unfold Engine.received
  split
  · exact .pure rfl
  · exact C.unpackWith hnext item receivers

theorem rel_changeGenerator {m n : Machine} (h : P.rel m n) {v : Value}
    {change change' : Generator → Generator}
    (hchange : ∀ s, change' (s.rename P.value) = (change s).rename P.value)
    (hbecomes : ∀ s, P.becomes v s (change s)) :
    P.rel { m with heap := changeGenerator v change m.heap }
      { n with heap := changeGenerator (P.value v) change' n.heap } := by
  unfold changeGenerator
  rw [P.kind_eq h]
  cases hkind : m.heap.kind v with
  | generator s =>
    simp only [Kind.rename, hchange]
    refine P.rel_setKind h (k := .generator (change s)) (fun s' hs' => ⟨change s, rfl, ?_⟩)
      (P.allows_mild (Object.mild_setKind (congrArg Kind.tag hkind) rfl rfl (by rintro ⟨⟩)))
    cases hkind.symm.trans hs'
    exact hbecomes s
  | _ => exact h

theorem size_changeGenerator (v : Value) (change : Generator → Generator) (h : Heap) :
    (changeGenerator v change h).objects.size = h.objects.size := by
  unfold changeGenerator
  split
  · simp [Heap.setKind]
  · rfl

/-- A generator changes as it may. -/
theorem carries_changeGenerator (v : Value) (change change' : Generator → Generator)
    (hchange : ∀ s, change' (s.rename P.value) = (change s).rename P.value)
    (hbecomes : ∀ s, P.becomes v s (change s)) :
    P.Carries (Run.modifyHeap (changeGenerator v change))
      (Run.modifyHeap (changeGenerator (P.value v) change')) id :=
  .modify (fun m => size_changeGenerator v change m.heap)
    fun _ _ hmn => rel_changeGenerator hmn hchange hbecomes

theorem carries_orExhaust (g : Value) {x y : Run (Option Value)}
    (h : P.Carries x y (Option.map P.value)) :
    P.Carries (orExhaust g x) (orExhaust (P.value g) y) (Option.map P.value) := by
  have hsize : ∀ m, ((orExhaust g x).after m).objectCount = (x.after m).objectCount := by
    intro m
    unfold Run.after orExhaust
    cases x m with
    | ok r m' =>
      cases r with
      | some v => rfl
      | none => exact size_changeGenerator _ _ _
    | error stop m' => exact size_changeGenerator _ _ _
  constructor
  · intro m
    rw [hsize]
    exact h.grows m
  · intro m n hmn _ hroom
    rw [hsize] at hroom
    have hxy := h.holds m n hmn trivial hroom
    have hexhaust : ∀ {m' n'}, P.rel m' n' →
        P.rel { m' with heap := changeGenerator g (fun s => { s with status := .exhausted }) m'.heap }
          { n' with heap :=
              changeGenerator (P.value g) (fun s => { s with status := .exhausted }) n'.heap } :=
      fun hmn' => rel_changeGenerator hmn' (fun _ => rfl) fun s => P.becomes_exhausted g s
    unfold orExhaust
    generalize x m = t at hxy
    generalize y n = u at hxy
    cases hxy with
    | ok r hmn' =>
      cases r with
      | some v => exact .ok (some v) hmn'
      | none => exact .ok none (hexhaust hmn')
    | failed hfg hmn' => exact .failed hfg (hexhaust hmn')
    | gaveUp m' n' hstop => exact .gaveUp _ _ hstop
    | unsaid m' _ honeWay => exact .unsaid _ _ honeWay

theorem Calls.askHasNext (C : P.Calls e e') (v : Value) :
    P.Carries (e.askHasNext v) (e'.askHasNext (P.value v)) id :=
  (C.callSymbol v .hasNext []).bind fun b => C.truthy b

/-- A step of a generator carries over when its body does. -/
theorem Plain.resumeWith (hplain : Plain e e') {next next' : Value → Run (Option Value)}
    (hnext : P.NextCarries next next') (g : Value)
    (hbody : ∀ item, P.Carries (e.applyBody next g item)
      (e'.applyBody next' (P.value g) (P.value item)) P.value) :
    P.Carries (e.resumeWith next g) (e'.resumeWith next' (P.value g)) (Option.map P.value) := by
  refine (carries_expectGenerator g).bind fun state => ?_
  obtain ⟨source, body, receivers, scope, frame, status, buffered⟩ := state
  cases buffered with
  | some v =>
    exact (carries_changeGenerator g (fun s => { s with buffered := none })
      (fun s => { s with buffered := none }) (fun _ => rfl) fun s => P.becomes_delivered g s).bind
        fun _ => .pure rfl
  | none =>
    cases status with
    | exhausted => exact .pure rfl
    | fresh | suspended i =>
      refine carries_orExhaust g (hplain.keep ((hnext source).bind fun r => ?_))
      cases r with
      | none => exact .pure rfl
      | some item => exact (hbody item).bind fun _ => .pure rfl

/-- Producing an item in advance carries over when a generator may take it in store. -/
theorem carries_hasNext (C : P.Calls e e') (v : Value)
    (hresume : P.Carries (e.resume v) (e'.resume (P.value v)) (Option.map P.value))
    (hbuffer : ∀ s b, P.becomes v s { s with buffered := some b }) :
    P.Carries (e.hasNext v) (e'.hasNext (P.value v)) id := by
  refine (carries_kindOf v).bind fun k => ?_
  cases k with
  | iterator remaining delivered => exact .pure (by simp)
  | generator g =>
    obtain ⟨source, body, receivers, scope, frame, status, buffered⟩ := g
    cases buffered with
    | some b => exact .pure rfl
    | none =>
      refine hresume.bind fun r => ?_
      cases r with
      | none => exact .pure rfl
      | some b =>
        exact (carries_changeGenerator v (fun s => { s with buffered := some b })
          (fun s => { s with buffered := some (P.value b) }) (fun _ => rfl) fun s => hbuffer s b).bind
            fun _ => .pure rfl
  | _ => exact C.askHasNext v

theorem Resumes.nextWithin (E : P.Resumes e e') (depth : Nat) :
    P.NextCarries (e.nextWithin depth) (e'.nextWithin depth) := by
  induction depth with
  | zero => exact fun _ => .giveUp
  | succ depth ih =>
    intro v
    have hasked : P.Carries
        (do if ← e.askHasNext v then return some (← e.callSymbol v .next []) else return none)
        (do
          if ← e'.askHasNext (P.value v) then return some (← e'.callSymbol (P.value v) .next [])
          else return none) (Option.map P.value) := by
      refine (E.askHasNext v).bind fun b => ?_
      cases b with
      | true => exact (E.callSymbol v .next []).bind fun _ => .pure rfl
      | false => exact .pure rfl
    refine carries_kindOf_bind fun k => ?_
    cases k with
    | iterator remaining delivered =>
      cases remaining with
      | nil => exact Carries.when (.pure rfl)
      | cons item remaining =>
        refine CarriesWhen.bind
          (carries_setKind v (.iterator remaining (item :: delivered)) fun m hm => ⟨?_, ?_⟩)
          fun _ => .pure rfl
        · exact fun s hs => Kind.noConfusion (hm.2.symm.trans hs)
        · exact P.allows_mild (Object.mild_setKind (congrArg Kind.tag hm.2) rfl rfl nofun)
    | generator g => exact (E.resumeWith ih v).when
    | _ => exact hasked.when

theorem Resumes.next (E : P.Resumes e e') : P.NextCarries e.next e'.next := by
  unfold Engine.next
  rw [E.fuel_eq]
  exact E.nextWithin e.fuel

theorem Resumes.resume (E : P.Resumes e e') (g : Value) :
    P.Carries (e.resume g) (e'.resume (P.value g)) (Option.map P.value) :=
  E.resumeWith E.next g

theorem Resumes.drain (E : P.Resumes e e') (v : Value) :
    P.Carries (e.drain v) (e'.drain (P.value v)) (List.map P.value) := by
  have hwithin : ∀ rounds taken, P.Carries (e.drainWithin v rounds taken)
      (e'.drainWithin (P.value v) rounds (taken.map P.value)) (List.map P.value) := by
    intro rounds
    induction rounds with
    | zero => exact fun _ => .giveUp
    | succ rounds ih =>
      intro taken
      refine (E.keep (E.next v)).bind fun r => ?_
      cases r with
      | some item => exact ih (item :: taken)
      | none => exact .pure (by simp)
  unfold Engine.drain
  rw [E.fuel_eq]
  exact hwithin e.fuel []

/-! ## Storage -/

theorem Calling.positionOf (C : P.Calling e e') (key : Value) (position : Nat)
    (candidates : List Value) :
    P.Carries (e.positionOf key position candidates)
      (e'.positionOf (P.value key) position (candidates.map P.value)) id := by
  induction candidates generalizing position with
  | nil => exact .pure rfl
  | cons candidate rest ih =>
    simp only [List.map_cons, Engine.positionOf, value_inj]
    split
    · exact .pure rfl
    · refine (C.equals candidate key).bind fun b => ?_
      cases b with
      | true => exact .pure rfl
      | false => exact ih (position + 1)

theorem Calling.locate (C : P.Calling e e') (owner key : Value) :
    P.Carries (e.locate owner key) (e'.locate (P.value owner) (P.value key)) id := by
  refine (C.hashOf key).bind fun hash => ?_
  refine (carries_expectTable owner).bind fun t => ?_
  have hkeys : ((t.rename P.value).bucket hash).map (·.1) =
      ((t.bucket hash).map (·.1)).map P.value := by
    simp only [Table.bucket_rename, List.map_map, Function.comp_def]
  simp only [id_eq, hkeys]
  exact (C.keep (C.positionOf key 0 _)).bind fun _ => .pure rfl

theorem Calling.stored? (C : P.Calling e e') (owner key : Value) :
    P.Carries (e.stored? owner key) (e'.stored? (P.value owner) (P.value key))
      (Option.map P.value) := by
  refine (C.keep (C.locate owner key)).bind fun found => ?_
  obtain ⟨hash, position⟩ := found
  cases position with
  | none => exact .pure rfl
  | some position =>
    refine (carries_expectTable owner).bind fun t => .pure ?_
    simp only [Table.bucket_rename, List.getElem?_map, Option.map_map, Function.comp_def]

theorem Calling.isStored (C : P.Calling e e') (owner key : Value) :
    P.Carries (e.isStored owner key) (e'.isStored (P.value owner) (P.value key)) id :=
  (C.keep (C.locate owner key)).bind fun _ => .pure rfl

/-- A store carries over when the change of the table does. -/
theorem Calling.store_of_put (C : P.Calling e e') {owner key v : Value}
    {q : Int64 × Option Nat → Machine → Prop}
    (hq : ∀ m n found m', P.rel m n → e.locate owner key m = .ok found m' → q found m')
    (hput : ∀ hash position t, P.CarriesWhen
      (fun m => q (hash, position) m ∧ m.heap.kind owner = .hash t)
      (Run.modifyHeap fun h => h.setKind owner (.hash (t.put hash position key v)))
      (Run.modifyHeap fun h => h.setKind (P.value owner)
        (.hash ((t.rename P.value).put hash position (P.value key) (P.value v)))) id) :
    P.Carries (e.store owner key v) (e'.store (P.value owner) (P.value key) (P.value v)) id := by
  rw [Engine.store, keep_of_plain C.left, Engine.store, keep_of_plain C.right]
  refine (C.locate owner key).bind_when (q := q) (fun m n found m' hmn _ => hq m n found m' hmn)
    fun found => ?_
  obtain ⟨hash, position⟩ := found
  unfold expectTable
  simp only [bind_assoc]
  refine carries_kindOf_bind fun k => ?_
  cases k with
  | hash t => exact hput hash position t
  | _ => exact (carries_failType (r := id) owner ["Hash"]).when

/-- A store carries over where tables may change. -/
theorem Calling.store (C : P.Calling e e') (hallows : ∀ {o o'}, o.Precedes o' → P.allows o o')
    (owner key v : Value) :
    P.Carries (e.store owner key v) (e'.store (P.value owner) (P.value key) (P.value v)) id := by
  refine C.store_of_put (q := fun _ _ => True) (fun _ _ _ _ _ _ => trivial)
    fun hash position t => ?_
  have hset := carries_setKind (P := P) owner (.hash (t.put hash position key v))
    fun m (hm : True ∧ m.heap.kind owner = .hash t) =>
      ⟨fun s hs => Kind.noConfusion (hm.2.symm.trans hs),
        hallows (.setKind (congrArg Kind.tag hm.2) rfl rfl)⟩
  simp only [Kind.rename, Table.rename_put] at hset
  exact hset

end Passage
end ScriptVM
