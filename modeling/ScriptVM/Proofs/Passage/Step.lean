import ScriptVM.Proofs.Growth
import ScriptVM.Proofs.Passage.Builtin

/-!
# Calls and steps along a passage

A passage that also says what happens to frames carries calls and steps over from one engine to
another one, as soon as activations carry over.
-/
namespace ScriptVM

/-- Runs something in the global frame and brings the machine back to rest after a failure. -/
def Run.outermost (x : FrameId → Run (Value × Cursor)) : Run Value := fun m =>
  match x m.globals m with
  | .ok (v, _) m => .ok v m
  | .error stop m => .error stop m.reset

/-- Executes instructions of code in a frame, each by a step of some kind, until nothing is under the
cursor or the body is left. At most so many steps are taken. -/
def Run.dispatchBy (step : Instruction → FrameId → Cursor → Run Flow) :
    Nat → FrameId → Cursor → Run Flow
  | 0, _, _ => giveUp
  | steps + 1, id, c =>
    match c.next? with
    | none => return .next c
    | some (i, after) => do
      trace c.index i
      match ← step i id after with
      | .next c => dispatchBy step steps id c
      | .leave v c => return .leave v c

theorem Engine.dispatch_eq (e : Engine) (steps : Nat) (id : FrameId) (c : Cursor) :
    e.dispatch steps id c =
      Run.dispatchBy (fun i id c => Run.located i.span (e.step id c i.op)) steps id c := by
  induction steps generalizing c with
  | zero => rfl
  | succ steps ih =>
    unfold dispatch
    simp only [ih]
    rfl

/-- A body that runs as an activation leaves as many objects behind as it would by itself. -/
theorem Run.objectCount_activation {α : Type} {x : Run α} (f : FrameId) {m : Machine}
    (h : ¬m.config.maxCallDepth ≤ m.depth) :
    ((activation f x).after m).objectCount =
      (x.after { m with callStack := m.callStack.push f }).objectCount := by
  unfold after activation
  simp only [if_neg h]
  cases x _ <;> rfl

theorem Run.grows_activation {α : Type} {x : Run α} (f : FrameId)
    (h : ∀ m, m.objectCount ≤ (x.after m).objectCount) (m : Machine) :
    m.objectCount ≤ ((activation f x).after m).objectCount := by
  by_cases hfull : m.config.maxCallDepth ≤ m.depth
  · unfold after activation
    simp only [if_pos hfull]
    exact Nat.le_refl _
  · rw [objectCount_activation f hfull]
    exact h { m with callStack := m.callStack.push f }

namespace Passage

open Run Engine

/-- What is done with frames carries over. -/
structure Frames (P : Passage) : Prop where
  define : ∀ f name v, P.Carries (define f name v) (define f name (P.value v)) id
  push : ∀ f v, P.Carries (push f v) (push f (P.value v)) id
  pushAll : ∀ f vs, P.Carries (pushAll f vs) (pushAll f (vs.map P.value)) id
  pop : ∀ f, P.Carries (pop f) (pop f) P.value
  popMany : ∀ f count, P.Carries (popMany f count) (popMany f count) (List.map P.value)
  top : ∀ f, P.Carries (top f) (top f) P.value
  last : ∀ f, P.Carries (last f) (last f) (Option.map P.value)
  setLast : ∀ f v, P.Carries (setLast f v) (setLast f (P.value v)) id
  assign : ∀ f name v, P.Carries (assign f name v) (assign f name (P.value v)) id
  resolve : ∀ f name, P.Carries (resolve f name) (resolve f name) (Option.map P.value)
  retain : ∀ f, P.Carries (retain f) (retain f) id
  methodScope : ∀ f, P.Carries (methodScope f) (methodScope f) id
  newFrame : ∀ parent object bindsObject, P.Carries (newFrame parent object bindsObject)
    (newFrame parent (object.map P.value) bindsObject) id
  activate : ∀ f, P.Carries (activate f) (activate f) id
  trace : ∀ position i, P.Carries (trace position i) (trace position i) id
  activation : ∀ {α β : Type} {x : Run α} {y : Run β} {r : α → β} (f), P.Carries x y r →
    P.Carries (activation f x) (activation f y) r

/-- The value and the place that a body ends with, renamed. -/
def ended (P : Passage) (r : Value × Cursor) : Value × Cursor := (P.value r.1, r.2)

/-- Engines that also run code alike. -/
structure Knot (P : Passage) (e e' : Engine) : Prop extends Engines P e e' where
  enter : ∀ f c, P.Carries (e.enter f c) (e'.enter f c) P.ended

variable {P : Passage} {e e' : Engine} {known : Machine → Prop}

/-! ## Bodies -/

/-- Bodies that run in frames of their own. -/
theorem Frames.runIn (F : P.Frames) (hplain : Plain e e')
    (henter : ∀ f c, P.Carries (e.enter f c) (e'.enter f c) P.ended) (scope : FrameId)
    (object : Option Value) (bindsObject : Bool) (self : Value) (operands : List Value)
    (body : View) :
    P.Carries (e.runIn scope object bindsObject self operands body)
      (e'.runIn scope (object.map P.value) bindsObject (P.value self) (operands.map P.value) body)
      P.value := by
  simp only [Engine.runIn, newFrame_of_plain hplain.left, newFrame_of_plain hplain.right]
  refine (F.newFrame (some scope) object bindsObject).bind fun f => ?_
  refine (F.define f selfName self).bind fun _ => ?_
  refine (F.pushAll f operands).bind fun _ => ?_
  exact (henter f (.ofView body)).bind fun _ => .pure rfl

theorem Frames.generatorFrame (F : P.Frames) (hplain : Plain e e') (g : Value) (state : Generator)
    (values : List Value) :
    P.Carries (e.generatorFrame g state values)
      (e'.generatorFrame (P.value g) (state.rename P.value) (values.map P.value)) id := by
  simp only [Engine.generatorFrame, newFrame_of_plain hplain.left, newFrame_of_plain hplain.right]
  obtain ⟨source, body, receivers, scope, frame, status, buffered⟩ := state
  cases frame with
  | some f => exact (F.activate f).bind fun _ => .pure rfl
  | none =>
    refine (F.newFrame (some scope) none false).bind fun f => ?_
    refine (F.retain f).bind fun f => ?_
    exact (carries_changeGenerator g (fun s => { s with frame := some f })
      (fun s => { s with frame := some f }) (fun _ => rfl)
        fun s => P.becomes_framed g s f).bind fun _ => .pure rfl

theorem startOf_rename (σ : Value → Value) (state : Generator) :
    startOf (state.rename σ) = startOf state := rfl

/-- The body of a generator carries over when the generator may be suspended after it. -/
theorem Frames.applyBody (F : P.Frames) (C : P.Calls e e')
    (henter : ∀ f c, P.Carries (e.enter f c) (e'.enter f c) P.ended)
    {next next' : Value → Run (Option Value)} (hnext : P.NextCarries next next') (g : Value)
    (hsuspend : ∀ s i, P.becomes g s { s with status := .suspended i }) (item : Value) :
    P.Carries (e.applyBody next g item) (e'.applyBody next' (P.value g) (P.value item))
      P.value := by
  refine (carries_expectGenerator g).bind fun state => ?_
  have hoperation : ∀ values, P.Carries (e.runOperation g state values)
      (e'.runOperation (P.value g) (state.rename P.value) (values.map P.value)) P.ended := by
    intro values
    refine (F.generatorFrame C.toPlain g state values).bind fun f => ?_
    refine (F.pushAll f values).bind fun _ => ?_
    rw [startOf_rename]
    exact henter f _
  refine (C.keep ((C.received hnext item state.receivers).bind hoperation)).bind fun r => ?_
  obtain ⟨v, stop⟩ := r
  exact (carries_changeGenerator g (fun s => { s with status := .suspended stop.index })
    (fun s => { s with status := .suspended stop.index }) (fun _ => rfl)
      fun s => hsuspend s stop.index).bind fun _ => .pure rfl

/-- Where generators may change in any way, their steps carry over with the calls and the runs of
code. -/
theorem Frames.knot (F : P.Frames) (hbecomes : ∀ v g g', P.becomes v g g') (C : P.Calls e e')
    (henter : ∀ f c, P.Carries (e.enter f c) (e'.enter f c) P.ended) : P.Knot e e' := by
  have R : P.Resumes e e' := ⟨C, fun hnext g => C.resumeWith hnext g fun item =>
    F.applyBody C henter hnext g (fun _ _ => hbecomes _ _ _) item⟩
  exact ⟨⟨R, fun v => carries_hasNext C v (R.resume v) fun _ _ => hbecomes _ _ _⟩, henter⟩

/-- As much carries over as calls and runs of code do. -/
theorem Frames.knot_of_calls (F : P.Frames)
    (hstrict : ∀ why stop, P.excuses why stop → stop = .gaveUp why)
    (hbecomes : ∀ v g g', P.becomes v g g') (hallows : ∀ {o o'}, o.Precedes o' → P.allows o o')
    (hplain : Plain e e') (hfuel : e'.fuel = e.fuel) (hdigests : e'.digests = e.digests)
    (hcall : ∀ callee args,
      P.Carries (e.call callee args) (e'.call (P.value callee) (args.map P.value)) P.value)
    (henter : ∀ f c, P.Carries (e.enter f c) (e'.enter f c) P.ended) : P.Knot e e' :=
  F.knot hbecomes
    (Calling.calls ⟨hplain, hfuel, hdigests, hcall, carries_operation hplain hstrict hcall⟩ hallows)
    henter

/-! ## Calls -/

/-- Whether calling a value asks no object for its hash that comes from its number, unless the object
keeps its number. -/
def KeepsNumber (P : Passage) (callee : Value) (m : Machine) : Prop :=
  ∀ receiver, m.heap.kind callee = .function ⟨.builtin .hash, receiver⟩ →
    (m.heap.tag (receiver.getD callee)).hashesNumber = true →
    P.value (receiver.getD callee) = receiver.getD callee

theorem carries_callBuiltin (E : P.Engines e e') (receiver : Value) (s : Symbol)
    (hknown : ∀ m, known m → s = .hash → (m.heap.tag receiver).hashesNumber = true →
      P.value receiver = receiver) (args : List Value) :
    P.CarriesWhen known (e.callBuiltin receiver s args)
      (e'.callBuiltin (P.value receiver) s (args.map P.value)) P.value := by
  refine carries_kindOf_bind fun k => ?_
  rw [Kind.tag_rename]
  cases hmethod : k.tag.method? s with
  | none => exact (carries_missingSymbol receiver s.name).when
  | some method =>
    refine carries_method E (fun m hm hs => ?_) hmethod args
    have htag : m.heap.tag receiver = k.tag := by rw [Heap.tag, hm.2]
    exact ⟨htag, fun hnumber => hknown m hm.1 hs (htag ▸ hnumber)⟩

theorem Frames.buildWithin (F : P.Frames) (K : P.Knot e e') (object : Value) (depth : Nat)
    (cls : Value) :
    P.Carries (e.buildWithin object depth cls)
      (e'.buildWithin (P.value object) depth (P.value cls)) id := by
  induction depth generalizing cls with
  | zero => exact .giveUp
  | succ depth ih =>
    refine (carries_kindOf cls).bind fun k => ?_
    cases k with
    | type d =>
      cases d with
      | builtin tag => exact carries_failType cls _
      | ofClass c =>
        refine K.keep ((Carries.forM c.bases fun base => ?_).bind fun _ =>
          (F.runIn K.toPlain K.enter c.scope (some object) true object [object] c.body).discard)
        refine (carries_kindOf base).bind fun k => ?_
        cases k with
        | type d =>
          cases d with
          | builtin tag => exact .pure rfl
          | ofClass c => exact ih base
        | _ => exact carries_failType base _
    | _ => exact carries_failType cls _

theorem Frames.construct (F : P.Frames) (K : P.Knot e e') (cls : Value) :
    P.Carries (e.construct cls) (e'.construct (P.value cls)) P.value := by
  refine (carries_newObject (.object cls) rfl).bind fun object => ?_
  rw [K.fuel_eq]
  exact (K.keep (F.buildWithin K object e.fuel cls)).bind fun _ => .pure rfl

theorem Calls.convertValue (C : P.Calls e e') (tag : TypeTag) (v : Value) :
    P.Carries (e.convertValue tag v) (e'.convertValue tag (P.value v)) P.value := by
  have hask : ∀ s, P.Carries (e.callSymbol v s []) (e'.callSymbol (P.value v) s []) P.value :=
    fun s => C.callSymbol v s []
  cases tag with
  | integer => exact hask _
  | float => exact hask _
  | string => exact (C.stringify v).bind fun _ => carries_newString _
  | bool => exact (C.truthy v).bind fun _ => carries_newBool _
  | tuple => exact hask _
  | array => exact hask _
  | bytes =>
    refine (carries_kindOf v).bind fun k => ?_
    cases k with
    | string s => exact carries_newBytes _
    | bytes content => exact carries_newBytes _
    | _ => exact carries_failType v _
  | iterator => exact C.iteratorOf v
  | error => exact (C.stringify v).bind fun s => carries_newObject (.error "Error" s) rfl
  | type => exact hask _
  | none | hash | function | generator | module | object => exact .fail _

theorem convert_one (e : Engine) (tag : TypeTag) (v : Value) :
    e.convert tag [v] = e.convertValue tag v := by
  cases tag <;> rfl

theorem convert_many (e : Engine) (tag : TypeTag) (a b : Value) (rest : List Value) :
    e.convert tag (a :: b :: rest) = fail (.argumentCount 1 (rest.length + 2)) := by
  cases tag <;> rfl

theorem Calls.convert (C : P.Calls e e') (tag : TypeTag) (args : List Value) :
    P.Carries (e.convert tag args) (e'.convert tag (args.map P.value)) P.value := by
  have hobject : P.Carries (do newObject (.object (← builtinType .object)))
      (do newObject (.object (← builtinType .object))) P.value :=
    (carries_builtinType .object).bind fun v => carries_newObject (.object v) rfl
  match args with
  | [v] =>
    simp only [List.map_cons, List.map_nil, convert_one]
    exact C.convertValue tag v
  | [] =>
    cases tag with
    | hash => exact carries_newTable
    | tuple => exact carries_newObject (.tuple []) rfl
    | array => exact carries_newObject (.array []) rfl
    | string => exact carries_newString ""
    | object => exact hobject
    | _ => exact .fail _
  | a :: b :: rest =>
    simp only [List.map_cons, convert_many, List.length_map]
    exact .fail _

theorem Calls.callOther (C : P.Calls e e') (callee : Value) (args : List Value) :
    P.Carries (e.callOther callee args) (e'.callOther (P.value callee) (args.map P.value))
      P.value := by
  refine (carries_lookup callee _).bind fun r => ?_
  cases r with
  | none => exact (carries_typeName callee).bind fun _ => .fail _
  | some method =>
    refine (carries_kindOf method).bind fun k => ?_
    cases k with
    | function f => exact C.call method args
    | _ => exact carries_failType method _

theorem Frames.callFunction (F : P.Frames) (K : P.Knot e e') (callee : Value) (f : Function)
    (hknown : ∀ m, known m → f.callable = .builtin .hash →
      (m.heap.tag (f.receiver.getD callee)).hashesNumber = true →
        P.value (f.receiver.getD callee) = f.receiver.getD callee) (args : List Value) :
    P.CarriesWhen known (e.callFunction callee f args)
      (e'.callFunction (P.value callee) (f.rename P.value) (args.map P.value)) P.value := by
  obtain ⟨callable, receiver⟩ := f
  have hreceiver : (receiver.map P.value).getD (P.value callee) =
      P.value (receiver.getD callee) := by
    cases receiver <;> rfl
  simp only [Engine.callFunction, Function.rename, List.length_map]
  split
  · exact (Carries.fail _).when
  · cases callable with
    | code f =>
      simp only [callCode, hreceiver]
      exact (F.runIn K.toPlain K.enter f.scope receiver false _ args f.body).when
    | builtin s =>
      simp only [hreceiver]
      exact K.keep (carries_callBuiltin K.toEngines _ s
        (fun m hm hs => hknown m hm (congrArg Callable.builtin hs)) args)

/-- Calls carry over, as long as objects that are asked for a hash from their number keep it. -/
theorem Frames.callValue (F : P.Frames) (K : P.Knot e e') (callee : Value) (args : List Value) :
    P.CarriesWhen (P.KeepsNumber callee) (e.callValue callee args)
      (e'.callValue (P.value callee) (args.map P.value)) P.value := by
  refine carries_kindOf_bind fun k => ?_
  cases k with
  | function f =>
    refine F.callFunction K callee f (fun m hm hs hnumber => ?_) args
    obtain ⟨callable, receiver⟩ := f
    cases hs
    exact hm.1 receiver hm.2 hnumber
  | type d =>
    cases d with
    | builtin tag => exact (K.convert tag args).when
    | ofClass c =>
      refine Carries.when ((K.keep (F.construct K callee)).bind fun object => ?_)
      exact (Carries.discard (K.keep (K.callSymbol object .initializer args))).bind
        fun _ => .pure rfl
  | _ => exact (K.callOther callee args).when

/-! ## Parts of steps -/

theorem Frames.produce (F : P.Frames) (f : FrameId) (k : Kind) (hk : k.isPlain = true) :
    P.Carries (produce f k) (produce f (k.rename P.value)) id :=
  (carries_newObject k hk).bind fun v => F.setLast f v

theorem Frames.fillHash (F : P.Frames) (C : P.Calls e e') (f : FrameId) (owner : Value)
    (count : Nat) :
    P.Carries (e.fillHash f owner count) (e'.fillHash f (P.value owner) count) id := by
  induction count with
  | zero => exact .pure rfl
  | succ count ih =>
    refine (F.pop f).bind fun key => ?_
    refine (F.pop f).bind fun v => ?_
    exact (C.keep (C.store owner key v)).bind fun _ => ih

theorem Frames.popCondition (F : P.Frames) (C : P.Calls e e') (f : FrameId) :
    P.Carries (e.popCondition f) (e'.popCondition f) id :=
  (F.pop f).bind fun v => C.truthy v

theorem carries_goBack (c : Cursor) (offset : Nat) :
    P.Carries (goBack c offset) (goBack c offset) (Flow.rename P.value) := by
  unfold goBack
  split
  · exact .pure rfl
  · exact .fail _

theorem carries_exitValue (vs : List Value) :
    P.Carries (exitValue vs) (exitValue (vs.map P.value)) P.value := by
  match vs with
  | [] => exact carries_newNone
  | [v] => exact .pure rfl
  | a :: b :: rest => exact carries_newObject (.tuple (a :: b :: rest)) rfl

theorem Frames.loadArguments (F : P.Frames) (f : FrameId) (names : List String) :
    P.Carries (loadArguments f names) (loadArguments f names) id := by
  induction names with
  | nil => exact .pure rfl
  | cons name rest ih =>
    refine (F.pop f).bind fun v => ?_
    exact (F.define f name v).bind fun _ => ih

theorem Frames.newFunction (F : P.Frames) (f : FrameId) (c : Cursor) (info : FunctionInfo) :
    P.Carries (newFunction f c info) (newFunction f c info) P.ended := by
  refine (F.retain f).bind fun scope => ?_
  exact (carries_newObject (.function
    ⟨.code ⟨info.name, info.arity, (c.cut info.bodyLength).1, scope⟩, none⟩) rfl).bind
      fun _ => .pure rfl

theorem Frames.newMethod (F : P.Frames) (f : FrameId) (c : Cursor) (info : FunctionInfo) :
    P.Carries (newMethod f c info) (newMethod f c info) id := by
  refine (F.top f).bind fun target => ?_
  refine (F.methodScope f).bind fun scope => ?_
  refine (F.retain scope).bind fun scope => ?_
  exact (carries_setMember target _ (.method
    ⟨some (info.name.getD ""), info.arity, (c.cut info.bodyLength).1, scope⟩) nofun).bind
      fun _ => .pure rfl

theorem Frames.newGenerator (F : P.Frames) (C : P.Calls e e') (f : FrameId) (c : Cursor)
    (info : GeneratorInfo) :
    P.Carries (e.newGenerator f c info) (e'.newGenerator f c info) id := by
  refine (F.pop f).bind fun v => ?_
  refine (C.iteratorOf v).bind fun source => ?_
  refine (F.retain f).bind fun scope => ?_
  exact (F.produce f (.generator ⟨source, (c.cut info.operationLength).1, info.receiverCount, scope,
    none, .fresh, none⟩) rfl).bind fun _ => .pure rfl

theorem expectTypes_cons (v : Value) (rest : List Value) (m : Machine) :
    expectTypes (v :: rest) m = match m.heap.kind v with
      | .type _ => expectTypes rest m
      | _ => failType v ["Type"] m := by
  have hbind : expectTypes (v :: rest) m = EStateM.bind (match m.heap.kind v with
      | .type _ => pure ()
      | _ => failType v ["Type"]) (fun _ => expectTypes rest) m := rfl
  rw [hbind]
  cases m.heap.kind v <;> rfl

/-- Values that have been found to be types are types. -/
theorem types_of_expectTypes {vs : List Value} {m m' : Machine}
    (h : expectTypes vs m = .ok () m') : m' = m ∧ ∀ v ∈ vs, ∃ d, m.heap.kind v = .type d := by
  induction vs with
  | nil =>
    cases h
    exact ⟨rfl, nofun⟩
  | cons v rest ih =>
    rw [expectTypes_cons] at h
    split at h
    · rename_i d hk
      obtain ⟨rfl, hrest⟩ := ih h
      exact ⟨rfl, List.forall_mem_cons.2 ⟨⟨d, hk⟩, hrest⟩⟩
    · cases h

theorem carries_expectTypes (vs : List Value) :
    P.Carries (expectTypes vs) (expectTypes (vs.map P.value)) id := by
  refine .forM vs fun v => (carries_kindOf v).bind fun k => ?_
  cases k with
  | type d => exact .pure rfl
  | _ => exact carries_failType v _

/-- The bases of a new class have turned out to be types. -/
theorem Frames.newClass (F : P.Frames) (f : FrameId) (c : Cursor) (info : ClassInfo) :
    P.Carries (newClass f c info) (newClass f c info) id := by
  refine (F.popMany f info.baseCount).bind fun popped => ?_
  simp only [← List.map_reverse]
  let known : Machine → Prop := fun m => ∀ base ∈ popped.reverse, ∃ d, m.heap.kind base = .type d
  refine (carries_expectTypes popped.reverse).bind_when (q := fun _ => known) ?_ fun _ => ?_
  · intro m _ _ m' _ _ hm
    obtain ⟨rfl, htypes⟩ := types_of_expectTypes hm
    exact htypes
  refine (F.retain f).when.bind_when (q := fun _ => known) ?_ fun scope => ?_
  · intro _ _ _ _ _ hm hretain
    have hheap := (ignoresHeap_retain f).sparesHeap.heap_of_ok hretain
    simpa only [known, hheap] using hm
  refine (carries_newObject_when (.type
    (.ofClass ⟨info.name, popped.reverse, (c.cut info.bodyLength).1, scope⟩)) ?_).bind fun cls => ?_
  · rintro m hm
    refine ⟨fun t ht => ?_, ?_⟩
    · cases ht
    · rintro _ ⟨⟩
      exact hm
  refine (F.assign f info.name cls).bind fun _ => ?_
  exact (F.setLast f cls).bind fun _ => .pure rfl

theorem Frames.newModule (F : P.Frames) (K : P.Knot e e') (f : FrameId) (c : Cursor)
    (info : ClassInfo) : P.Carries (e.newModule f c info) (e'.newModule f c info) id := by
  refine (carries_newObject (.module info.name) rfl).bind fun module => ?_
  refine (Carries.discard
    (K.keep (F.runIn K.toPlain K.enter f (some module) true module [] _))).bind fun _ => ?_
  refine (F.assign f info.name module).bind fun _ => ?_
  exact (F.setLast f module).bind fun _ => .pure rfl

/-! ## Steps -/

theorem Carries.next {x y : Run Unit} {c : Cursor} (h : P.Carries x y id) :
    P.Carries (do x; return Flow.next c) (do y; return Flow.next c) (Flow.rename P.value) :=
  h.bind fun _ => .pure rfl

theorem Carries.nextAt {x y : Run Cursor} (h : P.Carries x y id) :
    P.Carries (do return Flow.next (← x)) (do return Flow.next (← y)) (Flow.rename P.value) :=
  h.bind fun _ => .pure rfl

theorem Frames.produceNext (F : P.Frames) (f : FrameId) (k : Kind) (c : Cursor)
    (hk : k.isPlain = true) :
    P.Carries (do Engine.produce f k; return Flow.next c)
      (do Engine.produce f (k.rename P.value); return Flow.next c) (Flow.rename P.value) :=
  (F.produce f k hk).next

/-- What a computation produces becomes the last object. -/
theorem Frames.setLast_of (F : P.Frames) (f : FrameId) {x y : Run Value}
    (h : P.Carries x y P.value) (c : Cursor) :
    P.Carries (do Run.setLast f (← x); return Flow.next c)
      (do Run.setLast f (← y); return Flow.next c) (Flow.rename P.value) :=
  h.bind fun v => (F.setLast f v).next

/-- Every step carries over, unless it raises a value. -/
theorem Frames.step_of_ne_raise (F : P.Frames) (K : P.Knot e e') (f : FrameId) (c : Cursor) {op : Op}
    (hop : op ≠ .raise) :
    P.Carries (e.step f c op) (e'.step f c op) (Flow.rename P.value) := by
  have C : P.Calls e e' := K.toCalls
  cases op with
  | newString s => exact F.produceNext f (.string s) c rfl
  | newBytes content => exact F.produceNext f (.bytes content) c rfl
  | newInteger n => exact F.produceNext f (.integer n) c rfl
  | newFloat x => exact F.produceNext f (.float x) c rfl
  | getTrue => exact F.produceNext f (.bool true) c rfl
  | getFalse => exact F.produceNext f (.bool false) c rfl
  | getNone => exact F.produceNext f .none c rfl
  | newTuple count => exact (F.popMany f count).bind fun vs => F.produceNext f (.tuple vs) c rfl
  | newArray count => exact (F.popMany f count).bind fun vs => F.produceNext f (.array vs) c rfl
  | newHash count =>
    refine carries_newTable.bind fun owner => ?_
    refine (F.fillHash C f owner count).bind fun _ => ?_
    exact (F.setLast f owner).next
  | push =>
    refine (F.last f).bind fun r => ?_
    cases r with
    | some v => exact (F.push f v).next
    | none => exact carries_newNone.bind fun v => (F.push f v).next
  | unary operator =>
    exact (F.pop f).bind fun operand => F.setLast_of f (C.callSymbol operand _ []) c
  | binary operator =>
    refine (F.pop f).bind fun left => ?_
    exact (F.pop f).bind fun right => F.setLast_of f (C.keep (C.operation operator left right)) c
  | getIdentifier name =>
    refine (F.resolve f name).bind fun r => ?_
    cases r with
    | some v => exact (F.setLast f v).next
    | none => exact (Carries.fail (.undefinedIdentifier name)).next
  | selectName name =>
    refine (F.pop f).bind fun source => ?_
    refine (carries_lookup source name).bind fun r => ?_
    cases r with
    | some v => exact (F.setLast f v).next
    | none => exact (carries_typeName source).bind fun _ => (Carries.fail (.missingSymbol _ name)).next
  | index =>
    refine (F.pop f).bind fun position => ?_
    exact (F.pop f).bind fun source => F.setLast_of f (C.callSymbol source .index [position]) c
  | methodInvocation count =>
    refine (F.pop f).bind fun callee => ?_
    exact (F.popMany f count).bind fun args => F.setLast_of f (C.call callee args) c
  | assignIdentifier name => exact (F.pop f).bind fun v => (F.assign f name v).next
  | assignSelector name =>
    refine (F.pop f).bind fun receiver => ?_
    exact (F.pop f).bind fun v => (carries_setMember receiver name (.value v) nofun).next
  | assignIndex =>
    refine (F.pop f).bind fun position => ?_
    refine (F.pop f).bind fun receiver => ?_
    refine (F.pop f).bind fun element => ?_
    exact (C.callSymbol receiver .assign [position, element]).discard.next
  | jump offset => exact .pure rfl
  | jumpBack offset => exact carries_goBack c offset
  | ifJump offset =>
    refine (F.popCondition C f).bind fun b => .pure ?_
    cases b <;> rfl
  | unlessJump offset =>
    refine (F.popCondition C f).bind fun b => .pure ?_
    cases b <;> rfl
  | ifJumpBack offset =>
    refine (F.popCondition C f).bind fun b => ?_
    cases b with
    | true => exact .pure rfl
    | false => exact carries_goBack c offset
  | unlessJumpBack offset =>
    refine (F.popCondition C f).bind fun b => ?_
    cases b with
    | true => exact carries_goBack c offset
    | false => exact .pure rfl
  | nop => exact .pure rfl
  | redoMark | continueMark | breakMark => exact .fail _
  | loadArguments names => exact (F.loadArguments f names).next
  | newFunction info =>
    refine (F.newFunction f c info).bind fun r => ?_
    obtain ⟨v, after⟩ := r
    cases hname : info.name with
    | some name => exact (F.assign f name v).bind fun _ => (F.setLast f v).next
    | none => exact (F.setLast f v).next
  | newLambda info =>
    refine (F.newFunction f c info).bind fun r => ?_
    exact (F.setLast f r.1).next
  | newMethod info => exact (F.newMethod f c info).nextAt
  | newGenerator info => exact (F.newGenerator C f c info).nextAt
  | newClass info => exact (F.newClass f c info).nextAt
  | newInterface info => exact (F.newClass f c info).nextAt
  | newModule info => exact (F.newModule K f c info).nextAt
  | exit count =>
    exact (F.popMany f count).bind fun vs => (carries_exitValue vs).bind fun _ => .pure rfl
  | raise => exact absurd rfl hop

/-- Every step carries over. -/
theorem Frames.step (F : P.Frames) (K : P.Knot e e') (f : FrameId) (c : Cursor) (op : Op) :
    P.Carries (e.step f c op) (e'.step f c op) (Flow.rename P.value) := by
  by_cases hop : op = .raise
  · subst hop
    exact (F.pop f).bind fun v => .fail (.raised v)
  · exact F.step_of_ne_raise K f c hop

/-! ## Runs -/

/-- Code that runs in the same frame for as many steps carries over when the steps do. -/
theorem Frames.dispatchBy (F : P.Frames) {step step' : Instruction → FrameId → Cursor → Run Flow}
    (hstep : ∀ i f c, P.Carries (step i f c) (step' i f c) (Flow.rename P.value)) (steps : Nat)
    (f : FrameId) (c : Cursor) :
    P.Carries (dispatchBy step steps f c) (dispatchBy step' steps f c) (Flow.rename P.value) := by
  induction steps generalizing c with
  | zero => exact .giveUp
  | succ steps ih =>
    unfold Run.dispatchBy
    split
    · exact .pure rfl
    · rename_i i after _
      refine (F.trace _ i).bind fun _ => ?_
      refine (hstep i f after).bind fun flow => ?_
      cases flow with
      | next c => exact ih c
      | leave v c => exact .pure rfl

theorem Frames.dispatch (F : P.Frames) (K : P.Knot e e') (hplaces : P.Places) (steps : Nat)
    (f : FrameId) (c : Cursor) :
    P.Carries (e.dispatch steps f c) (e'.dispatch steps f c) (Flow.rename P.value) := by
  rw [Engine.dispatch_eq, Engine.dispatch_eq]
  exact F.dispatchBy (fun i f c => .located hplaces i.span (F.step K f c i.op)) steps f c

theorem carries_finish (flow : Flow) :
    P.Carries flow.finish (flow.rename P.value).finish P.ended := by
  cases flow with
  | next c => exact carries_newNone.bind fun _ => .pure rfl
  | leave v c => exact .pure rfl

theorem Frames.run (F : P.Frames) (K : P.Knot e e') (hplaces : P.Places) (f : FrameId) (c : Cursor) :
    P.Carries (e.run f c) (e'.run f c) P.ended := by
  unfold Engine.run
  rw [K.fuel_eq]
  exact (F.dispatch K hplaces e.fuel f c).bind carries_finish

/-- What runs in the global frame carries over when the same frame is the global one on both sides and
machines still correspond after they are brought back to rest. -/
theorem carries_outermost {x y : FrameId → Run (Value × Cursor)}
    (h : ∀ f, P.Carries (x f) (y f) P.ended) (hglobals : ∀ m n, P.rel m n → n.globals = m.globals)
    (hreset : ∀ m n, P.rel m n → P.rel m.reset n.reset) :
    P.Carries (Run.outermost x) (Run.outermost y) P.value := by
  have hafter : ∀ m, ((Run.outermost x).after m).objectCount =
      ((x m.globals).after m).objectCount := by
    intro m
    unfold Run.after Run.outermost
    cases x m.globals m <;> rfl
  constructor
  · intro m
    rw [hafter]
    exact (h m.globals).grows m
  · intro m n hmn _ hroom
    rw [hafter] at hroom
    have hrun := (h m.globals).holds m n hmn trivial hroom
    unfold Run.outermost
    rw [hglobals m n hmn]
    generalize x m.globals m = s at hrun
    generalize y m.globals n = t at hrun
    cases hrun with
    | ok a hmn' => exact .ok a.1 hmn'
    | failed hfg hmn' => exact .failed hfg (hreset _ _ hmn')
    | gaveUp m' n' hstop => exact .gaveUp _ _ hstop
    | unsaid m' _ honeWay => exact .unsaid _ _ honeWay

theorem Frames.execution (F : P.Frames) (K : P.Knot e e') (hplaces : P.Places)
    (hglobals : ∀ m n, P.rel m n → n.globals = m.globals)
    (hreset : ∀ m n, P.rel m n → P.rel m.reset n.reset) (code : Cursor) :
    P.Carries (e.execute code) (e'.execute code) P.value :=
  carries_outermost (fun f => F.run K hplaces f code) hglobals hreset

end Passage
end ScriptVM
