import ScriptVM.Lowering.Statement
import ScriptVM.Proofs.Code.Locality
import ScriptVM.Proofs.Expression.Agreement
import ScriptVM.Proofs.Expression.Correct

/-!
# The meaning of class bodies

What the assignments and method definitions of a class body do to the object under construction, and
what the definition of a class makes, by direct evaluation of the expressions in them. Their code
does the same, and leaves the object at the bottom of the operands.
-/
namespace ScriptVM

open Run

/-! ## Direct meaning -/

/-- The expression whose value an assignment stores. A compound one applies its operator. -/
def assignedExpr (target : Expr) (operator : AssignOp) (value : Expr) (span : Span) : Expr :=
  match operator.binary? with
  | some op => .binary span target op value
  | none => value

/-- The code of a function, from its parameters on. -/
def parameterBody (parameters : List String) (block : Block) (span : Span) : Block :=
  [(Op.loadArguments parameters).at span] ++ block

/-- Assignments and function definitions. In a class body functions are methods. -/
def Node.isDefinition : Node → Bool
  | .assign .. | .function .. => true
  | _ => false

theorem assignCode_eq (target : Expr) (operator : AssignOp) (value : Expr) (span : Span) :
    assignCode target operator value span = (do
      let value' ← (assignedExpr target operator value span).code true
      let store ← targetCode target span
      return value' ++ store) := by
  unfold assignCode assignedExpr
  cases operator.binary? <;> rfl

namespace Engine

/-- Stores a value in the target of an assignment. -/
def storeIn (e : Engine) (id : FrameId) (span : Span) (v : Value) : Expr → Run Unit
  | .identifier _ name => located span (assign id name v)
  | .selector _ receiver name => do
    let receiver ← receiver.eval e id
    located span (modifyHeap fun h => h.setValue receiver name v)
  | .index _ source position => do
    let source ← source.eval e id
    let position ← position.eval e id
    located span (discard (e.callSymbol source .assign [position, v]))
  | _ => giveUp

/-- Gives a method to an object. It closes over the scope of the class. -/
def giveMethod (id : FrameId) (object : Value) (name : String) (arity : Nat) (body : Block) :
    Run Unit := do
  let scope ← methodScope id >>= retain
  modifyHeap fun h => h.setMember object name (.method ⟨some name, arity, .ofList body, scope⟩)

/-- Does what a node of a class body says about the object under construction. Only assignments and
method definitions say something. -/
def perform (e : Engine) (id : FrameId) (object : Value) : Node → Run Unit
  | .assign span target operator value => do
    let v ← (assignedExpr target operator value span).eval e id
    e.storeIn id span v target
  | .function span ⟨name, parameters, body⟩ =>
    match blockCode .inFunction body with
    | .ok block =>
      located span
        (giveMethod id object name parameters.length (parameterBody parameters block span))
    | .error _ => giveUp
  | _ => giveUp

/-- Does what the nodes of a class body say, one after the other. -/
def performAll (e : Engine) (id : FrameId) (object : Value) (nodes : List Node) : Run Unit :=
  nodes.forM (e.perform id object)

theorem performAll_cons (e : Engine) (id : FrameId) (object : Value) (node : Node)
    (rest : List Node) :
    e.performAll id object (node :: rest) = (do
      e.perform id object node
      e.performAll id object rest) := rfl

end Engine

/-- The values of expressions, evaluated in source order. -/
def evalInOrder (e : Engine) (id : FrameId) : List Expr → Run (List Value)
  | [] => return []
  | x :: rest => do
    let first ← x.eval e id
    let later ← evalInOrder e id rest
    return first :: later

/-- Makes a class from its bases and the code of its body, and binds its name. -/
def Engine.makeClass (id : FrameId) (name : String) (bases : List Value) (body : Block) :
    Run Value := do
  expectTypes bases
  let scope ← retain id
  let cls ← newObject (.type (.ofClass ⟨name, bases, .ofList body, scope⟩))
  assign id name cls
  return cls

/-! ## Agreement -/

namespace Likeness

variable {L : Likeness} {F : Frames L} {w : L.World} {e e' : Engine} {id : FrameId}

theorem Calls.storeIn (he : L.Calls e e') (hid : F.runs w id) (span : Span) {v : Value}
    (hv : L.good v) (target : Expr) :
    L.Agree w (e.storeIn id span v target) (e'.storeIn id span v target) fun _ _ => True := by
  cases target with
  | identifier _ name => exact (F.assign name hid hv).located span
  | selector _ receiver name =>
    refine (he.eval receiver hid).bind fun _ r _ _ => ?_
    exact (agree_setMember r name (k := .value v) hv).located span
  | index _ source position =>
    refine (he.eval source hid).bind fun w₁ s hw₁ hs => ?_
    refine (he.eval position (F.runs_mono hw₁ hid)).bind fun _ p _ hp => ?_
    exact ((he.callSymbol hs .assign (by simpa using ⟨hp, hv⟩)).discard).located span
  | _ => exact .giveUp

theorem agree_giveMethod (hid : F.runs w id) (object : Value) (name : String) (arity : Nat)
    (body : Block) :
    L.Agree w (Engine.giveMethod id object name arity body)
      (Engine.giveMethod id object name arity body) fun _ _ => True :=
  (F.retainMethodScope hid).bind fun _ _ _ hscope =>
    agree_setMember object name (F.function_of_scope hscope)

theorem Calls.perform (he : L.Calls e e') (hid : F.runs w id) (object : Value) (node : Node) :
    L.Agree w (e.perform id object node) (e'.perform id object node) fun _ _ => True := by
  cases node with
  | assign span target operator value =>
    refine (he.eval _ hid).bind fun _ v hw hv => ?_
    exact he.storeIn (F.runs_mono hw hid) span hv target
  | function span decl =>
    obtain ⟨name, parameters, body⟩ := decl
    simp only [Engine.perform]
    split
    · exact (agree_giveMethod hid object name _ _).located span
    · exact .giveUp
  | _ => exact .giveUp

theorem Calls.performAll (he : L.Calls e e') (hid : F.runs w id) (object : Value)
    (nodes : List Node) :
    L.Agree w (e.performAll id object nodes) (e'.performAll id object nodes) fun _ _ => True :=
  .forM nodes fun _ node _ hw => he.perform (F.runs_mono hw hid) object node

theorem Calls.evalInOrder (he : L.Calls e e') (xs : List Expr) (hid : F.runs w id) :
    L.Agree w (evalInOrder e id xs) (evalInOrder e' id xs) fun _ vs => ∀ v ∈ vs, L.good v := by
  induction xs generalizing w with
  | nil => exact .pure (by simp)
  | cons x rest ih =>
    simp only [ScriptVM.evalInOrder]
    refine (he.eval x hid).bind fun w₁ first hw₁ hfirst => ?_
    refine (ih (F.runs_mono hw₁ hid)).bind fun _ later _ hlater => .pure ?_
    simpa using ⟨hfirst, hlater⟩

end Likeness

/-! ## Steps in the frame itself -/

section steps

variable {e : Engine} {id : FrameId} {w : CallStack} {right left : Aside} {c c₁ after : Cursor}
  {span : Span} {m n : Machine}

open Engine

/-- The frames of twins are bound to the same things. -/
theorem Twins.frames (h : Twins id w right left m n) :
    ∃ f g, m.arena.get? id = some f ∧ n.arena.get? id = some g ∧ g.parent = f.parent ∧
      g.object = f.object ∧ g.bindsObject = f.bindsObject := by
  obtain ⟨f, hf, -⟩ := h.frame
  obtain ⟨g, hg, -⟩ := h.symm.frame
  have hget := congrArg (fun a => a.get? id) h.arena_eq
  have hforget : g.forget = f.forget := by simpa [Arena.get?_forget, hf, hg] using hget
  obtain ⟨-, -, hparent, hobject, hbinds, -⟩ := Frame.mk.inj hforget
  exact ⟨f, g, hf, hg, hparent, hobject, hbinds⟩

theorem agree_assign_spared (name : String) (v : Value) :
    (Likeness.sparing (some id) left right).Agree w (assign id name v) (assign id name v)
      fun _ _ => True := by
  intro m n h
  obtain ⟨f, g, hf, hg, -, hobject, hbinds⟩ := Twins.frames h
  rw [assign_of_live hf, assign_of_live hg]
  refine ⟨rfl, w, rfl, trivial, ?_⟩
  simp only [Arena.assign, hf, hg, Option.bind_some, hobject, hbinds]
  cases (if f.bindsObject = true then f.object else none) with
  | none =>
    refine h.mapArena (g := fun a => a.modify id fun f => f.define name v)
      (fun {a} _ => Arena.forget_modify (g := fun f => f.define name v) (fun _ => rfl) a id) ?_
    exact fun ha => ha.modify id (fun _ => Nat.le_refl _) (fun _ => rfl) fun _ => rfl
  | some object =>
    rw [h.heap]
    exact h.setHeap (m.heap.extends_setMember ..) fun _ _ => Likeness.soundObject_sparing w _

theorem agree_methodScope_spared :
    (Likeness.sparing (some id) left right).Agree w (methodScope id) (methodScope id)
      fun _ _ => True := by
  intro m n h
  obtain ⟨f, g, hf, hg, hparent, -, hbinds⟩ := Twins.frames h
  have hscope : methodScopeOf id g = methodScopeOf id f := by
    simp only [methodScopeOf, hparent, hbinds]
  rw [methodScope_of_live hf, methodScope_of_live hg, hscope]
  exact ⟨rfl, w, rfl, trivial, h⟩

theorem Tracks.top {α δ : Type} {v : Value} {rest : List Value} {last : Option Value}
    {K : Value → Run δ} {x : Run α} {R : δ → α → Aside → Prop}
    (h : Tracks id w right ⟨v :: rest, last⟩ (K v) x R) :
    Tracks id w right ⟨v :: rest, last⟩ (Run.top id >>= K) x R := by
  refine Tracks.work (fun m n hmn => ?_) h
  obtain ⟨f, hf, -, hstack, -⟩ := hmn.frame
  exact ⟨m, Run.top_of_cons hf hstack, hmn⟩

theorem agree_giveMethod_spared (object : Value) (name : String) (arity : Nat) (body : Block) :
    (Likeness.sparing (some id) left right).Agree w (giveMethod id object name arity body)
      (giveMethod id object name arity body) fun _ _ => True := by
  have hscope : (Likeness.sparing (some id) left right).Agree w (methodScope id >>= retain)
      (methodScope id >>= retain) fun _ _ => True :=
    agree_methodScope_spared.bind fun _ scope _ _ => Likeness.agree_retain scope
  exact hscope.bind fun _ _ _ _ => Likeness.agree_setMember object name trivial

theorem tracks_newMethod {object : Value} {rest : List Value} {last : Option Value}
    {body : Block} (hbody : c₁.At body) (hne : body ≠ []) (name : String) (arity : Nat) :
    Tracks id w right ⟨object :: rest, last⟩
      (e.step id c₁ (.newMethod ⟨some name, body.length, arity⟩))
      (giveMethod id object name arity body) fun flow _ left' =>
        ∃ c', flow = .next c' ∧ c' = c₁.skip body.length ∧ left' = ⟨object :: rest, last⟩ := by
  have hstep : e.step id c₁ (.newMethod ⟨some name, body.length, arity⟩) = (do
      let target ← Run.top id
      giveMethod id target name arity body
      return Flow.next (c₁.skip body.length)) := by
    simp only [Engine.step, Engine.newMethod, giveMethod, hbody.cut hne, bind_assoc, pure_bind]
    rfl
  rw [hstep]
  refine .top (.self (fun _ _ => agree_giveMethod_spared object name arity body) fun _ => ?_)
  exact .pure ⟨_, rfl, rfl, rfl⟩

theorem tracks_assignIdentifier (v : Value) (rest : List Value) (last : Option Value)
    (name : String) :
    Tracks id w right ⟨v :: rest, last⟩ (e.step id c₁ (.assignIdentifier name))
      (assign id name v) fun flow _ left' =>
        ∃ c', flow = .next c' ∧ c' = c₁ ∧ left' = ⟨rest, last⟩ :=
  .pop (.self (fun _ _ => agree_assign_spared name v) fun _ => .pure ⟨_, rfl, rfl, rfl⟩)

theorem tracks_assignSelector (receiver v : Value) (rest : List Value) (last : Option Value)
    (name : String) :
    Tracks id w right ⟨receiver :: v :: rest, last⟩ (e.step id c₁ (.assignSelector name))
      (modifyHeap fun h => h.setValue receiver name v) fun flow _ left' =>
        ∃ c', flow = .next c' ∧ c' = c₁ ∧ left' = ⟨rest, last⟩ :=
  .pop (.pop (.self (fun _ _ => Likeness.agree_setMember receiver name (k := .value v) trivial)
    fun _ => .pure ⟨_, rfl, rfl, rfl⟩))

variable (he : ∀ left right, (Likeness.sparing (some id) left right).Calls e e)

include he

theorem tracks_assignIndex (position source v : Value) (rest : List Value) (last : Option Value) :
    Tracks id w right ⟨position :: source :: v :: rest, last⟩ (e.step id c₁ .assignIndex)
      (discard (e.callSymbol source .assign [position, v])) fun flow _ left' =>
        ∃ c', flow = .next c' ∧ c' = c₁ ∧ left' = ⟨rest, last⟩ :=
  .pop (.pop (.pop (.self (fun left right =>
    ((he left right).callSymbol trivial _ fun _ _ => trivial).discard)
    fun _ => .pure ⟨_, rfl, rfl, rfl⟩)))

/-! ## Assignments and methods -/

/-- The code leaves the operands as they were. -/
def Restores (left : Aside) (c₁ : Cursor) (_ : Unit) (c : Cursor) (left' : Aside) : Prop :=
  c = c₁ ∧ left'.stack = left.stack

/-- The code that stores the value on top of the operands. -/
theorem computes_storeIn {target : Expr} {code : Block} (hcode : targetCode target span = .ok code)
    (hat : c.At code) (hfits : c.length ≤ Text.maxCount) (v : Value) (last : Option Value) :
    Computes e id w right c ⟨v :: left.stack, last⟩ (e.storeIn id span v target)
      (Restores left (c.skip code.length)) := by
  cases target with
  | identifier _ name =>
    cases hcode
    refine Computes.step hat.next? ((tracks_assignIdentifier v left.stack last name).mono ?_)
    rintro _ _ _ ⟨c', rfl, rfl, rfl⟩
    exact ⟨_, rfl, rfl, rfl⟩
  | selector _ receiver name =>
    simp only [targetCode] at hcode
    obtain ⟨receiver', hreceiver, hcode⟩ := bind_eq_ok hcode
    cases hcode
    obtain ⟨hat, hop⟩ := Cursor.at_append.1 hat
    rw [List.length_append, ← Cursor.skip_skip]
    refine (Expr.computes he receiver hreceiver hat hfits).bind ?_
    rintro r c₁ left₁ ⟨rfl, rfl⟩
    refine Computes.step hop.next? ((tracks_assignSelector r v left.stack (some r) name).mono ?_)
    rintro _ _ _ ⟨c', rfl, rfl, rfl⟩
    exact ⟨_, rfl, rfl, rfl⟩
  | index _ source position =>
    simp only [targetCode] at hcode
    obtain ⟨source', hsource, hcode⟩ := bind_eq_ok hcode
    obtain ⟨position', hposition, hcode⟩ := bind_eq_ok hcode
    cases hcode
    obtain ⟨hat, hop⟩ := Cursor.at_append.1 hat
    obtain ⟨hat, hat'⟩ := Cursor.at_append.1 hat
    rw [List.length_append, List.length_append, ← Cursor.skip_skip, ← Cursor.skip_skip]
    rw [List.length_append, ← Cursor.skip_skip] at hop
    refine (Expr.computes he source hsource hat hfits).bind ?_
    rintro s c₁ left₁ ⟨rfl, rfl⟩
    refine (Expr.computes he position hposition hat' hfits).bind ?_
    rintro p c₂ left₂ ⟨rfl, rfl⟩
    refine Computes.step hop.next? ((tracks_assignIndex he p s v left.stack (some p)).mono ?_)
    rintro _ _ _ ⟨c', rfl, rfl, rfl⟩
    exact ⟨_, rfl, rfl, rfl⟩
  | _ => cases hcode

/-- The code of an assignment or of a method definition. -/
theorem computes_perform {node : Node} {code : Block} {object : Value} {rest : List Value}
    (hdefines : node.isDefinition = true) (hcode : node.code .inClassBody = .ok code)
    (hat : c.At code) (hfits : c.length ≤ Text.maxCount) (hleft : left.stack = object :: rest) :
    Computes e id w right c left (e.perform id object node)
      (Restores left (c.skip code.length)) := by
  cases node with
  | assign span target operator value =>
    simp only [Node.code] at hcode
    rw [assignCode_eq] at hcode
    obtain ⟨value', hvalue, hcode⟩ := bind_eq_ok hcode
    obtain ⟨store, hstore, hcode⟩ := bind_eq_ok hcode
    cases hcode
    obtain ⟨hat, hat'⟩ := Cursor.at_append.1 hat
    rw [List.length_append, ← Cursor.skip_skip]
    refine (Expr.computes he _ hvalue hat hfits).bind ?_
    rintro v c₁ left₁ ⟨rfl, rfl⟩
    exact computes_storeIn he hstore hat' hfits v (some v)
  | function span decl =>
    obtain ⟨name, parameters, body⟩ := decl
    simp only [Node.code, declCode] at hcode
    obtain ⟨block, hblock, hcode⟩ := bind_eq_ok hcode
    cases hcode
    obtain ⟨hop, hbody⟩ := Cursor.at_append.1 hat
    simp only [Engine.perform, hblock]
    obtain ⟨stack, last⟩ := left
    cases hleft
    refine Computes.step hop.next?
      ((tracks_newMethod hbody (by simp) name parameters.length).mono ?_)
    rintro _ _ _ ⟨c', rfl, rfl, rfl⟩
    refine ⟨_, rfl, ?_, rfl⟩
    simp [functionCode, Nat.add_comm]
  | _ => cases hdefines

/-- The code of a class body that is made of assignments and method definitions. -/
theorem computes_performAll {object : Value} {rest : List Value} : ∀ (nodes : List Node)
    {code : Block} {c : Cursor} {left : Aside}, (∀ node ∈ nodes, node.isDefinition = true) →
    blockCode .inClassBody nodes = .ok code → c.At code → c.length ≤ Text.maxCount →
    left.stack = object :: rest →
    Computes e id w right c left (e.performAll id object nodes) (Restores left (c.skip code.length))
  | [], code, c, left, _, hcode, _, _, _ => by
    cases hcode
    exact .pure ⟨rfl, rfl⟩
  | node :: nodes, code, c, left, hdefines, hcode, hat, hfits, hleft => by
    simp only [blockCode] at hcode
    obtain ⟨first, hfirst, hcode⟩ := bind_eq_ok hcode
    obtain ⟨later, hlater, hcode⟩ := bind_eq_ok hcode
    cases hcode
    obtain ⟨hat, hat'⟩ := Cursor.at_append.1 hat
    rw [List.length_append, ← Cursor.skip_skip, performAll_cons]
    refine (computes_perform he (hdefines node (.head _)) hfirst hat hfits hleft).bind ?_
    rintro _ c₁ left₁ ⟨rfl, hleft₁⟩
    refine (computes_performAll nodes (fun other hother => hdefines other (.tail _ hother)) hlater
      hat' hfits (hleft₁.trans hleft)).andThen ?_
    rintro _ c₂ left₂ ⟨rfl, hleft₂⟩
    exact .pure ⟨rfl, hleft₂.trans hleft₁⟩

/-! ## Class definitions -/

/-- The code of bases computes them in source order, and leaves the last one on top. -/
theorem computes_bases : ∀ (xs : List Expr) {code : Block} {c : Cursor} {left : Aside},
    basesCode xs = .ok code → c.At code → c.length ≤ Text.maxCount →
    Computes e id w right c left (evalInOrder e id xs) fun vs c' left' =>
      c' = c.skip code.length ∧ vs.length = xs.length ∧ left'.stack = vs.reverse ++ left.stack
  | [], code, c, left, hcode, _, _ => by
    cases hcode
    exact .pure ⟨rfl, rfl, rfl⟩
  | x :: rest, code, c, left, hcode, hat, hfits => by
    simp only [basesCode] at hcode
    obtain ⟨first, hfirst, hcode⟩ := bind_eq_ok hcode
    obtain ⟨later, hlater, hcode⟩ := bind_eq_ok hcode
    cases hcode
    obtain ⟨hat, hat'⟩ := Cursor.at_append.1 hat
    simp only [List.length_append, ← Cursor.skip_skip]
    refine (Expr.computes he x hfirst hat hfits).bind ?_
    rintro v c₁ left₁ ⟨rfl, rfl⟩
    refine (computes_bases rest hlater hat' hfits).bind ?_
    rintro vs c₂ left₂ ⟨rfl, hcount, hstack⟩
    exact .pure ⟨rfl, by simp [hcount], by simp [hstack, Aside.produced]⟩

omit he

theorem tracks_newClass {values : List Value} {rest : List Value} {last : Option Value}
    {body : Block} (hbody : c₁.At body) (hinside : c₁.index + body.length ≤ c₁.length)
    (name : String) :
    Tracks id w right ⟨values.reverse ++ rest, last⟩
      (e.step id c₁ (.newClass ⟨name, body.length, values.length⟩))
      (makeClass id name values body) fun flow v left' =>
        ∃ c', flow = .next c' ∧ c' = c₁.skip body.length ∧ left' = ⟨rest, some v⟩ := by
  simp only [Engine.step, Engine.newClass, makeClass, Cursor.cut_of_at hbody hinside, bind_assoc,
    pure_bind]
  refine .popMany (by simp) ?_
  rw [List.reverse_reverse]
  refine .then (fun _ _ => Likeness.agree_expectTypes fun _ _ => trivial) fun _ => ?_
  refine .then (fun _ _ => Likeness.agree_retain id) fun scope => ?_
  refine .then (fun _ _ => Likeness.agree_newObject (Likeness.soundKind_sparing _ _)) fun cls => ?_
  refine .then (fun _ _ => agree_assign_spared name cls) fun _ => ?_
  exact .setLast (.pure ⟨_, rfl, rfl, rfl⟩)

include he

/-- The code of a class definition makes the class from its bases, which it evaluates in source
order. -/
theorem computes_classDef {name : String} {bases : List Expr} {body : List Node}
    {code block : Block} {s : Surroundings}
    (hcode : (Node.classDef span name bases body).code s = .ok code)
    (hblock : blockCode .inClassBody body = .ok block) (hat : c.At code)
    (hfits : c.length ≤ Text.maxCount) :
    Computes e id w right c left
      (do located span (makeClass id name (← evalInOrder e id bases) block))
      fun v c' left' => c' = c.skip code.length ∧ left' = ⟨left.stack, some v⟩ := by
  simp only [Node.code, hblock] at hcode
  obtain ⟨bases', hbases, hcode⟩ := bind_eq_ok hcode
  cases hcode
  have hinside := hat.index_add_length_le (by simp)
  obtain ⟨hat, hbody⟩ := Cursor.at_append.1 hat
  obtain ⟨hat, hop⟩ := Cursor.at_append.1 hat
  simp only [List.length_append, List.length_singleton, ← Cursor.skip_skip] at hbody hinside ⊢
  refine (computes_bases he bases hbases hat hfits).bind ?_
  rintro values c₁ ⟨stack, last⟩ ⟨rfl, hcount, hstack⟩
  cases hstack
  rw [← hcount] at hop
  refine Computes.step hop.next? ((tracks_newClass hbody ?_ name).mono ?_)
  · simp only [Cursor.index_skip, Cursor.toView_skip]
    omega
  · rintro _ _ _ ⟨c', rfl, rfl, rfl⟩
    exact ⟨_, rfl, rfl, rfl⟩

end steps
end ScriptVM
