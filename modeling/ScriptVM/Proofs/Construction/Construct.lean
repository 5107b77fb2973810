import ScriptVM.Proofs.Construction.Members

/-!
# Construction

Making an instance of a class runs the bodies of its bases and its own on one new object. Each body
has a frame of its own, in which assignments to names and method definitions go to the object; so
the object ends up with what was given to it last under each name.
-/
namespace ScriptVM

open Run

/-! ## Bodies -/

/-- The body of a class consists of assignments and method definitions. -/
structure ClassDef.Defines (c : ClassDef) (nodes : List Node) : Prop where
  definitions : ∀ node ∈ nodes, node.isDefinition = true
  code : ∃ code, blockCode .inClassBody nodes = .ok code ∧ code.length ≤ Text.maxCount ∧
    c.body = .ofList code

namespace Machine

variable {m : Machine} {c : ClassDef} {object : Value}

/-- The frame that is made next. -/
def nextFrame (m : Machine) : FrameId := ⟨m.arena.frames.size⟩

/-- The machine in which the body of a class starts to run on an object, in a frame of its own that
is bound to the object. The object is the only operand. -/
def openBody (m : Machine) (c : ClassDef) (object : Value) : Machine :=
  { m with
    arena := ((m.arena.alloc (some c.scope) (some object) true).2.modify m.nextFrame
      fun f => f.define selfName object).modify m.nextFrame
      fun f => { f with stack := [object] ++ f.stack }
    callStack := m.callStack.push m.nextFrame }

theorem size_frames_openBody (m : Machine) (c : ClassDef) (object : Value) :
    (m.openBody c object).arena.frames.size = m.arena.frames.size + 1 := by
  simp [openBody]

theorem frame_openBody (m : Machine) (c : ClassDef) (object : Value) :
    ∃ f, (m.openBody c object).arena.get? m.nextFrame = some f ∧ f.stack = [object] ∧
      f.object = some object ∧ f.bindsObject = true ∧ 0 < f.active := by
  simp only [openBody, nextFrame, Arena.get?_modify_self, Arena.get?_alloc_self, Option.map_some]
  exact ⟨_, rfl, rfl, rfl, rfl, Nat.one_pos⟩

theorem Housed.reserves (hm : m.Housed) {id : FrameId} {f : Frame}
    (hf : m.arena.get? id = some f) (hplain : ¬ m.IsGeneratorFrame id)
    (hobject : f.object = some object) (hbinds : f.bindsObject = true) : m.Reserves id object := by
  have halike := hm.reserve hf hplain
  rw [hobject, hbinds] at halike
  exact ⟨_, _, halike⟩

/-- No generator has the frame of a body that is about to start. -/
theorem Housed.openBody (hm : m.Housed) (c : ClassDef) (object : Value) :
    (m.openBody c object).Housed ∧ ¬ (m.openBody c object).IsGeneratorFrame m.nextFrame := by
  refine ⟨fun v g hg id hid => ?_, fun ⟨v, g, hg, hid⟩ => ?_⟩
  · rw [size_frames_openBody]
    exact Nat.lt_succ_of_lt (hm v g hg id hid)
  · exact Nat.lt_irrefl _ (hm v g hg _ hid)

end Machine

namespace Engine

variable {m m' : Machine} {c : ClassDef} {object : Value} {fuel : Nat} {digests : Digests}

theorem activation_eq_ok {α : Type} {id : FrameId} {body : Run α} {a : α}
    (h : activation id body m = .ok a m') :
    ∃ k, body { m with callStack := m.callStack.push id } = .ok a k ∧ m' = k.unwindTo m.depth := by
  unfold activation at h
  dsimp only at h
  split at h
  · cases h
  · cases hbody : body { m with callStack := m.callStack.push id } with
    | ok b k =>
      rw [hbody] at h
      cases h
      exact ⟨k, rfl, rfl⟩
    | error stop k =>
      rw [hbody] at h
      cases h

/-- Running the body of a class is running its code in a new frame. -/
theorem runIn_eq {e : Engine} (hplain : e.tracks = false) :
    e.runIn c.scope (some object) true object [object] c.body m =
      (do return (← e.enter m.nextFrame (.ofView c.body)).1)
        { m.openBody c object with callStack := m.callStack } := by
  let made : Machine := { m with arena := (m.arena.alloc (some c.scope) (some object) true).2 }
  have hnew : Run.newFrame (some c.scope) (some object) true m = .ok m.nextFrame made := by
    rw [Run.newFrame, modifyGet_apply, Arena.alloc_fst]
    rfl
  obtain ⟨f, hf⟩ : ∃ f, made.arena.get? m.nextFrame = some f := ⟨_, Arena.get?_alloc_self ..⟩
  let defined := made.modifyFrame m.nextFrame fun f => f.define selfName object
  have hdefine : define m.nextFrame selfName object made = .ok () defined :=
    modifyFrame_of_live hf _
  have hf' : defined.arena.get? m.nextFrame = some (f.define selfName object) := by
    change (made.arena.modify m.nextFrame _).get? m.nextFrame = _
    rw [Arena.get?_modify_self, hf, Option.map_some]
  have hpush : pushAll m.nextFrame [object] defined =
      .ok () (defined.modifyFrame m.nextFrame fun f => { f with stack := [object] ++ f.stack }) :=
    modifyFrame_of_live hf' _
  rw [runIn_of_plain hplain, bind_of_ok hnew, bind_of_ok hdefine, bind_of_ok hpush]
  rfl

theorem run_of_runClassBody (hrun : (withFuel (fuel + 1) digests).runClassBody c object m = .ok () m') :
    ∃ r k, (withFuel fuel digests).run m.nextFrame (.ofView c.body) (m.openBody c object) = .ok r k ∧
      m'.heap = k.heap := by
  obtain ⟨_, _, hbody, hrest⟩ := Run.bind_eq_ok hrun
  cases hrest
  rw [runIn_eq (tracks_withFuel ..)] at hbody
  obtain ⟨r, _, henter, hrest⟩ := Run.bind_eq_ok hbody
  cases hrest
  obtain ⟨k, hran, rfl⟩ := activation_eq_ok henter
  exact ⟨r, k, hran, rfl⟩

/-- Where the body of a class consists of definitions, these are performed. -/
theorem performAll_of_runClassBody {nodes : List Node} (hm : m.Housed) (hc : c.Defines nodes)
    (hrun : (withFuel (fuel + 1) digests).runClassBody c object m = .ok () m') :
    ∃ k, (withFuel fuel digests).performAll m.nextFrame object nodes (m.openBody c object) = .ok () k ∧
      m'.heap = (k.heap.alloc .none).2 := by
  obtain ⟨code, hcode, hfits, hbody⟩ := hc.code
  obtain ⟨r, k, hrun, hheap⟩ := run_of_runClassBody hrun
  rw [hbody] at hrun
  obtain ⟨flow, k₀, hdispatch, hfinish⟩ := Run.bind_eq_ok hrun
  obtain ⟨hhoused, hplain⟩ := hm.openBody c object
  obtain ⟨f, hf, hstack, -, -, hactive⟩ := m.frame_openBody c object
  have hfits' : (Cursor.ofList code).length ≤ Text.maxCount := by
    simpa [Cursor.ofList, Cursor.ofView] using hfits
  obtain ⟨_, n, left, hperform, -, rfl, htwins⟩ := hhoused.computes hf hactive hplain
    (computes_performAll (sparing_calls digests (some m.nextFrame) fuel) nodes hc.definitions hcode
      (Cursor.at_ofList code) hfits' hstack)
    (fun _ _ _ h => h.1) hdispatch
  refine ⟨n, ?_, ?_⟩
  · rw [eq_of_sparing_calls (x := fun e => e.performAll m.nextFrame object nodes)
      (fun he => ⟨_, he.performAll (F := Likeness.sameFrames) trivial object nodes⟩)
      (by rw [hperform]; rfl), hperform]
  · cases hfinish
    rw [hheap, htwins.heap]
    rfl

/-! ## Bodies in turn -/

/-- Bodies run in turn on an object, and give it one thing after the other. -/
inductive Builds (digests : Digests) (fuel : Nat) (object : Value) (nodes : ClassDef → List Node) :
    List ClassDef → Machine → List Gift → Machine → Prop
  | nil {m : Machine} : Builds digests fuel object nodes [] m [] m
  | cons {c : ClassDef} {order : List ClassDef} {m k m₁ m' : Machine} {gifts later : List Gift}
      (hgifts : (withFuel fuel digests).Gifts m.nextFrame object (nodes c)
        (m.openBody c object) gifts k)
      (hrun : (withFuel (fuel + 1) digests).runClassBody c object m = .ok () m₁)
      (hrest : Builds digests fuel object nodes order m₁ later m') :
      Builds digests fuel object nodes (c :: order) m (gifts ++ later) m'

theorem housed_runClassBody (hm : m.Housed)
    (hrun : (withFuel fuel digests).runClassBody c object m = .ok () m') : m'.Housed :=
  hm.endsIn ((unreserved_knot fuel).bodies.classBody trivial trivial) (.ok hrun)

theorem own?_alloc_of_lt {h : Heap} {v : Value} (hlt : v.address < h.objects.size) (kind : Kind)
    (name : String) : (h.alloc kind).2.own? v name = h.own? v name := by
  rw [Heap.own?, Heap.own?, Heap.get_alloc_of_lt kind hlt]

theorem extends_performAll {id : FrameId} {nodes : List Node}
    (hrun : (withFuel fuel digests).performAll id object nodes m = .ok () m') :
      m.heap.Extends m'.heap :=
  ((Likeness.growing_knot m.heap False fuel).toCalls.performAll
    (F := Likeness.growingFrames m.heap False) (w := ()) trivial object nodes).extends hrun

/-- What a body does to the members of the object is to give one thing after the other. -/
theorem exists_gifts_of_runClassBody {nodes : List Node} (hm : m.Housed) (hc : c.Defines nodes)
    (hlt : object.address < m.heap.objects.size)
    (hrun : (withFuel (fuel + 1) digests).runClassBody c object m = .ok () m') :
    ∃ gifts k, (withFuel fuel digests).Gifts m.nextFrame object nodes (m.openBody c object) gifts k ∧
      Gift.Leads object (m.heap.own? object) gifts (m'.heap.own? object) := by
  obtain ⟨k, hperform, hheap⟩ := performAll_of_runClassBody hm hc hrun
  obtain ⟨hhoused, hplain⟩ := hm.openBody c object
  obtain ⟨f, hf, -, hobject, hbinds, -⟩ := m.frame_openBody c object
  obtain ⟨gifts, hgifts, hleads⟩ :=
    exists_gifts hperform (hhoused.reserves hf hplain hobject hbinds) hlt
  have hlt' : object.address < k.heap.objects.size :=
    Nat.lt_of_lt_of_le hlt (extends_performAll hperform).size
  have hown : m'.heap.own? object = k.heap.own? object := by
    funext name
    rw [hheap, own?_alloc_of_lt hlt']
  exact ⟨gifts, k, hgifts, hown ▸ hleads⟩

theorem exists_builds {nodes : ClassDef → List Node} {order : List ClassDef} (hm : m.Housed)
    (hdefines : ∀ c ∈ order, c.Defines (nodes c)) (hlt : object.address < m.heap.objects.size)
    (hrun : (withFuel (fuel + 1) digests).runBodies order object m = .ok () m') :
    ∃ gifts, Builds digests fuel object nodes order m gifts m' ∧
      Gift.Leads object (m.heap.own? object) gifts (m'.heap.own? object) := by
  induction order generalizing m with
  | nil =>
    cases hrun
    exact ⟨[], .nil, .nil⟩
  | cons c order ih =>
    rw [runBodies_cons] at hrun
    obtain ⟨_, m₁, hfirst, hrest⟩ := Run.bind_eq_ok hrun
    obtain ⟨gifts, k, hgifts, hleads⟩ :=
      exists_gifts_of_runClassBody hm (hdefines c (.head _)) hlt hfirst
    obtain ⟨later, hbuilds, hlater⟩ := ih (housed_runClassBody hm hfirst)
      (fun d hd => hdefines d (.tail _ hd))
      (Nat.lt_of_lt_of_le hlt (extends_runClassBody hfirst).size) hrest
    exact ⟨gifts ++ later, .cons hgifts hfirst hbuilds, hleads.append hlater⟩

/-! ## Classes -/

theorem kind_of_makeClass {id : FrameId} {name : String} {bases : List Value} {body : Block}
    {cls : Value} (hrun : makeClass id name bases body m = .ok cls m') :
    m'.heap.kind cls = .type (.ofClass ⟨name, bases, .ofList body, id⟩) := by
  obtain ⟨_, k, -, hrun⟩ := Run.bind_eq_ok hrun
  obtain ⟨scope, k₁, hretain, hrun⟩ := Run.bind_eq_ok hrun
  obtain ⟨made, k₂, hnew, hrun⟩ := Run.bind_eq_ok hrun
  obtain ⟨_, k₃, hassign, hrun⟩ := Run.bind_eq_ok hrun
  cases hrun
  obtain rfl : scope = id := by
    obtain ⟨_, _, -, hretain⟩ := Run.bind_eq_ok hretain
    cases hretain
    rfl
  cases hnew
  have hgrown := ((Likeness.growingFrames _ False).assign (w := ()) name trivial
    (v := (k₁.heap.alloc (.type (.ofClass ⟨name, bases, .ofList body, scope⟩))).1)
    trivial).extends hassign
  exact hgrown.keepsTypes _ _ (k₁.heap.kind_alloc _)

/-- The code of a class definition makes a class whose bases are the values of the expressions, in
source order. -/
theorem classDef_of_dispatch {span : Span} {name : String} {bases : List Expr} {body : List Node}
    {s : Surroundings} {code : Block} {id : FrameId} {f : Frame} {steps : Nat} {flow : Flow}
    (hm : m.Housed) (hcode : (Node.classDef span name bases body).code s = .ok code)
    (hfits : code.length ≤ Text.maxCount) (hf : m.arena.get? id = some f) (hactive : 0 < f.active)
    (hplain : ¬ m.IsGeneratorFrame id)
    (hrun : (withFuel fuel digests).dispatch steps id (.ofList code) m = .ok flow m') :
    ∃ values k block cls, evalInOrder (withFuel fuel digests) id bases m = .ok values k ∧
      blockCode .inClassBody body = .ok block ∧ m'.HasOperands id f.stack (some cls) ∧
      m'.heap.kind cls = .type (.ofClass ⟨name, values, .ofList block, id⟩) := by
  obtain ⟨block, hblock⟩ : ∃ block, blockCode .inClassBody body = .ok block := by
    simp only [Node.code] at hcode
    obtain ⟨_, -, hcode⟩ := ScriptVM.bind_eq_ok hcode
    obtain ⟨block, hblock, -⟩ := ScriptVM.bind_eq_ok hcode
    exact ⟨block, hblock⟩
  have hfits' : (Cursor.ofList code).length ≤ Text.maxCount := by
    simpa [Cursor.ofList, Cursor.ofView] using hfits
  obtain ⟨cls, n, left, hmake, ⟨-, rfl⟩, -, htwins⟩ := hm.computes hf hactive hplain
    (computes_classDef (sparing_calls digests (some id) fuel) hcode hblock
      (Cursor.at_ofList code) hfits')
    (fun _ _ _ h => h.1) hrun
  obtain ⟨values, k, hvalues, hmake⟩ := Run.bind_eq_ok hmake
  obtain ⟨g, hg, -, hstack, hlast⟩ := htwins.frame
  refine ⟨values, k, block, cls, ?_, hblock, ⟨g, hg, hstack, hlast⟩, ?_⟩
  · rw [eq_of_sparing_calls (x := fun e => evalInOrder e id bases)
      (fun he => ⟨_, he.evalInOrder (F := Likeness.sameFrames) bases trivial⟩)
      (by rw [hvalues]; rfl), hvalues]
  · have hkind := kind_of_makeClass (located_eq_ok hmake)
    rwa [htwins.heap] at hkind

/-! ## Construction -/

/-- When a body fails, so do bodies in turn, and no later one runs. -/
theorem runBodies_of_failure {before after : List ClassDef} {d : ClassDef} {n k : Machine}
    {stop : Stop}
    (hbefore : (withFuel fuel digests).runBodies before object m = .ok () n)
    (hrun : (withFuel fuel digests).runClassBody d object n = .error stop k) :
    (withFuel fuel digests).runBodies (before ++ d :: after) object m = .error stop k := by
  rw [runBodies_append, bind_of_ok hbefore, runBodies_cons, bind_of_error hrun]

/-- On a new object there is nothing under a name that no gift touches. Otherwise there is what the
last gift that touches it leaves. -/
theorem own?_of_gifts {gifts : List Gift}
    (hleads : Gift.Leads object (fun _ => none) gifts (m'.heap.own? object)) (name : String) :
    ((∀ g ∈ gifts, g.Spares object name) → m'.heap.own? object name = none) ∧
    ∀ earlier g later, gifts = earlier ++ g :: later → (∀ g ∈ later, g.Spares object name) →
      m'.heap.own? object name = (g.after object).own? object name ∧
      ∀ member, g.given = some (name, member) → m'.heap.own? object name = some member := by
  refine ⟨fun hspared => hleads.spared hspared, ?_⟩
  rintro earlier g later rfl hspared
  obtain ⟨hfits, hlast⟩ := hleads.last hspared
  exact ⟨hlast, fun member hgiven => hlast.trans (Gift.own?_after_of_given hfits hgiven)⟩

/-- The bases of a class are the values of the expressions in its definition, in source order. There
is exactly one order of bodies, in which those of the bases come first and that of the class itself
comes last; they run in it on one new object. When a body fails, construction fails like it, on the
machine that it has left behind. Where all bodies consist of assignments and method definitions,
these give the object one thing after the other, and what was given last under a name is what the
object has under it. -/
theorem construct_in_order (hm : m.Founded) :
    (∀ {span name bases body s code id f fuel steps flow m'},
      (Node.classDef span name bases body).code s = .ok code → code.length ≤ Text.maxCount →
      m.arena.get? id = some f → 0 < f.active → ¬ m.IsGeneratorFrame id →
      (withFuel fuel digests).dispatch steps id (.ofList code) m = .ok flow m' →
      ∃ values k block cls, evalInOrder (withFuel fuel digests) id bases m = .ok values k ∧
        blockCode .inClassBody body = .ok block ∧ m'.HasOperands id f.stack (some cls) ∧
        m'.heap.kind cls = .type (.ofClass ⟨name, values, .ofList block, id⟩)) ∧
    ∀ {cls c}, m.heap.kind cls = .type (.ofClass c) → ∃ first order object start,
      m.heap.Layers c.bases first ∧ order = first ++ [c] ∧
      (∀ order', m.heap.Layers [cls] order' ↔ order' = order) ∧
      newObject (.object cls) m = .ok object start ∧
      ∀ fuel, cls.address ≤ fuel →
        (withFuel (fuel + 1) digests).construct cls m = (do
          (withFuel (fuel + 1) digests).runBodies order object
          return object) start ∧
        (∀ {before d after n stop k}, order = before ++ d :: after →
          (withFuel (fuel + 1) digests).runBodies before object start = .ok () n →
          (withFuel (fuel + 1) digests).runClassBody d object n = .error stop k →
          (withFuel (fuel + 1) digests).construct cls m = .error stop k) ∧
        ∀ {nodes made m'}, (∀ d ∈ order, d.Defines (nodes d)) →
          (withFuel (fuel + 1) digests).construct cls m = .ok made m' → made = object ∧
          ∃ gifts, Builds digests fuel object nodes order start gifts m' ∧ ∀ name,
            ((∀ g ∈ gifts, g.Spares object name) → m'.heap.own? object name = none) ∧
            ∀ earlier g later, gifts = earlier ++ g :: later →
              (∀ g ∈ later, g.Spares object name) →
              m'.heap.own? object name = (g.after object).own? object name ∧
              ∀ member, g.given = some (name, member) →
                m'.heap.own? object name = some member := by
  refine ⟨fun hcode hfits hf hactive hplain hrun =>
    classDef_of_dispatch hm.housed hcode hfits hf hactive hplain hrun, fun {cls c} hkind => ?_⟩
  obtain ⟨order, hl⟩ := hm.grounded.exists_layers hkind
  obtain ⟨first, hfirst, horder⟩ := hl.of_class hkind
  let object := (m.heap.alloc (.object cls)).1
  let start : Machine := { m with heap := (m.heap.alloc (.object cls)).2 }
  refine ⟨first, order, object, start, hfirst, horder, fun order' => ⟨hl.unique, ?_⟩, rfl,
    fun fuel hfuel => ?_⟩
  · rintro rfl
    exact hl
  have hconstruct : (withFuel (fuel + 1) digests).construct cls m = (do
      (withFuel (fuel + 1) digests).runBodies order object
      return object) start :=
    construct_eq hm.grounded hkind hl (Nat.lt_succ_of_le hfuel)
  refine ⟨hconstruct, ?_, ?_⟩
  · rintro before d after n stop k hsplit hbefore hrun
    rw [hconstruct, hsplit, bind_of_error (runBodies_of_failure hbefore hrun)]
  · intro nodes made m' hdefines hmade
    rw [hconstruct] at hmade
    obtain ⟨_, k, hrun, hmade⟩ := Run.bind_eq_ok hmade
    cases hmade
    have hhoused : start.Housed :=
      hm.housed.endsIn (Likeness.agree_newObject (k := .object cls) trivial) (.ok rfl)
    have hlt : object.address < start.heap.objects.size :=
      Nat.lt_of_lt_of_eq (Nat.lt_succ_self _) (m.heap.size_alloc _).symm
    obtain ⟨gifts, hbuilds, hleads⟩ := exists_builds hhoused hdefines hlt hrun
    have hnew : start.heap.own? object = fun _ => none := by
      funext name
      rw [Heap.own?, Heap.get_alloc]
      rfl
    rw [hnew] at hleads
    exact ⟨rfl, gifts, hbuilds, own?_of_gifts hleads⟩

/-! ## A base twice -/

/-- The body of a class of two names. -/
def pairBody : List Node :=
  [.assign ⟨some 2⟩ (.identifier ⟨some 2⟩ "x") .assign (.bool ⟨some 2⟩ false),
    .assign ⟨some 3⟩ (.identifier ⟨some 3⟩ "y") .assign (.none ⟨some 3⟩)]

def pairCode : Block :=
  [Op.getFalse.at ⟨some 2⟩, Op.push.at ⟨some 2⟩, (Op.assignIdentifier "x").at ⟨some 2⟩,
    Op.getNone.at ⟨some 3⟩, Op.push.at ⟨some 3⟩, (Op.assignIdentifier "y").at ⟨some 3⟩]

/-- The body of a class that binds one of the names again. -/
def twiceBody : List Node :=
  [.assign ⟨some 5⟩ (.identifier ⟨some 5⟩ "x") .assign (.bool ⟨some 5⟩ true)]

def twiceCode : Block :=
  [Op.getTrue.at ⟨some 5⟩, Op.push.at ⟨some 5⟩, (Op.assignIdentifier "x").at ⟨some 5⟩]

/-- Its bases are the first class, a built-in type, and the first class again. -/
def twiceBases : List Expr := ["A", "Integer", "A"].map (.identifier ⟨some 4⟩)

def pairDefinition : Block := (Op.newClass ⟨"A", 6, 0⟩).at ⟨some 1⟩ :: pairCode

def twiceDefinition : Block :=
  ["A", "Integer", "A"].flatMap
    (fun name => [(Op.getIdentifier name).at ⟨some 4⟩, Op.push.at ⟨some 4⟩])
    ++ (Op.newClass ⟨"B", 3, 3⟩).at ⟨some 4⟩ :: twiceCode

def pairClass : ClassDef := ⟨"A", [], .ofList pairCode, ⟨0⟩⟩

def twiceClass : ClassDef := ⟨"B", [⟨16⟩, ⟨2⟩, ⟨16⟩], .ofList twiceCode, ⟨0⟩⟩

/-- The machine that has defined the first class. -/
def withPair : Machine :=
  Ending.machine ((withFuel 9 .standard).dispatch 9 ⟨0⟩ (.ofList pairDefinition) (.new .standard))

/-- The machine that has defined both. -/
def withTwice : Machine :=
  Ending.machine ((withFuel 9 .standard).dispatch 9 ⟨0⟩ (.ofList twiceDefinition) withPair)

theorem not_isGeneratorFrame (h : m.heap.objects.all (fun o => o.kind.tag != .generator) = true)
    (id : FrameId) : ¬ m.IsGeneratorFrame id := by
  rintro ⟨v, g, hg, -⟩
  have hlt : v.address < m.heap.objects.size := Heap.lt_size_of_kind hg nofun
  have hv := Array.all_eq_true.1 h v.address hlt
  rw [Heap.kind, Heap.get, ← Array.getElem_eq_getD (h := hlt)] at hg
  simp [hg, Kind.tag] at hv

/-- The class that a class definition makes, where what it depends on can be computed. -/
theorem kind_of_dispatch {span : Span} {name : String} {bases : List Expr} {body : List Node}
    {s : Surroundings} {code block : Block} {id : FrameId} {steps : Nat} {flow : Flow}
    {values : List Value} {cls : Value} (hm : m.Housed)
    (hcode : (Node.classDef span name bases body).code s = .ok code)
    (hblock : blockCode .inClassBody body = .ok block) (hfits : code.length ≤ Text.maxCount)
    (hactive : (m.arena.get? id).any (fun f => 0 < f.active) = true)
    (hplain : m.heap.objects.all (fun o => o.kind.tag != .generator) = true)
    (hvalues : (finished? (evalInOrder (withFuel fuel digests) id bases m)).map Prod.fst = some values)
    (hrun : (withFuel fuel digests).dispatch steps id (.ofList code) m = .ok flow m')
    (hlast : (m'.arena.get? id).bind Frame.last = some cls) :
    m'.heap.kind cls = .type (.ofClass ⟨name, values, .ofList block, id⟩) := by
  obtain ⟨f, hf, hactive⟩ := (Option.any_eq_true _ _).1 hactive
  obtain ⟨values', k, block', cls', heval, hblock', ⟨g, hg, -, hlast'⟩, hkind⟩ :=
    classDef_of_dispatch hm hcode hfits hf (of_decide_eq_true hactive)
      (not_isGeneratorFrame hplain id) hrun
  rw [heval] at hvalues
  rw [hg, Option.bind_some, hlast'] at hlast
  cases hvalues
  cases hlast
  cases hblock.symm.trans hblock'
  exact hkind

theorem ok_machine {α : Type} {r : Ending α} (h : (finished? r).isSome = true) :
    ∃ a, r = .ok a r.machine := by
  cases r with
  | ok a m => exact ⟨a, rfl⟩
  | error stop m => cases h

theorem withPair_spec :
    withPair.Founded ∧ withPair.heap.kind ⟨16⟩ = .type (.ofClass pairClass) := by
  have hnew := Machine.founded_new .standard
  obtain ⟨flow, hrun⟩ : ∃ flow,
      (withFuel 9 .standard).dispatch 9 ⟨0⟩ (.ofList pairDefinition) (.new .standard) =
        .ok flow withPair :=
    ok_machine (by decide +kernel)
  have hcode : (Node.classDef ⟨some 1⟩ "A" [] pairBody).code .inFunction =
      .ok pairDefinition := rfl
  exact ⟨hnew.dispatch (.ok hrun), kind_of_dispatch hnew.housed hcode rfl (by decide)
    (by decide +kernel) (by decide +kernel) rfl hrun (by decide +kernel)⟩

theorem withTwice_spec : withTwice.Founded ∧
    withTwice.heap.kind ⟨16⟩ = .type (.ofClass pairClass) ∧
    withTwice.heap.kind ⟨17⟩ = .type (.ofClass twiceClass) := by
  obtain ⟨hfounded, hpair⟩ := withPair_spec
  obtain ⟨flow, hrun⟩ : ∃ flow,
      (withFuel 9 .standard).dispatch 9 ⟨0⟩ (.ofList twiceDefinition) withPair = .ok flow withTwice :=
    ok_machine (by decide +kernel)
  have hgrown : withPair.heap.Extends withTwice.heap :=
    ((Likeness.growing_knot withPair.heap False 9).dispatch trivial (Nat.le_refl 9)
      (.ofList twiceDefinition)).extends hrun
  have hcode : (Node.classDef ⟨some 4⟩ "B" twiceBases twiceBody).code .inFunction =
      .ok twiceDefinition := rfl
  refine ⟨hfounded.dispatch (.ok hrun), hgrown.keepsTypes _ _ hpair, ?_⟩
  exact kind_of_dispatch hfounded.housed hcode rfl (by decide) (by decide +kernel)
    (by decide +kernel) (by decide +kernel) hrun (by decide +kernel)

/-- A payload is a type of the machine. -/
def isBuiltinType : Kind → Bool
  | .type (.builtin _) => true
  | _ => false

theorem exists_builtin_of_isBuiltinType {k : Kind} (h : isBuiltinType k = true) :
    ∃ tag, k = .type (.builtin tag) := by
  unfold isBuiltinType at h
  split at h
  · exact ⟨_, rfl⟩
  · cases h

/-- A member is bound to `True`. -/
def isTrueMember (h : Heap) (object : Value) (name : String) : Bool :=
  match h.own? object name with
  | some (.value v) =>
    match h.kind v with
    | .bool true => true
    | _ => false
  | _ => false

theorem exists_own?_of_isTrueMember {h : Heap} {object : Value} {name : String}
    (hmember : isTrueMember h object name = true) :
    ∃ v, h.own? object name = some (.value v) ∧ h.kind v = .bool true := by
  unfold isTrueMember at hmember
  split at hmember
  · rename_i v hown
    split at hmember
    · rename_i hkind
      exact ⟨v, hown, hkind⟩
    · cases hmember
  · cases hmember

/-- The object has the name of the second class from there, though the first class binds it too, and
twice. -/
theorem construct_in_order_twice : ∃ order object start m' nodes gifts v,
    withTwice.Founded ∧ withTwice.heap.Layers [⟨17⟩] order ∧ order.map (·.name) = ["A", "A", "B"] ∧
    (withFuel 18 .standard).construct ⟨17⟩ withTwice = .ok object m' ∧
    Builds .standard 17 object nodes order start gifts m' ∧
    m'.heap.own? object "x" = some (.value v) ∧ m'.heap.kind v = .bool true := by
  obtain ⟨hfounded, hpair, htwice⟩ := withTwice_spec
  obtain ⟨tag, hbuiltin⟩ : ∃ tag, withTwice.heap.kind ⟨2⟩ = .type (.builtin tag) :=
    exists_builtin_of_isBuiltinType (by decide +kernel)
  obtain ⟨first, order, object, start, -, -, horder, -, hconstruct⟩ :=
    (construct_in_order hfounded).2 htwice
  obtain ⟨-, -, hmembers⟩ := hconstruct 17 (Nat.le_refl _)
  have hlayers : withTwice.heap.Layers [⟨17⟩] [pairClass, pairClass, twiceClass] :=
    .ofClass htwice (.ofClass hpair .nil (.builtin hbuiltin (.ofClass hpair .nil .nil))) .nil
  obtain rfl := (horder _).1 hlayers
  have hdefines : ∀ d ∈ [pairClass, pairClass, twiceClass],
      d.Defines (if d.name = "A" then pairBody else twiceBody) := by
    intro d hd
    obtain rfl | rfl : d = pairClass ∨ d = twiceClass := by simpa using hd
    · exact ⟨by decide, pairCode, rfl, by decide, rfl⟩
    · exact ⟨by decide, twiceCode, rfl, by decide, rfl⟩
  have hends : (finished? ((withFuel 18 .standard).construct ⟨17⟩ withTwice)).any
      (fun r => isTrueMember r.2.heap r.1 "x") = true := by
    decide +kernel
  obtain ⟨⟨made, m'⟩, hmade, hends⟩ := (Option.any_eq_true _ _).1 hends
  have hmade := eq_ok_of_finished? hmade
  obtain ⟨rfl, gifts, hbuilds, -⟩ := hmembers hdefines hmade
  obtain ⟨v, hown, hkind⟩ := exists_own?_of_isTrueMember hends
  exact ⟨_, made, start, m', _, gifts, v, hfounded, hlayers, rfl, hmade, hbuilds, hown, hkind⟩

end Engine
end ScriptVM
