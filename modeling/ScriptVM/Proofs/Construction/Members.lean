import ScriptVM.Proofs.Construction.Body
import ScriptVM.Proofs.Construction.Reserved
import ScriptVM.Proofs.Expression.Lowering

/-!
# Members by construction

A body that consists of assignments and method definitions does what these say, one after the other,
in a frame of its own. Assignments to names and methods go to the object under construction.
-/
namespace ScriptVM

open Run

section members

variable {m m' k : Machine} {id : FrameId} {f : Frame} {fuel steps : Nat} {object cls : Value}
  {c : ClassDef} {name : String} {α : Type} {x : Run α} {digests : Digests}

/-! ## Code in frames of their own -/

/-- What evaluation on the sparing machine comes to, it comes to on the ordinary one. -/
theorem eq_of_sparing_calls {x : Engine → Run α} {spared : Option FrameId}
    (hx : ∀ {e e' : Engine}, Likeness.same.Calls e e' →
      ∃ p, Likeness.same.Agree () (x e) (x e') p)
    (hend : hasEnded (x (.sparing spared digests fuel) m) = true) :
    x (.withFuel fuel digests) m = x (.sparing spared digests fuel) m := by
  have K : Likeness.Knot Likeness.sameFrames (.sparing spared digests fuel)
    (.sparing none digests fuel) :=
    Likeness.same_knot (Nat.le_refl fuel) (.inr rfl)
  rw [Engine.sparing_none] at K
  obtain ⟨p, hp⟩ := hx K.toCalls
  exact Likeness.eq_of_agree_same hp hend

/-- A live frame that no generator has can be reserved. -/
theorem Machine.Housed.reserve (hm : m.Housed) (hf : m.arena.get? id = some f)
    (hplain : ¬ m.IsGeneratorFrame id) :
    (Likeness.reserving (some ⟨id, f.parent, f.object, f.bindsObject⟩)).Alike m.arena.frames.size
      m m := by
  refine hm.alike ⟨Nat.le_refl _, ?_, ?_⟩ ?_
  · rintro _ ⟨⟩
    exact Arena.serial_lt_of_get? hf
  · rintro _ ⟨⟩ g hg
    cases hf.symm.trans hg
    exact ⟨rfl, rfl, rfl⟩
  · rintro _ ⟨⟩
    exact hplain

/-- Code that ends in such a frame ends in the same way where the frame is spared. -/
theorem Machine.Housed.spare (hm : m.Housed) (hf : m.arena.get? id = some f)
    (hplain : ¬ m.IsGeneratorFrame id) {c : Cursor}
    (hend : hasEnded ((Engine.withFuel fuel digests).dispatch steps id c m) = true) :
    (Engine.sparing (some id) digests fuel).dispatch steps id c m =
      (Engine.withFuel fuel digests).dispatch steps id c m :=
  ((Likeness.reserving_knot digests _ fuel).dispatch trivial (Nat.le_refl steps) c).eq_of_reserving
    (hm.reserve hf hplain) hend

/-- Code in a frame that no generator has does what it computes, if it comes to an end without a
failure. -/
theorem Machine.Housed.computes {code : Block} {flow : Flow} {Q : α → Cursor → Aside → Prop}
    (hm : m.Housed) (hf : m.arena.get? id = some f) (hactive : 0 < f.active)
    (hplain : ¬ m.IsGeneratorFrame id)
    (hx : Computes (.sparing (some id) digests fuel) id m.callStack ⟨f.stack, f.last⟩ (.ofList code)
      ⟨f.stack, f.last⟩ x Q)
    (hQ : ∀ a c left, Q a c left → c = (Cursor.ofList code).skip code.length)
    (hrun : (Engine.withFuel fuel digests).dispatch steps id (.ofList code) m = .ok flow m') :
    ∃ a n left, x m = .ok a n ∧ Q a ((Cursor.ofList code).skip code.length) left ∧
      flow = .next ((Cursor.ofList code).skip code.length) ∧
      Twins id m.callStack ⟨f.stack, f.last⟩ left m' n := by
  have hend : hasEnded ((Engine.withFuel fuel digests).dispatch steps id (.ofList code) m) = true := by
    rw [hrun]
    rfl
  have hspare := hm.spare hf hplain hend
  rw [← hspare] at hend
  rw [← hspare] at hrun
  have hx := hx m m (Twins.refl hf hactive)
  generalize x m = r at hx ⊢
  match r, hx with
  | .ok a n, ⟨c', k, left, hleads, hq, htwins⟩ =>
    obtain rfl := hQ a c' left hq
    have hdone := hleads.ends (Engine.ends_of_end (Cursor.next?_skip_length code))
    cases (hdone.eq_of_dispatch hend).symm.trans hrun
    exact ⟨a, n, left, rfl, hq, rfl, htwins⟩
  | .error (.gaveUp _) _, hstarves =>
    rw [hstarves steps] at hend
    cases hend
  | .error (.failed _) _, ⟨k, left, hdone, _⟩ =>
    cases (hdone.eq_of_dispatch hend).symm.trans hrun

/-! ## What definitions give -/

end members

/-- What a definition in the body of a class does to the object under construction. First the
expressions in it are evaluated, which may do anything; then it may give the object a member. -/
structure Gift where
  before : Heap
  evaluated : Heap
  given : Option (String × Member)

namespace Gift

variable {g : Gift} {object : Value} {name : String} {member : Member}

/-- The objects after a gift. -/
def after (g : Gift) (object : Value) : Heap :=
  match g.given with
  | some (name, member) => g.evaluated.setMember object name member
  | none => g.evaluated

/-- Neither the gift nor the evaluation before it touches a member. -/
def Spares (g : Gift) (object : Value) (name : String) : Prop :=
  g.evaluated.own? object name = g.before.own? object name ∧
    ∀ member, g.given ≠ some (name, member)

/-- The object is there to be given something, and what it is given is a member of its own. -/
structure Fits (g : Gift) (object : Value) : Prop where
  lt : object.address < g.evaluated.objects.size
  own : ∀ name s, g.given ≠ some (name, .builtin s)

theorem own?_after_of_given (hg : g.Fits object) (hgiven : g.given = some (name, member)) :
    (g.after object).own? object name = some member := by
  have hown := hg.own name
  rw [hgiven] at hown
  simp only [after, hgiven, Heap.own?, Heap.setMember, Heap.get_modify_self _ hg.lt,
    Bindings.get?_insert, if_true]
  cases member with
  | builtin s => exact absurd rfl (hown s)
  | _ => rfl

theorem own?_after_of_not_given (hgiven : ∀ member, g.given ≠ some (name, member)) :
    (g.after object).own? object name = g.evaluated.own? object name := by
  unfold after
  cases hother : g.given with
  | none => rfl
  | some entry =>
    have hne : name ≠ entry.1 := by
      rintro rfl
      exact hgiven _ hother
    simp only [Heap.own?, Heap.setMember]
    rcases g.evaluated.get_modify object object
      (fun o => { o with members := o.members.insert entry.1 entry.2 }) with ⟨hget, -⟩ | hget
    · rw [hget, Bindings.get?_insert, if_neg hne]
    · rw [hget]

theorem Spares.own?_after (h : g.Spares object name) :
    (g.after object).own? object name = g.before.own? object name :=
  (own?_after_of_not_given h.2).trans h.1

end Gift

namespace Engine

/-- What a node of a class body gives to the object under construction, and the machine that it
leaves behind. An assignment gives the object a member when its target is a name, or a member of
that object; a method definition always does. -/
inductive Gives (e : Engine) (id : FrameId) (object : Value) (m : Machine) :
    Node → Gift → Machine → Prop
  | name {span place : Span} {name : String} {operator : AssignOp} {value : Expr} {v : Value}
      {k m' : Machine}
      (hvalue : (assignedExpr (.identifier place name) operator value span).eval e id m = .ok v k)
      (hstore : assign id name v k = .ok () m') :
      Gives e id object m (.assign span (.identifier place name) operator value)
        ⟨m.heap, k.heap, some (name, .value v)⟩ m'
  | member {span place : Span} {receiver : Expr} {name : String} {operator : AssignOp}
      {value : Expr} {v : Value} {k k' : Machine}
      (hvalue : (assignedExpr (.selector place receiver name) operator value span).eval e id m =
        .ok v k)
      (hreceiver : receiver.eval e id k = .ok object k') :
      Gives e id object m (.assign span (.selector place receiver name) operator value)
        ⟨m.heap, k'.heap, some (name, .value v)⟩
        { k' with heap := k'.heap.setValue object name v }
  | elsewhere {span place : Span} {receiver : Expr} {name : String} {operator : AssignOp}
      {value : Expr} {v other : Value} {k k' : Machine}
      (hvalue : (assignedExpr (.selector place receiver name) operator value span).eval e id m =
        .ok v k)
      (hreceiver : receiver.eval e id k = .ok other k') (hother : other ≠ object) :
      Gives e id object m (.assign span (.selector place receiver name) operator value)
        ⟨m.heap, k'.heap.setValue other name v, none⟩
        { k' with heap := k'.heap.setValue other name v }
  | item {span place : Span} {source position : Expr} {operator : AssignOp} {value : Expr}
      {v s p : Value} {k k₁ k₂ m' : Machine}
      (hvalue : (assignedExpr (.index place source position) operator value span).eval e id m =
        .ok v k)
      (hsource : source.eval e id k = .ok s k₁) (hposition : position.eval e id k₁ = .ok p k₂)
      (hstore : discard (e.callSymbol s .assign [p, v]) k₂ = .ok () m') :
      Gives e id object m (.assign span (.index place source position) operator value)
        ⟨m.heap, m'.heap, none⟩ m'
  | method {span : Span} {name : String} {parameters : List String} {body : List Node}
      {block : Block} {scope : FrameId} {k : Machine}
      (hblock : blockCode .inFunction body = .ok block)
      (hscope : (methodScope id >>= retain) m = .ok scope k) :
      Gives e id object m (.function span ⟨name, parameters, body⟩)
        ⟨m.heap, k.heap, some (name, .method ⟨some name, parameters.length,
          .ofList (parameterBody parameters block span), scope⟩)⟩
        { k with heap := k.heap.setMember object name (.method ⟨some name, parameters.length,
          .ofList (parameterBody parameters block span), scope⟩) }

/-- Nodes give one thing after the other. -/
inductive Gifts (e : Engine) (id : FrameId) (object : Value) :
    List Node → Machine → List Gift → Machine → Prop
  | nil {m : Machine} : Gifts e id object [] m [] m
  | cons {node : Node} {rest : List Node} {m k m' : Machine} {g : Gift} {gifts : List Gift}
      (hgives : e.Gives id object m node g k) (hrest : Gifts e id object rest k gifts m') :
      Gifts e id object (node :: rest) m (g :: gifts) m'

variable {m m' k : Machine} {id : FrameId} {fuel : Nat} {object : Value} {node : Node} {g : Gift}

theorem located_eq_ok {α : Type} {span : Span} {x : Run α} {a : α}
    (h : located span x m = .ok a m') : x m = .ok a m' := by
  unfold located at h
  cases hx : x m with
  | ok b k =>
    rw [hx] at h
    exact h
  | error stop k =>
    rw [hx] at h
    cases stop <;> cases h

/-- What is performed gives something. -/
theorem exists_gives {e : Engine} (hrun : e.perform id object node m = .ok () m') :
    ∃ g, e.Gives id object m node g m' := by
  cases node with
  | assign span target operator value =>
    obtain ⟨v, k, hvalue, hstore⟩ := Run.bind_eq_ok hrun
    cases target with
    | identifier place name => exact ⟨_, .name hvalue (located_eq_ok hstore)⟩
    | selector place receiver name =>
      obtain ⟨other, k', hreceiver, hstore⟩ := Run.bind_eq_ok hstore
      cases located_eq_ok hstore
      by_cases hother : other = object
      · subst hother
        exact ⟨_, .member hvalue hreceiver⟩
      · exact ⟨_, .elsewhere hvalue hreceiver hother⟩
    | index place source position =>
      obtain ⟨s, k₁, hsource, hstore⟩ := Run.bind_eq_ok hstore
      obtain ⟨p, k₂, hposition, hstore⟩ := Run.bind_eq_ok hstore
      exact ⟨_, .item hvalue hsource hposition (located_eq_ok hstore)⟩
    | _ => cases hstore
  | function span decl =>
    obtain ⟨name, parameters, body⟩ := decl
    cases hblock : blockCode .inFunction body with
    | ok block =>
      simp only [perform, hblock] at hrun
      obtain ⟨scope, k, hscope, hset⟩ := Run.bind_eq_ok (located_eq_ok hrun)
      cases hset
      exact ⟨_, .method hblock hscope⟩
    | error error =>
      simp only [perform, hblock] at hrun
      cases hrun
  | _ => cases hrun

end Engine

/-! ## What gifts come to -/

namespace Machine

variable {m k : Machine} {id : FrameId} {fuel : Nat} {object : Value} {node : Node}
  {digests : Digests}

/-- A frame is reserved for the body of a class, which runs on an object. -/
def Reserves (m : Machine) (id : FrameId) (object : Value) : Prop :=
  ∃ (parent : Option FrameId) (w : Nat),
    (Likeness.reserving (some ⟨id, parent, some object, true⟩)).Alike w m m

/-- What agrees with something while the frame is reserved leaves it reserved. -/
theorem Reserves.ok {α : Type} {x : Run α} {a : α} (h : m.Reserves id object)
    (hx : ∀ reserved w, ∃ y p, (Likeness.reserving reserved).Agree w x y p)
    (hrun : x m = .ok a k) : k.Reserves id object := by
  obtain ⟨parent, w, halike⟩ := h
  obtain ⟨y, p, hxy⟩ := hx (some ⟨id, parent, some object, true⟩) w
  obtain ⟨n, w', -, -, -, hkept⟩ := hxy.ok halike hrun
  cases hkept.eq_of_reserving
  exact ⟨parent, w', hkept⟩

theorem Reserves.eval {x : Expr} {v : Value} (h : m.Reserves id object)
    (hrun : x.eval (.withFuel fuel digests) id m = .ok v k) : k.Reserves id object :=
  h.ok (fun reserved _ => ⟨_, _, (Likeness.reserving_knot digests reserved fuel).toCalls.eval
    (F := Likeness.reservingFrames reserved) x trivial⟩) hrun

theorem Reserves.perform (h : m.Reserves id object)
    (hrun : (Engine.withFuel fuel digests).perform id object node m = .ok () k) :
      k.Reserves id object :=
  h.ok (fun reserved _ => ⟨_, _, (Likeness.reserving_knot digests reserved fuel).toCalls.perform
    (F := Likeness.reservingFrames reserved) trivial object node⟩) hrun

end Machine

namespace Engine

variable {m m' k : Machine} {id : FrameId} {fuel : Nat} {object : Value} {node : Node} {g : Gift}
  {digests : Digests}

theorem extends_eval {x : Expr} {v : Value} (hx : x.eval (withFuel fuel digests) id m = .ok v k) :
    m.heap.Extends k.heap :=
  ((Likeness.growing_knot m.heap False fuel).toCalls.eval
    (F := Likeness.growingFrames m.heap False) (w := ()) x trivial).extends hx

/-- An assignment to a name in the frame of a body is one to a member of the object. -/
theorem heap_of_assign {name : String} {v : Value} (hreserves : k.Reserves id object)
    (hrun : assign id name v k = .ok () m') : m'.heap = k.heap.setValue object name v := by
  obtain ⟨parent, w, halike⟩ := hreserves
  cases hf : k.arena.get? id with
  | none =>
    rw [assign_of_dead hf] at hrun
    cases hrun
  | some f =>
    obtain ⟨-, hobject, hbinds⟩ := halike.reserves.bound _ rfl f hf
    rw [assign_of_live hf] at hrun
    cases hrun
    simp [Arena.assign, hf, hobject, hbinds]

/-- What a node gives is all that happens after the evaluation. -/
theorem Gives.spec (h : (withFuel fuel digests).Gives id object m node g m')
    (hreserves : m.Reserves id object) (hlt : object.address < m.heap.objects.size) :
    g.before = m.heap ∧ g.Fits object ∧ m'.heap = g.after object := by
  cases h with
  | name hvalue hstore =>
    exact ⟨rfl, ⟨Nat.lt_of_lt_of_le hlt (extends_eval hvalue).size, nofun⟩,
      heap_of_assign (hreserves.eval hvalue) hstore⟩
  | member hvalue hreceiver =>
    have hgrown := (extends_eval hvalue).trans (extends_eval hreceiver)
    exact ⟨rfl, ⟨Nat.lt_of_lt_of_le hlt hgrown.size, nofun⟩, rfl⟩
  | elsewhere hvalue hreceiver =>
    have hgrown := (extends_eval hvalue).trans (extends_eval hreceiver)
    refine ⟨rfl, ⟨Nat.lt_of_lt_of_le hlt ?_, nofun⟩, rfl⟩
    exact (hgrown.trans (Heap.extends_setMember ..)).size
  | @item _ _ _ _ _ _ _ _ _ _ _ k₂ _ hvalue hsource hposition hstore =>
    have hgrown :=
      ((extends_eval hvalue).trans (extends_eval hsource)).trans (extends_eval hposition)
    have hcall : k₂.heap.Extends m'.heap :=
      ((Likeness.growing_knot k₂.heap False fuel).toCalls.callSymbol (w := ()) trivial _
        fun _ _ => trivial).discard.extends hstore
    exact ⟨rfl, ⟨Nat.lt_of_lt_of_le hlt (hgrown.trans hcall).size, nofun⟩, rfl⟩
  | method hblock hscope =>
    have hgrown := ((Likeness.growingFrames m.heap False).retainMethodScope (w := ())
      trivial).extends hscope
    exact ⟨rfl, ⟨Nat.lt_of_lt_of_le hlt hgrown.size, nofun⟩, rfl⟩

end Engine

/-- Gifts lead from the members that an object has to those that it has in the end. -/
inductive Gift.Leads (object : Value) :
    (String → Option Member) → List Gift → (String → Option Member) → Prop
  | nil {own : String → Option Member} : Leads object own [] own
  | cons {g : Gift} {later : List Gift} {own : String → Option Member} (hfits : g.Fits object)
      (hlater : Leads object ((g.after object).own? object) later own) :
      Leads object (g.before.own? object) (g :: later) own

namespace Gift.Leads

variable {object : Value} {own own' own'' : String → Option Member}
  {gifts gifts' earlier later : List Gift} {g : Gift} {name : String}

theorem append (h : Leads object own gifts own') (h' : Leads object own' gifts' own'') :
    Leads object own (gifts ++ gifts') own'' := by
  induction h with
  | nil => exact h'
  | cons hfits _ ih => exact .cons hfits (ih h')

theorem spared (h : Leads object own gifts own') (hspared : ∀ g ∈ gifts, g.Spares object name) :
    own' name = own name := by
  induction h with
  | nil => rfl
  | cons _ _ ih =>
    exact (ih fun g hg => hspared g (.tail _ hg)).trans (hspared _ (.head _)).own?_after

/-- What a gift leaves under a name remains until something else touches the name. -/
theorem last (h : Leads object own (earlier ++ g :: later) own')
    (hspared : ∀ g ∈ later, g.Spares object name) :
    g.Fits object ∧ own' name = (g.after object).own? object name := by
  induction earlier generalizing own with
  | nil =>
    cases h with
    | cons hfits hlater => exact ⟨hfits, hlater.spared hspared⟩
  | cons first rest ih =>
    cases h with
    | cons hfits hlater => exact ih hlater

end Gift.Leads

namespace Engine

variable {m m' k : Machine} {id : FrameId} {fuel : Nat} {object : Value} {nodes : List Node}
  {digests : Digests}

/-- What nodes of a class body do is to give one thing after the other. -/
theorem exists_gifts (hrun : (withFuel fuel digests).performAll id object nodes m = .ok () m')
    (hreserves : m.Reserves id object) (hlt : object.address < m.heap.objects.size) :
    ∃ gifts, (withFuel fuel digests).Gifts id object nodes m gifts m' ∧
      Gift.Leads object (m.heap.own? object) gifts (m'.heap.own? object) := by
  induction nodes generalizing m with
  | nil =>
    cases hrun
    exact ⟨[], .nil, .nil⟩
  | cons node rest ih =>
    rw [performAll_cons] at hrun
    obtain ⟨_, k, hfirst, hrest⟩ := Run.bind_eq_ok hrun
    obtain ⟨g, hgives⟩ := exists_gives hfirst
    obtain ⟨hbefore, hfits, hafter⟩ := hgives.spec hreserves hlt
    have hgrown : m.heap.Extends k.heap :=
      ((Likeness.growing_knot m.heap False fuel).toCalls.perform
        (F := Likeness.growingFrames m.heap False) (w := ()) trivial object node).extends hfirst
    obtain ⟨gifts, hgifts, hleads⟩ := ih hrest (hreserves.perform hfirst)
      (Nat.lt_of_lt_of_le hlt hgrown.size)
    refine ⟨g :: gifts, .cons hgives hgifts, ?_⟩
    rw [← hbefore]
    exact .cons hfits (hafter ▸ hleads)

end Engine
end ScriptVM
