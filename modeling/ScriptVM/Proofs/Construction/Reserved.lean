import ScriptVM.Proofs.CallStack.Discipline
import ScriptVM.Proofs.CallStack.Vigil
import ScriptVM.Proofs.Code.Course
import ScriptVM.Proofs.Construction.Order

/-!
# Frames of their own

Code that runs in a new frame has the frame to itself. Functions and classes run their bodies in
frames that are newer, and a generator runs in the frame that it was given when it was first asked.
So nothing that is called meanwhile touches the operands of the frame, and a machine that gives up
when the frame is activated again does not have to.
-/
namespace ScriptVM

/-- A frame that is kept for the code that runs in it, with what it is bound to. -/
structure Reserved where
  id : FrameId
  parent : Option FrameId
  object : Option Value
  bindsObject : Bool

/-- A frame is bound to what it was reserved with. -/
def Frame.IsBoundAs (f : Frame) (r : Reserved) : Prop :=
  f.parent = r.parent ∧ f.object = r.object ∧ f.bindsObject = r.bindsObject

/-- So many frames have been made, among them the reserved one, which is bound to the same things as
long as it is live. -/
structure Arena.Reserves (a : Arena) (reserved : Option Reserved) (made : Nat) : Prop where
  made_le : made ≤ a.frames.size
  old : ∀ r ∈ reserved, r.id.serial < made
  bound : ∀ r ∈ reserved, ∀ f, a.get? r.id = some f → f.IsBoundAs r

namespace Arena.Reserves

variable {a : Arena} {reserved : Option Reserved} {made : Nat} {id : FrameId}

theorem modify (h : a.Reserves reserved made) (id : FrameId) {change : Frame → Frame}
    (hchange : ∀ f, (change f).parent = f.parent ∧ (change f).object = f.object ∧
      (change f).bindsObject = f.bindsObject) : (a.modify id change).Reserves reserved made where
  made_le := by
    rw [size_frames_modify]
    exact h.made_le
  old := h.old
  bound r hr f hf := by
    rw [get?_modify] at hf
    split at hf
    · rename_i hid
      obtain ⟨g, hg, rfl⟩ := Option.map_eq_some_iff.1 hf
      obtain ⟨hparent, hobject, hbinds⟩ := h.bound r hr g (hid ▸ hg)
      obtain ⟨hp, ho, hb⟩ := hchange g
      exact ⟨hp.trans hparent, ho.trans hobject, hb.trans hbinds⟩
    · exact h.bound r hr f hf

/-- A new frame is none that was reserved before. -/
theorem alloc (h : a.Reserves reserved made) (parent : Option FrameId) (object : Option Value)
    (bindsObject : Bool) :
    (a.alloc parent object bindsObject).2.Reserves reserved (a.frames.size + 1) where
  made_le := by rw [size_frames_alloc]
  old r hr := Nat.lt_succ_of_lt (Nat.lt_of_lt_of_le (h.old r hr) h.made_le)
  bound r hr f hf := by
    rcases get?_of_alloc hf with ⟨hid, -⟩ | ⟨g, hg, rfl⟩
    · have hlt := Nat.lt_of_lt_of_le (h.old r hr) h.made_le
      rw [hid] at hlt
      exact absurd hlt (Nat.lt_irrefl _)
    · exact h.bound r hr g hg

theorem fresh (h : a.Reserves reserved made) :
    ∀ r ∈ reserved, (⟨a.frames.size⟩ : FrameId) ≠ r.id := by
  intro r hr hid
  have hlt := Nat.lt_of_lt_of_le (h.old r hr) h.made_le
  rw [← hid] at hlt
  exact Nat.lt_irrefl _ hlt

theorem endActivation (h : a.Reserves reserved made) (id : FrameId) :
    (a.endActivation id).Reserves reserved made := by
  have hdeactivated : (a.modify id Frame.deactivate).Reserves reserved made :=
    h.modify id fun f => by
      unfold Frame.deactivate
      split <;> exact ⟨rfl, rfl, rfl⟩
  refine ⟨?_, h.old, fun r hr f hf => ?_⟩
  · rw [Arena.endActivation, size_frames_settle]
    exact hdeactivated.made_le
  · obtain ⟨n, hn⟩ := get?_of_settle_go hf
    exact hdeactivated.bound r hr { f with children := n } hn

end Arena.Reserves

namespace Likeness

/-- Machines in which a frame is reserved, or none, each compared with itself. A generator has one
of the frames that have been made, but not that one. The world is how many frames are known to have
been made. -/
def reserving (reserved : Option Reserved) : Likeness where
  World := Nat
  le w w' := w ≤ w'
  refl w := Nat.le_refl w
  trans h h' := Nat.le_trans h h'
  good _ := True
  function _ _ := True
  classDef _ _ := True
  generator w g := ∀ id ∈ g.frame, id.serial < w ∧ ∀ r ∈ reserved, id ≠ r.id
  function_mono _ h := h
  classDef_mono _ h := h
  generator_mono hw h id hid := ⟨Nat.lt_of_lt_of_le (h id hid).1 hw, (h id hid).2⟩
  generator_exhaust h := h
  generator_buffer _ h := h
  table _ := True
  table_empty := trivial
  table_put _ _ _ _ h := h
  admits _ := True
  admits_ordinary _ := trivial
  rest w m n := n = m ∧ m.arena.Reserves reserved w
  rest_heap := by
    rintro w m n h - ⟨rfl, hm⟩
    exact ⟨rfl, hm⟩

section reserving

variable {reserved : Option Reserved} {w w' : Nat} {m m' n : Machine} {id : FrameId} {α β : Type}
  {x y : Run α} {p : Nat → α → Prop} {e e' : Engine} {digests : Digests}

theorem Alike.eq_of_reserving (h : (reserving reserved).Alike w m n) : n = m := h.rest.1

theorem Alike.reserves (h : (reserving reserved).Alike w m n) : m.arena.Reserves reserved w :=
  h.rest.2

/-- Other machines with the same objects, which know of as many frames or more. -/
theorem Alike.rereserve (h : (reserving reserved).Alike w m n) (hw : w ≤ w')
    (hm' : m'.arena.Reserves reserved w') (hheap : m'.heap = m.heap) :
    (reserving reserved).Alike w' m' m' where
  heap := rfl
  types := rfl
  sound v hv := by
    rw [hheap]
    exact (h.sound v hv).mono hw
  fresh _ _ := trivial
  goodTypes _ _ _ := trivial
  rest := ⟨rfl, hm'⟩

theorem sharesFrames_reserving : (reserving reserved).SharesFrames where
  arena h := congrArg Machine.arena h.eq_of_reserving
  good _ := trivial
  admits _ := trivial

theorem allows_reserving {change : Frame → Frame}
    (hchange : ∀ f, (change f).parent = f.parent ∧ (change f).object = f.object ∧
      (change f).bindsObject = f.bindsObject) : (reserving reserved).Allows w id change := by
  intro m n h
  cases h.eq_of_reserving
  exact h.rereserve (Nat.le_refl w) (h.reserves.modify id hchange) rfl

theorem allows_stack_reserving (stack : List Value) :
    (reserving reserved).Allows w id fun f => { f with stack := stack } :=
  allows_reserving fun _ => ⟨rfl, rfl, rfl⟩

theorem agree_define_reserving (id : FrameId) (name : String) (v : Value) :
    (reserving reserved).Agree w (Run.define id name v) (Run.define id name v) fun _ _ => True :=
  sharesFrames_reserving.modifyFrame (allows_reserving fun _ => ⟨rfl, rfl, rfl⟩)

theorem agree_pushAll_reserving (id : FrameId) (vs : List Value) :
    (reserving reserved).Agree w (Run.pushAll id vs) (Run.pushAll id vs) fun _ _ => True :=
  sharesFrames_reserving.modifyFrame (allows_reserving fun _ => ⟨rfl, rfl, rfl⟩)

theorem agree_retain_reserving (id : FrameId) :
    (reserving reserved).Agree w (Run.retain id) (Run.retain id) fun _ r => r = id :=
  sharesFrames_reserving.retain (allows_reserving fun _ => ⟨rfl, rfl, rfl⟩)

theorem agree_trace_reserving (position : Nat) (i : Instruction) :
    (reserving reserved).Agree w (Run.trace position i) (Run.trace position i) fun _ _ => True := by
  refine .modify fun m n h => ?_
  cases h.eq_of_reserving
  split
  · exact h.rereserve (Nat.le_refl w) h.reserves rfl
  · exact h

/-- Code may run in every frame. -/
def reservingFrames (reserved : Option Reserved) : Frames (reserving reserved) where
  runs _ _ := True
  scope _ _ := True
  runs_mono _ h := h
  scope_of_function _ := trivial
  function_of_scope _ := trivial
  scope_of_classDef _ := trivial
  classDef_of_scope _ := trivial
  generator_of_scope _ hframe id hid := by
    rw [hframe] at hid
    cases hid
  generator_suspend _ h := h
  admits_frame _ := trivial
  define name v _ _ := agree_define_reserving _ name v
  push _ _ := agree_pushAll_reserving _ [_]
  pop _ := (sharesFrames_reserving.pop allows_stack_reserving).mono fun _ _ _ _ => trivial
  popMany count _ := (sharesFrames_reserving.popMany allows_stack_reserving count).mono
    fun _ _ _ _ _ _ => trivial
  top _ := sharesFrames_reserving.top.mono fun _ _ _ _ => trivial
  last _ := sharesFrames_reserving.last.mono fun _ _ _ _ _ _ => trivial
  setLast _ _ := sharesFrames_reserving.modifyFrame (allows_reserving fun _ => ⟨rfl, rfl, rfl⟩)
  assign _ _ _ _ := sharesFrames_reserving.assign (allows_reserving fun _ => ⟨rfl, rfl, rfl⟩)
  resolve name _ := (sharesFrames_reserving.resolve name).mono fun _ _ _ _ _ _ => trivial
  retain _ := (agree_retain_reserving _).mono fun _ _ _ _ => trivial
  retainMethodScope _ := sharesFrames_reserving.methodScope.bind fun _ id _ _ =>
    (agree_retain_reserving id).mono fun _ _ _ _ => trivial
  trace position i := agree_trace_reserving position i

/-! ## Activations -/

theorem Alike.unwindTo_reserving (h : (reserving reserved).Alike w m n) (depth : Nat) :
    (reserving reserved).Alike w (m.unwindTo depth) (n.unwindTo depth) := by
  cases h.eq_of_reserving
  refine h.rereserve (Nat.le_refl w) ?_ rfl
  have hended : ∀ (ended : List FrameId) (a : Arena), a.Reserves reserved w →
      (ended.foldl Arena.endActivation a).Reserves reserved w := by
    intro ended
    induction ended with
    | nil => exact fun _ ha => ha
    | cons id rest ih => exact fun a ha => ih _ (ha.endActivation id)
  exact hended _ _ h.reserves

theorem agree_activation_reserving (id : FrameId)
    (hxy : (reserving reserved).Agree w x y fun _ _ => True) :
    (reserving reserved).Agree w (Run.activation id x) (Run.activation id y) fun _ _ => True := by
  intro m n h
  cases h.eq_of_reserving
  have hpushed : (reserving reserved).Alike w { m with callStack := m.callStack.push id }
      { m with callStack := m.callStack.push id } :=
    h.rereserve (Nat.le_refl w) h.reserves rfl
  refine Matches.activation rfl rfl trivial
    (h.rereserve (Nat.le_refl w) (h.reserves.endActivation id) rfl) (fun _ => hxy _ _ hpushed) ?_
  intro w' k l hw halike
  exact ⟨w', hw, fun _ _ => trivial, halike.unwindTo_reserving _⟩

/-- A new frame is known to have been made, and is not the reserved one. -/
theorem agree_newFrame_reserving (parent : Option FrameId) (object : Option Value)
    (bindsObject : Bool) :
    (reserving reserved).Agree w (Run.newFrame parent object bindsObject)
      (Run.newFrame parent object bindsObject)
      fun w' id => id.serial < w' ∧ ∀ r ∈ reserved, id ≠ r.id := by
  intro m n h
  cases h.eq_of_reserving
  have hm := h.reserves
  have hle : w ≤ m.arena.frames.size + 1 := Nat.le_succ_of_le hm.made_le
  simp only [Run.newFrame, Run.modifyGet_apply, Arena.alloc_fst]
  exact ⟨rfl, _, hle, ⟨Nat.lt_succ_self _, hm.fresh⟩,
    h.rereserve hle (hm.alloc parent object bindsObject) rfl⟩

theorem agree_activate_reserving (id : FrameId) :
    (reserving reserved).Agree w (Run.activate id) (Run.activate id) fun _ _ => True := by
  refine sharesFrames_reserving.missing (fun _ hk => Run.activate_of_dead hk) ?_
  intro m n f h hm hn
  cases h.eq_of_reserving
  rw [Run.activate_of_live hm]
  exact ⟨rfl, w, Nat.le_refl w, trivial,
    h.rereserve (Nat.le_refl w) (h.reserves.modify id fun _ => ⟨rfl, rfl, rfl⟩) rfl⟩

/-- Engines that run code alike in every frame but the reserved one. -/
structure EntersReserving (reserved : Option Reserved) (e e' : Engine) : Prop where
  plain : e.tracks = false ∧ e'.tracks = false
  enter : ∀ {w : Nat} {id : FrameId} (c : Cursor), (∀ r ∈ reserved, id ≠ r.id) →
    (reserving reserved).Agree w (e.enter id c) (e'.enter id c) fun _ _ => True

theorem EntersReserving.runIn (h : EntersReserving reserved e e') (scope : FrameId)
    (object : Option Value) (bindsObject : Bool) (self : Value) (operands : List Value)
    (body : View) :
    (reserving reserved).Agree w (e.runIn scope object bindsObject self operands body)
      (e'.runIn scope object bindsObject self operands body) fun _ _ => True := by
  rw [Engine.runIn_of_plain h.plain.1, Engine.runIn_of_plain h.plain.2]
  refine (agree_newFrame_reserving _ _ _).bind fun _ id _ hid => ?_
  refine (agree_define_reserving id selfName self).bind fun _ _ _ _ => ?_
  refine (agree_pushAll_reserving id operands).bind fun _ _ _ _ => ?_
  exact (h.enter _ hid.2).bind fun _ _ _ _ => .pure trivial

/-- A generator runs in a frame of its own. -/
theorem EntersReserving.runOperation (h : EntersReserving reserved e e') (g : Value)
    {state : Generator} (hstate : (reserving reserved).generator w state) (values : List Value) :
    (reserving reserved).Agree w (e.runOperation g state values) (e'.runOperation g state values)
      fun _ _ => True := by
  have hrest : ∀ {w : Nat} {id : FrameId}, (∀ r ∈ reserved, id ≠ r.id) →
      (reserving reserved).Agree w
        (do Run.pushAll id values; e.enter id (Engine.startOf state))
        (do Run.pushAll id values; e'.enter id (Engine.startOf state)) fun _ _ => True :=
    fun hid => (agree_pushAll_reserving _ values).bind fun _ _ _ _ => h.enter _ hid
  cases hframe : state.frame with
  | some id =>
    simp only [Engine.runOperation, Engine.generatorFrame, hframe, bind_assoc, pure_bind]
    exact (agree_activate_reserving id).bind fun _ _ _ _ => hrest (hstate id hframe).2
  | none =>
    simp only [Engine.runOperation, Engine.generatorFrame_of_plain h.plain.1,
      Engine.generatorFrame_of_plain h.plain.2, hframe, bind_assoc, pure_bind]
    refine (agree_newFrame_reserving _ _ _).bind fun w₁ id _ hid => ?_
    refine (agree_retain_reserving id).bind fun w₂ other hw₂ hother => ?_
    subst hother
    refine (agree_modifyHeap fun m n hmn => ?_).bind fun _ _ _ _ => hrest hid.2
    refine hmn.changeGenerator trivial (fun s _ hs => ⟨?_, hs.2⟩) fun _ =>
      .ofGenerator ⟨rfl, rfl, rfl, rfl⟩
    rintro _ ⟨⟩
    exact ⟨Nat.lt_of_lt_of_le hid.1 hw₂, hid.2⟩

/-- A machine that spares the reserved frame does what the ordinary one does. -/
theorem reserving_knot (digests : Digests) (reserved : Option Reserved) (fuel : Nat) :
    Knot (reservingFrames reserved) (.withFuel fuel digests)
      (.sparing (reserved.map (·.id)) digests fuel) := by
  have hspared : ∀ {id : FrameId}, (∀ r ∈ reserved, id ≠ r.id) →
      reserved.map (·.id) ≠ some id := by
    intro id hid hsome
    obtain ⟨r, hr, rfl⟩ := Option.map_eq_some_iff.1 hsome
    exact hid r hr rfl
  induction fuel with
  | zero =>
    have h : EntersReserving reserved (.withFuel 0 digests)
        (.sparing (reserved.map (·.id)) digests 0) :=
      ⟨⟨rfl, rfl⟩, fun _ _ => .giveUp⟩
    refine ⟨⟨Nat.le_refl _, rfl, h.plain, fun _ _ => .giveUp⟩, ?_, ?_⟩
    · exact fun _ _ _ _ _ _ _ _ => h.runIn _ _ _ _ _ _
    · exact fun _ hstate _ => (h.runOperation _ hstate.1 _).mono fun _ _ _ _ => trivial
  | succ fuel ih =>
    have h : EntersReserving reserved (.withFuel (fuel + 1) digests)
        (.sparing (reserved.map (·.id)) digests (fuel + 1)) := by
      refine ⟨⟨rfl, rfl⟩, fun {w id} c hid => ?_⟩
      simp only [Engine.withFuel, Engine.sparing, if_neg (hspared hid)]
      exact agree_activation_reserving id ((ih.run trivial c).mono fun _ _ _ _ => trivial)
    refine ⟨⟨Nat.le_refl _, rfl, h.plain, fun hc hargs => ih.bodies.callValue hc hargs⟩, ?_, ?_⟩
    · exact fun _ _ _ _ _ _ _ _ => h.runIn _ _ _ _ _ _
    · exact fun _ hstate _ => (h.runOperation _ hstate.1 _).mono fun _ _ _ _ => trivial

/-- What agrees ends in the same way, in the same machine. -/
theorem Agree.eq_of_reserving (h : (reserving reserved).Agree w x y p)
    (hm : (reserving reserved).Alike w m m) (hend : hasEnded (x m) = true) : y m = x m := by
  cases hx : x m with
  | ok a m' =>
    obtain ⟨n', w', hy, -, -, halike⟩ := h.ok hm hx
    rw [hy, halike.eq_of_reserving]
  | error stop m' =>
    cases stop with
    | gaveUp =>
      rw [hx] at hend
      cases hend
    | failed f =>
      obtain ⟨n', w', hy, -, -, halike⟩ := h.failed hm hx
      rw [hy, halike.eq_of_reserving]

end reserving
end Likeness

/-! ## Machines in which generators have frames -/

open Likeness

/-- The frame of every generator has been made. -/
def Machine.Housed (m : Machine) : Prop :=
  ∀ v g, m.heap.kind v = .generator g → ∀ id ∈ g.frame, id.serial < m.arena.frames.size

section housed

variable {m m' n : Machine} {config : Config} {fuel steps w : Nat} {id : FrameId} {c : Cursor}
  {α : Type} {x : Run α} {p : Nat → α → Prop} {reserved : Option Reserved} {digests : Digests}

theorem Arena.reserves_none (a : Arena) : a.Reserves none a.frames.size :=
  ⟨Nat.le_refl _, nofun, nofun⟩

/-- A frame that no generator has can be reserved. -/
theorem Machine.Housed.alike (h : m.Housed) (hm : m.arena.Reserves reserved m.arena.frames.size)
    (hplain : ∀ r ∈ reserved, ¬ m.IsGeneratorFrame r.id) :
    (reserving reserved).Alike m.arena.frames.size m m where
  heap := rfl
  types := rfl
  sound v _ := by
    refine .of_good (fun _ => trivial) (fun _ => trivial) (fun _ => trivial) (fun g hg => ?_)
      fun _ _ => trivial
    exact fun id hid => ⟨h v g hg id hid, fun r hr hsame => hplain r hr (hsame ▸ ⟨v, g, hg, hid⟩)⟩
  fresh _ _ := trivial
  goodTypes _ _ _ := trivial
  rest := ⟨rfl, hm⟩

theorem Likeness.Alike.housed (h : (reserving reserved).Alike w m n) : m.Housed := by
  intro v g hg id hid
  have hkind := (h.sound v trivial).kind
  rw [show (m.heap.get v).kind = .generator g from hg] at hkind
  exact Nat.lt_of_lt_of_le (hkind.1 id hid).1 h.reserves.made_le

theorem Machine.Housed.unreserved (h : m.Housed) :
    (reserving none).Alike m.arena.frames.size m m :=
  h.alike m.arena.reserves_none nofun

/-- What code and calls do leaves generators in frames that have been made. -/
theorem Machine.Housed.endsIn (h : m.Housed)
    (hx : (reserving none).Agree m.arena.frames.size x x p) (hend : x.EndsIn m m') : m'.Housed := by
  obtain ⟨_, _, -, -, halike⟩ := hx.endsIn h.unreserved hend
  exact halike.housed

theorem unreserved_knot (fuel : Nat) :
    Knot (reservingFrames none) (.withFuel fuel digests) (.withFuel fuel digests) := by
  have K := reserving_knot digests none fuel
  rwa [Option.map_none, Engine.sparing_none] at K

theorem Machine.housed_new (config : Config) : (new config).Housed := by
  refine new_induction (P := Machine.Housed) config (fun v g hg => ?_)
    fun m tag h v g hg id hid => ?_
  · exact absurd (Heap.lt_size_of_kind hg nofun) (Nat.not_lt_zero _)
  · have hsize : (m.addType tag).arena.frames.size = m.arena.frames.size :=
      Arena.size_frames_modify ..
    rw [hsize]
    change (m.heap.alloc (.type (.builtin tag))).2.kind v = .generator g at hg
    rcases m.heap.get_alloc_cases (.type (.builtin tag)) v with hget | hget
    · exact h v g (by rwa [Heap.kind, hget] at hg) id hid
    · rw [Heap.kind, hget] at hg
      cases hg

theorem agree_modify_unreserved {change : Machine → Machine}
    (hheap : ∀ m, (change m).heap = m.heap)
    (hsize : ∀ m, (change m).arena.frames.size = m.arena.frames.size) :
    (reserving none).Agree w (modify change) (modify change) fun _ _ => True := by
  refine .modify fun m n h => ?_
  cases h.eq_of_reserving
  refine h.rereserve (Nat.le_refl w) ⟨?_, nofun, nofun⟩ (hheap m)
  rw [hsize]
  exact h.reserves.made_le

theorem Machine.size_frames_unwindTo (m : Machine) (depth : Nat) :
    (m.unwindTo depth).arena.frames.size = m.arena.frames.size := by
  have hended : ∀ (ended : List FrameId) (a : Arena),
      (ended.foldl Arena.endActivation a).frames.size = a.frames.size := by
    intro ended
    induction ended with
    | nil => exact fun _ => rfl
    | cons id rest ih =>
      intro a
      rw [List.foldl_cons, ih, Arena.endActivation, Arena.size_frames_settle,
        Arena.size_frames_modify]
  exact hended _ _

theorem Machine.size_frames_reset (m : Machine) :
    m.reset.arena.frames.size = m.arena.frames.size := by
  rw [Machine.reset, Machine.modifyFrame, Arena.size_frames_modify, m.size_frames_unwindTo]

theorem agree_execute_unreserved (fuel : Nat) (code : Cursor) :
    (reserving none).Agree w ((Engine.withFuel fuel digests).execute code)
      ((Engine.withFuel fuel digests).execute code) fun _ _ => True := by
  intro m n h
  cases h.eq_of_reserving
  have hagree : (reserving none).Agree w ((Engine.withFuel fuel digests).run m.globals code)
      ((Engine.withFuel fuel digests).run m.globals code) fun _ _ => True :=
    (unreserved_knot fuel).run trivial code
  refine Matches.executed (hagree m m h) ?_
  intro w' k l hw halike
  cases halike.eq_of_reserving
  refine ⟨w', hw, halike.rereserve (Nat.le_refl w') ⟨?_, nofun, nofun⟩ rfl⟩
  rw [k.size_frames_reset]
  exact halike.reserves.made_le

namespace Machine

/-- Every request leaves generators in frames that have been made. -/
theorem Housed.served (h : m.Housed) {r : Request Value} (hr : r ≠ .collect)
    (hend : ((Service.withFuel fuel digests).serve r).EndsIn m m') : m'.Housed := by
  have K : Knot (reservingFrames none) (Service.withFuel fuel digests).engine
      (Service.withFuel fuel digests).engine := unreserved_knot fuel
  refine h.endsIn (K.serve (fun _ _ => trivial) ?_ ?_ ?_ ?_ ?_) hend
  · exact fun code _ => (agree_execute_unreserved fuel code).mono fun _ _ _ _ => trivial
  · intro name _ k l hkl
    cases hkl.eq_of_reserving
    have hresolve : (reserving none).Agree m.arena.frames.size (Run.resolve k.globals name)
        (Run.resolve k.globals name) fun _ _ => True := sharesFrames_reserving.resolve name
    exact hresolve.mono (fun _ _ _ _ _ _ => trivial) k k hkl
  · exact fun name v _ =>
      agree_modify_unreserved (fun _ => rfl) fun _ => Arena.size_frames_modify ..
  · exact fun _ => agree_modify_unreserved heap_reset size_frames_reset
  · exact fun hcollect => absurd hcollect hr

theorem Reachable.housed (h : Reachable config digests m) : m.Housed := by
  induction h with
  | new => exact housed_new config
  | @served m m' fuel r hm hend ih =>
    by_cases hr : r = .collect
    · subst hr
      have hcollected : m' = { m with arena := m.collected } := by
        rw [← m.collectGarbage_eq]
        cases hend with
        | ok hend =>
          cases hend
          rfl
        | failed hend => cases hend
      have hsize := (Machine.collected_spec hm.isIdle.rest.1.family).size
      subst hcollected
      intro v g hg id hid
      rw [hsize]
      exact ih v g hg id hid
    · exact ih.served hr hend

end Machine

/-! ## Founded machines -/

/-- A machine in which bases are older than what has them and generators have frames. -/
structure Machine.Founded (m : Machine) : Prop where
  grounded : m.heap.Grounded
  housed : m.Housed

namespace Machine

theorem founded_new (config : Config) : (new config).Founded where
  grounded := grounded_new config
  housed := housed_new config

theorem Reachable.founded (h : Reachable config digests m) : m.Founded where
  grounded := (Lasting.grounded_steps digests).inv_of_leadsTo h.leadsTo (grounded_new config)
  housed := h.housed

/-- Code in any frame leaves a founded machine behind, wherever it stops. -/
theorem Founded.dispatch (h : m.Founded)
    (hend : ((Engine.withFuel fuel digests).dispatch steps id c).EndsIn m m') : m'.Founded where
  grounded := Lasting.inv_of_endsIn (Lasting.grounded.frames.dispatch
    ((Lasting.grounded_steps digests).knot fuel) Lasting.grounded.places steps id c) h.grounded hend
  housed := h.housed.endsIn
    ((unreserved_knot fuel).dispatch trivial (Nat.le_refl steps) c) hend

/-- So does a call. -/
theorem Founded.call (h : m.Founded) {callee : Value} {args : List Value}
    (hend : ((Engine.withFuel fuel digests).call callee args).EndsIn m m') : m'.Founded where
  grounded := Lasting.inv_of_endsIn (((Lasting.grounded_steps digests).knot fuel).call callee args)
    h.grounded hend
  housed := h.housed.endsIn
    ((unreserved_knot fuel).call trivial fun _ _ => trivial) hend

end Machine

end housed
end ScriptVM
