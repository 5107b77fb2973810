import ScriptVM.Proofs.Collection.Complete
import ScriptVM.Proofs.Disposal.Session
import ScriptVM.Proofs.Likeness.Shared

/-!
# Garbage of a machine

Whatever a machine does that lets go of its frames, its arena stays intact, so a collection counts
exactly what refers to each object and to each frame. When its search comes to an end, every frame that
is left could be reached from the running activations, from the built-in types, or from a cycle of
objects that no frame leads to. The last is all that a collection misses: it looks for garbage from idle
frames only, so it never finds such a cycle.
-/
namespace ScriptVM

/-! ## Exact counts -/

namespace Machine

variable {m : Machine} {id : FrameId}

/-- References that are counted afresh are counted exactly. -/
theorem exact_holding (h : m.arena.Intact) (also : List Reference) : (m.holding also).Exact :=
  ⟨Holding.balanced_ofState .., h.sameBut (m.sameBut_holding also)⟩

theorem intact_settleDropped (h : m.arena.Intact) (also : List Reference) :
    (m.holding also).settleDropped.arena.Intact :=
  (Holding.persistent_exact.steady.settleDropped (exact_holding h also)).intact

theorem intact_release (h : m.arena.Intact) (also : List Reference) (id : FrameId) :
    ((m.holding also).release id).arena.Intact := by
  have hexact := exact_holding h also
  cases hf : (m.holding also).arena.get? id with
  | none =>
    simp only [Holding.release, hf]
    exact hexact.intact
  | some f => exact (hexact.release hf).intact

theorem intact_collected (h : m.arena.Intact) : m.collected.Intact :=
  (Holding.persistent_exact.collect (exact_holding h [])).intact

end Machine

/-! ## Machines with intact arenas -/

namespace Likeness

/-- Machines with intact arenas, each compared with itself. -/
def tending : Likeness where
  World := Unit
  le _ _ := True
  refl _ := trivial
  trans _ _ := trivial
  good _ := True
  function _ _ := True
  classDef _ _ := True
  generator _ _ := True
  function_mono _ h := h
  classDef_mono _ h := h
  generator_mono _ h := h
  generator_exhaust h := h
  generator_buffer _ h := h
  table _ := True
  table_empty := trivial
  table_put _ _ _ _ h := h
  admits _ := True
  admits_ordinary _ := trivial
  rest _ m n := n = m ∧ m.arena.Intact
  rest_heap := by
    rintro - m n h - ⟨rfl, hm⟩
    exact ⟨rfl, hm⟩

variable {α : Type} {w : tending.World} {m n : Machine} {id : FrameId} {x : Run α} {e : Engine}
  {digests : Digests}

theorem alike_tending (h : m.arena.Intact) : tending.Alike w m m where
  heap := rfl
  types := rfl
  sound _ _ := .of_good (fun _ => trivial) (fun _ => trivial) (fun _ => trivial)
    (fun _ _ => trivial) fun _ _ => trivial
  fresh _ _ := trivial
  goodTypes _ _ _ := trivial
  rest := ⟨rfl, h⟩

theorem Alike.intact (h : tending.Alike w m n) : m.arena.Intact := h.rest.2

theorem Alike.eq_of_tending (h : tending.Alike w m n) : n = m := h.rest.1

/-! ### Computations on frames -/

theorem sharesFrames_tending : tending.SharesFrames where
  arena h := congrArg Machine.arena h.eq_of_tending
  good _ := trivial
  admits _ := trivial

/-- Changes of a frame that leave its slot and its kin alone. -/
theorem allows_tending {change : Frame → Frame} (hslot : ∀ f, (change f).slot = f.slot)
    (hkin : ∀ f, (change f).parent = f.parent ∧ (change f).children = f.children) :
    tending.Allows w id change := by
  intro m n h
  cases h.eq_of_tending
  exact alike_tending (h.intact.modify id (fun f _ => hslot f) fun f _ => hkin f)

theorem agree_modifyFrame_tending {change : Frame → Frame} (hslot : ∀ f, (change f).slot = f.slot)
    (hkin : ∀ f, (change f).parent = f.parent ∧ (change f).children = f.children) :
    tending.Agree w (Run.modifyFrame id change) (Run.modifyFrame id change) fun _ _ => True :=
  sharesFrames_tending.modifyFrame (allows_tending hslot hkin)

theorem agree_define_tending (id : FrameId) (name : String) (v : Value) :
    tending.Agree w (Run.define id name v) (Run.define id name v) fun _ _ => True :=
  agree_modifyFrame_tending (fun _ => rfl) fun _ => ⟨rfl, rfl⟩

theorem agree_pushAll_tending (id : FrameId) (vs : List Value) :
    tending.Agree w (Run.pushAll id vs) (Run.pushAll id vs) fun _ _ => True :=
  agree_modifyFrame_tending (fun _ => rfl) fun _ => ⟨rfl, rfl⟩

theorem agree_activate_tending (id : FrameId) :
    tending.Agree w (Run.activate id) (Run.activate id) fun _ _ => True :=
  agree_modifyFrame_tending (fun _ => rfl) fun _ => ⟨rfl, rfl⟩

theorem agree_retain_tending (id : FrameId) :
    tending.Agree w (Run.retain id) (Run.retain id) fun _ _ => True :=
  (sharesFrames_tending.retain (allows_tending (fun _ => rfl) fun _ => ⟨rfl, rfl⟩)).mono
    fun _ _ _ _ => trivial

theorem agree_newFrame_tending (he : e.tracks = true) (also : List Reference)
    (parent : Option FrameId) (object : Option Value) (bindsObject : Bool) :
    tending.Agree w (e.newFrame also parent object bindsObject)
      (e.newFrame also parent object bindsObject) fun _ _ => True := by
  have hsettled : tending.Agree w (Run.settleDropped also) (Run.settleDropped also)
      fun _ _ => True := .modify fun m n h => by
    cases h.eq_of_tending
    exact alike_tending (Machine.intact_settleDropped h.intact also)
  unfold Engine.newFrame
  rw [if_pos he]
  refine hsettled.bind fun w _ _ _ m n h => ?_
  cases h.eq_of_tending
  simp only [Run.newFrame, Run.modifyGet_apply]
  exact ⟨rfl, w, trivial, trivial, alike_tending (h.intact.alloc parent object bindsObject)⟩

theorem agree_trace_tending (position : Nat) (i : Instruction) :
    tending.Agree w (Run.trace position i) (Run.trace position i) fun _ _ => True := by
  intro m n h
  cases h.eq_of_tending
  refine ⟨rfl, w, trivial, trivial, ?_⟩
  dsimp only
  split
  · exact alike_tending h.intact
  · exact h

/-- Nothing is asked of frames. -/
def tendingFrames : Frames tending where
  runs _ _ := True
  scope _ _ := True
  runs_mono _ h := h
  scope_of_function _ := trivial
  function_of_scope _ := trivial
  scope_of_classDef _ := trivial
  classDef_of_scope _ := trivial
  generator_of_scope _ _ := trivial
  generator_suspend _ h := h
  admits_frame _ := trivial
  define name v _ _ := agree_define_tending _ name v
  push _ _ := agree_pushAll_tending _ [_]
  pop _ := (sharesFrames_tending.pop fun _ => allows_tending (fun _ => rfl) fun _ => ⟨rfl, rfl⟩).mono
    fun _ _ _ _ => trivial
  popMany count _ := (sharesFrames_tending.popMany
    (fun _ => allows_tending (fun _ => rfl) fun _ => ⟨rfl, rfl⟩) count).mono
    fun _ _ _ _ _ _ => trivial
  top _ := sharesFrames_tending.top.mono fun _ _ _ _ => trivial
  last _ := sharesFrames_tending.last.mono fun _ _ _ _ _ _ => trivial
  setLast _ _ := agree_modifyFrame_tending (fun _ => rfl) fun _ => ⟨rfl, rfl⟩
  assign _ _ _ _ := sharesFrames_tending.assign
    (allows_tending (fun _ => rfl) fun _ => ⟨rfl, rfl⟩)
  resolve name _ := (sharesFrames_tending.resolve name).mono fun _ _ _ _ _ _ => trivial
  retain _ := agree_retain_tending _
  retainMethodScope _ := sharesFrames_tending.methodScope.bind fun _ id _ _ =>
    agree_retain_tending id
  trace position i := agree_trace_tending position i

/-! ### Activations -/

/-- However many activations end, an arena stays intact. -/
theorem Alike.unwindBy_tending (h : tending.Alike w m n) (also : List Reference) (depth : Nat) :
    tending.Alike w (m.unwindBy .releasing also depth) (n.unwindBy .releasing also depth) := by
  cases h.eq_of_tending
  exact alike_tending (List.foldlRecOn (motive := fun k : Machine => k.arena.Intact) _ _ h.intact
    fun _ hk id _ => Machine.intact_release hk also id)

theorem agree_activationBy_tending (id : FrameId) {x y : Run (Value × Cursor)}
    (hxy : tending.Agree w x y fun _ _ => True) :
    tending.Agree w (Run.activationBy .releasing id x) (Run.activationBy .releasing id y)
      fun _ _ => True := by
  intro m n h
  cases h.eq_of_tending
  have hadmits : Disposal.releasing.admits m id = true := rfl
  unfold Run.activationBy
  simp only [hadmits, Bool.true_eq_false, if_false]
  split
  · exact ⟨rfl, trivial, w, trivial, alike_tending (Machine.intact_release h.intact [] id)⟩
  · have hpushed : tending.Alike w { m with callStack := m.callStack.push id }
        { m with callStack := m.callStack.push id } := alike_tending h.intact
    refine (hxy _ _ hpushed).byEnds (fun _ _ _ => trivial) ?_ ?_
    · intro r k l w' hw _ halike
      exact ⟨rfl, w', hw, trivial, halike.unwindBy_tending [.value r.1] m.depth⟩
    · intro f k l w' hw hadmits halike
      exact ⟨rfl, hadmits, w', hw, halike.unwindBy_tending (Stop.failed f).references m.depth⟩

theorem agree_keep_tending {x y : Run α} {p : tending.World → α → Prop} (refs : List Reference)
    (h : tending.Agree w x y p) : tending.Agree w (e.keep refs x) (e.keep refs y) p :=
  h.keep_of_eq (fun h => h.eq_of_tending) (fun _ hm => alike_tending hm.intact) refs

/-- An engine that keeps track of what it holds on to, and whose activations leave arenas intact. -/
structure EntersTending (e : Engine) : Prop where
  tracks : e.tracks = true
  enter : ∀ {w : tending.World} (id : FrameId) (c : Cursor),
    tending.Agree w (e.enter id c) (e.enter id c) fun _ _ => True

theorem EntersTending.runIn (h : EntersTending e) (scope : FrameId) (object : Option Value)
    (bindsObject : Bool) (self : Value) (operands : List Value) (body : View) :
    tending.Agree w (e.runIn scope object bindsObject self operands body)
      (e.runIn scope object bindsObject self operands body) fun _ _ => True := by
  refine (agree_newFrame_tending h.tracks _ _ _ _).bind fun _ id _ _ => ?_
  refine (agree_define_tending id _ self).bind fun _ _ _ _ => ?_
  refine (agree_pushAll_tending id operands).bind fun _ _ _ _ => ?_
  exact (h.enter id _).bind fun _ _ _ _ => .pure trivial

theorem EntersTending.runOperation (h : EntersTending e) (g : Value) (state : Generator)
    (values : List Value) :
    tending.Agree w (e.runOperation g state values) (e.runOperation g state values)
      fun _ _ => True := by
  have hframe : tending.Agree w (e.generatorFrame g state values) (e.generatorFrame g state values)
      fun _ _ => True := by
    unfold Engine.generatorFrame
    split
    · exact (agree_activate_tending _).bind fun _ _ _ _ => .pure trivial
    · refine (agree_newFrame_tending h.tracks _ _ _ _).bind fun _ _ _ _ => ?_
      refine (agree_retain_tending _).bind fun _ id _ _ => ?_
      refine (agree_modifyHeap fun m n hmn => ?_).bind fun _ _ _ _ => .pure trivial
      exact hmn.changeGenerator trivial (fun s _ hs => ⟨trivial, hs.2⟩)
        fun _ => .ofGenerator ⟨rfl, rfl, rfl, rfl⟩
  refine hframe.bind fun _ id _ _ => ?_
  exact (agree_pushAll_tending id values).bind fun _ _ _ _ => h.enter id _

theorem tending_knot (digests : Digests) (fuel : Nat) :
    Fading.Knot tendingFrames.steady (.disposing .releasing digests fuel)
      (.disposing .releasing digests fuel) :=
  releasing_knot EntersTending (fun _ => trivial) (agree_keep_tending _) EntersTending.runIn
    (fun h g state _ values => h.runOperation g state values) ⟨rfl, fun _ _ => .giveUp⟩
    (fun _ hrun => ⟨rfl, fun id c => agree_activationBy_tending id (hrun c trivial)⟩) fuel

/-! ### Sessions -/

theorem alike_reset_tending (h : m.arena.Intact) (also : List Reference) :
    tending.Alike () (m.resetBy .releasing also) (m.resetBy .releasing also) := by
  have hallows : tending.Allows () (m.unwindBy .releasing also 1).globals
      fun f : Frame => { f with stack := [], last := none } :=
    allows_tending (fun _ => rfl) fun _ => ⟨rfl, rfl⟩
  exact hallows _ _ ((alike_tending h).unwindBy_tending also 1)

theorem agree_executeBy_tending {e e' : Engine} {code : Cursor}
    (h : ∀ id, tending.Agree () (e.run id code) (e'.run id code) fun _ r => tending.good r.1) :
    tending.Agree () (e.executeBy .releasing code) (e'.executeBy .releasing code)
      fun _ v => tending.good v := by
  intro m n hmn
  cases hmn.eq_of_tending
  unfold Engine.executeBy
  refine (h m.globals m m hmn).byEnds (fun _ _ _ => trivial) ?_ ?_
  · intro r k l w' hw hgood halike
    exact ⟨rfl, w', hw, hgood, halike⟩
  · intro f k l w' hw hadmits halike
    cases halike.eq_of_tending
    exact ⟨rfl, hadmits, w', hw, alike_reset_tending halike.intact _⟩

theorem agree_global_tending (name : String) :
    tending.Agree w (Engine.global? name) (Engine.global? name) fun _ r => ∀ v ∈ r, tending.good v := by
  intro m n h
  cases h.eq_of_tending
  have hresolve : tending.Agree w (Run.resolve m.globals name) (Run.resolve m.globals name)
      fun _ _ => True := sharesFrames_tending.resolve name
  exact hresolve.mono (fun _ _ _ _ _ _ => trivial) m m h

theorem Alike.defineGlobal_tending (h : tending.Alike w m n) (name : String) (v : Value) :
    tending.Alike w (m.defineGlobal name v) (n.defineGlobal name v) := by
  cases h.eq_of_tending
  have hallows : tending.Allows w m.globals fun f => f.define name v :=
    allows_tending (fun _ => rfl) fun _ => ⟨rfl, rfl⟩
  exact hallows m m h

/-- Every request leaves the arena intact. -/
theorem agree_serve_tending (fuel : Nat) (r : Request Value) :
    tending.Agree () ((Service.disposing .releasing digests fuel).serve r)
      ((Service.disposing .releasing digests fuel).serve r)
      fun _ a => ∀ v ∈ a.values, tending.good v := by
  have K : Fading.Knot tendingFrames.steady (Service.disposing .releasing digests fuel).engine
      (Service.disposing .releasing digests fuel).engine := tending_knot digests fuel
  refine later_steady.1 (K.serve (fun _ _ => trivial) (fun _ _ => lasts_steady trivial)
    (fun code _ => later_steady.2 (agree_executeBy_tending fun id =>
      later_steady.1 ((tending_knot digests fuel).run trivial code)))
    (fun name _ => later_steady.2 (agree_global_tending name))
    (fun name v _ => later_steady.2 (.modify fun m n h => h.defineGlobal_tending name v))
    (fun _ => later_steady.2 (.modify fun m n h => ?_))
    fun _ => later_steady.2 (.modify fun m n h => ?_))
  · cases h.eq_of_tending
    exact alike_reset_tending h.intact []
  · cases h.eq_of_tending
    have hcollected := Machine.intact_collected h.intact
    change tending.Alike () m.collectGarbage m.collectGarbage
    rw [Machine.collectGarbage_eq]
    generalize m.collected = a at hcollected ⊢
    exact alike_tending hcollected

theorem takes_tending (fuel : Nat) : tending.Takes () (.disposing .releasing digests fuel)
    (.disposing .releasing digests fuel) where
  ask t _ := agree_ask (fun _ name _ => agree_global_tending name)
    (fun _ r _ _ => agree_keep_tending _ (agree_serve_tending fuel r)) t
  define name v _ h _ := h.defineGlobal_tending name v
  raised _ := trivial

end Likeness

/-! ## What a collection leaves -/

open Likeness
open Relation (ReflTransGen TransGen)

namespace Machine

variable {config : Config} {m : Machine} {id : FrameId} {x : Target} {also : List Reference}

theorem intact_new (config : Config) : (new config).arena.Intact := by
  refine new_induction (P := fun m => m.arena.Intact) config ?_ fun m tag h => ?_
  · exact Arena.intact_empty.alloc none none false
  · exact h.modify m.globals (fun _ _ => rfl) fun _ _ => ⟨rfl, rfl⟩

/-- A target can be reached from another one. -/
def Leads (m : Machine) : Target → Target → Prop := (m.holding []).Leads

/-- An object on a cycle of objects that no frame leads to which something holds. -/
def Lost (m : Machine) (v : Value) : Prop := (m.holding []).settleDropped.Lost v

theorem referents_holding (m : Machine) (also : List Reference) (x : Target) :
    (m.holding also).referents x = m.referents x :=
  referents_of_same rfl (m.sameBut_holding also) x

theorem isLive_holding (m : Machine) (also : List Reference) (id : FrameId) :
    (m.holding also).arena.isLive id = m.arena.isLive id := by
  rw [Arena.isLive, ← Option.isSome_map (f := Frame.unheld), (m.sameBut_holding also).unheld,
    Option.isSome_map, Arena.isLive]

/-- What the counts are rooted in is what the machine is rooted in. -/
theorem rooted_of_holding (hx : (m.holding also).Rooted x) : m.Rooted also x := by
  induction hx with
  | active hf hactive =>
    obtain ⟨n, hn⟩ := (m.sameBut_holding also).get? hf
    exact .active hn hactive
  | kept hr =>
    obtain ⟨q, hq, htarget⟩ := Holding.target_of_mem_kept hr
    rcases List.mem_append.1 hq with htype | hheld
    · obtain ⟨v, hv, rfl⟩ := List.mem_map.1 htype
      exact htarget ▸ .type hv
    · exact htarget ▸ .held hheld
  | refers _ hr ih => exact .refers ih (m.referents_holding also _ ▸ hr)

end Machine

namespace Service

variable {config : Config} {digests : Digests} {fuel : Nat} {turns : List Turn} {seen : List Seen}
  {m : Machine}

/-- After a session with a machine that lets go of its frames, its arena is intact. -/
theorem intact_session
    (hs : (disposing .releasing digests fuel).session turns (.new config) = some (seen, m)) :
    m.arena.Intact := by
  have hnew := alike_tending (w := ()) (Machine.intact_new config)
  obtain ⟨_, n, w, -, -, halike⟩ := (takes_tending fuel).session trivial hnew hs
  exact halike.intact

/-- What a collection leaves when its search for garbage comes to an end: of the frames that were live,
those that can be reached from the running activations, from the built-in types, or from what the
machine holds on to, and those that a lost object leads to, one on a cycle of objects that no frame
leads to which something holds. Nothing else stays live, whatever cycles there are among the frames and
the objects, and whatever frames the machine let go of before. -/
theorem collectGarbage_leaves
    (hs : (disposing .releasing digests fuel).session turns (.new config) = some (seen, m))
    (hlimit : (m.holding []).finalSearch.isOverLimit = false) (id : FrameId) :
    m.collectGarbage.arena.isLive id = true ↔ m.arena.isLive id = true ∧
      (m.Rooted [] (.frame id) ∨ ∃ v, m.Lost v ∧ m.Leads (.object v) (.frame id)) := by
  have hintact := intact_session hs
  have hexact := Machine.exact_holding hintact []
  have hsettled := Holding.shrinks_settleDropped hexact.sound
  have hrest := Holding.shrinks_collect hexact.sound
  have harena : m.collectGarbage.arena = (m.holding []).collect.arena := by
    rw [Machine.collectGarbage_eq, Machine.collected]
  rw [harena, ← m.isLive_holding []]
  constructor
  · intro hid
    refine ⟨hrest.isLive_of hid, ?_⟩
    rcases hexact.anchored_of_collect hlimit hid with hrooted | ⟨v, hlost, hlead⟩
    · exact .inl (Machine.rooted_of_holding (hsettled.thins.rooted_of hrooted))
    · exact .inr ⟨v, hlost, hsettled.thins.leads_of hlead⟩
  · rintro ⟨hid, hrooted | ⟨v, hlost, hlead⟩⟩
    · obtain ⟨f, hf⟩ := Option.isSome_iff_exists.1 hid
      have hmirror := Machine.mirrors_holding hintact.lineage.countsChildren []
      obtain ⟨f', hf', -⟩ := hrest.rooted id f hf (hrooted.mirror hmirror)
      exact Arena.isLive_of_get? hf'
    · have hcycle : TransGen (m.holding []).heap.Links v v := hsettled.heap ▸ hlost.cycle
      have hhas : (m.holding []).has v = true := Tally.has_ofState m.arena _ hcycle
      obtain ⟨hhas', hlead', hlive'⟩ := hexact.settleDropped_of_cycle hhas hcycle hlead hid
      exact hexact.isLive_collect_of_lost hlimit hlost hhas' hlead' hlive'

end Service
end ScriptVM
