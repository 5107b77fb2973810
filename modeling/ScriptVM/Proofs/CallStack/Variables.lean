import ScriptVM.Proofs.CallStack.Discipline
import ScriptVM.Proofs.CallStack.Vigil
import ScriptVM.Proofs.Code.Course
import ScriptVM.Proofs.Disposal.Session

/-!
# Variables of the frames around a call

A call binds names in frames of its own, in the frames of generators that it resumes, and in objects.
The variables of every other frame are what they were when the call is over, however it ends: those
of the caller, of the scope that the callee was defined in, and of the global frame. Frames are freed
meanwhile, and their slots are used again. Those on the call stack are active whenever something is
called, and so none of them is freed by the call, or gives its slot to another one.
-/
namespace ScriptVM

/-! ## Machines in order -/

/-- Every frame on the call stack is active, parents of live frames are live, and each live frame has a
slot to itself. -/
structure Machine.InOrder (m : Machine) : Prop where
  attended : m.Attended
  family : m.arena.CountsChildren
  slotted : m.arena.Slotted

instance (m : Machine) : Decidable m.InOrder :=
  decidable_of_iff (m.Attended ∧ m.arena.CountsChildren ∧ m.arena.Slotted)
    ⟨fun h => ⟨h.1, h.2.1, h.2.2⟩, fun h => ⟨h.attended, h.family, h.slotted⟩⟩

/-- Frames are released, but only as long as none of those that are needed is gone and the machine is in
order whenever something is called. -/
def Disposal.attentive : Disposal := { Disposal.wary with allows := fun m => decide m.InOrder }

namespace Likeness

section attending

variable {α : Type} {w : Vigil} {m n : Machine} {id : FrameId} {x y : Run α} {p : Vigil → α → Prop}
  {e e' : Engine} {digests : Digests} {fuel : Nat} {r : Request Value}

theorem Alike.inOrder_of_attending (h : attending.Alike w m n) : m.InOrder := by
  have hm := h.attends
  refine ⟨fun id hid => ?_, hm.family, hm.slotted⟩
  rw [hm.calls] at hid
  obtain ⟨f, hf, hle⟩ := hm.active id (w.attended id hid)
  exact ⟨f, hf, Nat.lt_of_lt_of_le (w.attended id hid) hle⟩

/-- It does not matter to the frames what the machine holds on to. -/
theorem agree_keep_attending (refs : List Reference) (h : attending.Agree w x y p) :
    attending.Agree w (e.keep refs x) (e.keep refs y) p :=
  h.keep_of_eq (fun h => h.eq_of_attending)
    (fun _ hm => hm.reattend ⟨hm.attends.calls, hm.attends.active,
    hm.attends.keeps, hm.attends.family, hm.attends.slotted⟩ rfl rfl) refs

/-! ## Calls -/

/-- Engines that run code in any frame that is not watched, and let go of it. -/
structure EntersAttending (e : Engine) : Prop where
  tracks : e.tracks = true
  enter : ∀ {w : Vigil} {id : FrameId} (c : Cursor), ¬ w.watched id →
    Exits w id (e.enter id c) (e.enter id c) fun _ => True

theorem EntersAttending.runIn (h : EntersAttending e) (scope : FrameId) (object : Option Value)
    (bindsObject : Bool) (self : Value) (operands : List Value) (body : View) :
    attending.Agree w (e.runIn scope object bindsObject self operands body)
      (e.runIn scope object bindsObject self operands body) fun _ _ => True := by
  refine agree_newFrame_attending h.tracks fun id hid => ?_
  refine (agree_define_attending (w := w.enter id) hid _ self).bind_exits fun _ _ => ?_
  refine (agree_pushAll_attending operands).bind_exits fun _ _ => ?_
  exact (h.enter _ hid).bind fun _ _ => .pure trivial

/-- The frame of a generator is not watched. -/
theorem EntersAttending.runOperation (h : EntersAttending e) (g : Value) {state : Generator}
    (hstate : attending.generator w state) (values : List Value) :
    attending.Agree w (e.runOperation g state values) (e.runOperation g state values)
      fun _ _ => True := by
  have hrest : ∀ {id : FrameId}, ¬ w.watched id → Exits w id
      (do Run.pushAll id values; e.enter id (Engine.startOf state))
      (do Run.pushAll id values; e.enter id (Engine.startOf state)) fun _ => True :=
    fun hid => (agree_pushAll_attending values).bind_exits fun _ _ => h.enter _ hid
  cases hframe : state.frame with
  | some id =>
    simp only [Engine.runOperation, Engine.generatorFrame, hframe, bind_assoc, pure_bind]
    exact agree_activate_attending (hrest (hstate id hframe))
  | none =>
    simp only [Engine.runOperation, Engine.generatorFrame, hframe, bind_assoc, pure_bind]
    refine agree_newFrame_attending h.tracks fun id hid => ?_
    refine (agree_retain_attending id).bind_exits fun other hother => ?_
    subst hother
    refine Agree.bind_exits (p := fun _ _ => True) ?_ fun _ _ => hrest hid
    refine agree_changeGenerator trivial (fun s hs => ⟨?_, hs.2⟩) fun _ =>
      .ofGenerator ⟨rfl, rfl, rfl, rfl⟩
    rintro _ ⟨⟩
    exact hid

/-- A machine that lets go of its frames leaves watched variables alone. -/
theorem attending_knot (digests : Digests) (fuel : Nat) :
    Fading.Knot attendingFrames.steady (.disposing .releasing digests fuel)
      (.disposing .releasing digests fuel) :=
  releasing_knot EntersAttending (fun _ => trivial) (agree_keep_attending _) EntersAttending.runIn
    EntersAttending.runOperation ⟨rfl, fun _ _ _ _ _ => trivial⟩
    (fun _ hrun => ⟨rfl, fun {w id} c hid => exits_activation (hrun (w := w.push id) c hid)⟩) fuel

/-- What calls do, seen by a vigil. -/
theorem agree_serve_attending (hr : r.isCall = true) :
    attending.Agree w ((Service.disposing .releasing digests fuel).serve r)
      ((Service.disposing .releasing digests fuel).serve r) fun _ a => ∀ v ∈ a.values, True := by
  have K : Fading.Knot attendingFrames.steady (Service.disposing .releasing digests fuel).engine
      (Service.disposing .releasing digests fuel).engine := attending_knot digests fuel
  refine later_steady.1 (K.serve (fun _ _ => trivial) (fun _ _ => lasts_steady trivial) ?_ ?_ ?_ ?_ ?_)
  all_goals
    intros
    subst r
    cases hr

end attending
end Likeness

/-! ## Calls on machines in order -/

open Likeness

/-- The vigil over some frames of a machine. -/
def Machine.vigil (m : Machine) (hm : m.Attended) (watched : FrameId → Prop) : Vigil where
  calls := m.callStack
  active id := (m.arena.get? id).elim 0 Frame.active
  attended id hid := by
    obtain ⟨f, hf, hpos⟩ := hm id hid
    rw [hf]
    exact hpos
  watched := watched
  before := m.arena

variable {m m' n : Machine} {config : Config} {fuel : Nat} {r : Request Value} {digests : Digests}
  {turns : List Turn}

/-- Live frames that no generator has for its own can be watched. -/
theorem Machine.InOrder.alike_vigil (hm : m.InOrder) (watched : FrameId → Prop)
    (hlive : ∀ id, watched id → m.arena.isLive id = true)
    (hplain : ∀ id, watched id → ¬ m.IsGeneratorFrame id) :
    attending.Alike (m.vigil hm.attended watched) m m where
  heap := rfl
  types := rfl
  sound v _ := by
    refine .of_good (fun _ => trivial) (fun _ => trivial) (fun _ => trivial) (fun g hg => ?_)
      fun _ _ => trivial
    exact fun id hid hwatched => hplain id hwatched ⟨v, g, hg, hid⟩
  fresh _ _ := trivial
  goodTypes _ _ _ := trivial
  rest := by
    refine ⟨rfl, rfl, fun id hid => ?_, ⟨fun id hid => ?_, fun id f _ hf => ⟨f, hf, rfl, rfl⟩⟩,
      hm.family, hm.slotted⟩
    · change 0 < (m.arena.get? id).elim 0 Frame.active at hid
      change ∃ f, m.arena.get? id = some f ∧ (m.arena.get? id).elim 0 Frame.active ≤ f.active
      cases hf : m.arena.get? id with
      | none =>
        rw [hf] at hid
        exact absurd hid (Nat.lt_irrefl 0)
      | some f => exact ⟨f, rfl, Nat.le_refl _⟩
    · obtain ⟨f, hf⟩ := Option.isSome_iff_exists.1 (hlive id hid)
      exact Arena.serial_lt_of_get? hf

/-- After a call the machine is in order again, with the call stack that it had, and the frames that
are left have the variables that they had and are in the slots in which they were. -/
theorem Machine.InOrder.served (hm : m.InOrder) (hr : r.isCall = true)
    (hend : ((Service.disposing .releasing digests fuel).serve r).EndsIn m m') :
    m'.callStack = m.callStack ∧ m'.InOrder ∧
    ∀ id f f', ¬ m.IsGeneratorFrame id → m.arena.get? id = some f → m'.arena.get? id = some f' →
      f'.vars = f.vars ∧ f'.slot = f.slot := by
  have halike := hm.alike_vigil (fun id => m.arena.isLive id = true ∧ ¬ m.IsGeneratorFrame id)
    (fun _ h => h.1) fun _ h => h.2
  obtain ⟨n', w', -, hw, hafter⟩ := (agree_serve_attending hr).endsIn halike hend
  cases hw
  refine ⟨hafter.attends.calls, hafter.inOrder_of_attending, fun id f f' hplain hf hf' => ?_⟩
  obtain ⟨g, hg, hsame⟩ := hafter.attends.keeps.same id f' ⟨Arena.isLive_of_get? hf, hplain⟩ hf'
  cases hf.symm.trans hg
  exact hsame

/-! ## Sessions -/

theorem Likeness.Alike.inOrder {left right : Bool} {good : Value → Prop} {w : Knowledge}
    (h : (sharing left right good).Alike w m n) : m.InOrder := by
  refine ⟨fun id hid => ?_, h.shares.left.family, h.shares.slotsLeft⟩
  have hactive := w.attended id (h.calls ▸ hid)
  obtain ⟨f, hf, hle⟩ := h.shares.left.active id hactive
  exact ⟨f, hf, Nat.lt_of_lt_of_le hactive hle⟩

theorem Disposal.careful_attentive : attentive.Careful where
  finish := careful_wary.finish
  collect := careful_wary.collect
  allows h := decide_eq_true h.inOrder
  admits := careful_wary.admits
  passes := careful_wary.passes

/-- A host that keeps what it gets leaves a machine between requests. -/
theorem takes_standing (root : FrameId) : standing.Takes (config.standpoint root)
    (.withFuel fuel digests) (.withFuel fuel digests) where
  ask t hw := by
    cases hw
    refine agree_ask (fun w' name hw' => ?_) (fun w' r hw' _ => ?_) t
    · cases hw'
      exact (agree_global_standing name).mono fun _ _ _ _ _ _ => trivial
    · cases hw'
      rw [Engine.keep_of_plain (e := (Service.withFuel fuel digests).engine)
        (Engine.tracks_withFuel fuel digests)]
      exact (agree_serve_standing fuel r).mono fun _ _ _ _ _ _ => trivial
  define name v hw h _ := by
    cases hw
    exact h.defineGlobal_standing name v
  raised _ := trivial

theorem Machine.IsIdle.session (h : m.IsIdle config) {seen : List Seen}
    (hs : (Service.withFuel fuel digests).session turns m = some (seen, m')) : m'.IsIdle config := by
  obtain ⟨_, n', w', -, hw, halike⟩ := (takes_standing m.globals).session rfl h hs
  cases hw
  exact halike.isIdle

theorem Machine.IsIdle.not_isGeneratorFrame_globals (h : m.IsIdle config) :
    ¬ m.IsGeneratorFrame m.globals := by
  rintro ⟨v, g, hg, hframe⟩
  have hkind := (h.sound v trivial).kind
  rw [show (m.heap.get v).kind = .generator g from hg] at hkind
  exact hkind.1 hframe

/-- After a session a machine that lets go of its frames is in order, and no generator runs in the
global frame. -/
theorem Service.inOrder_session {seen : List Seen}
    (hs : (disposing .releasing digests fuel).session turns (.new config) = some (seen, m)) :
    m.InOrder ∧ ¬ m.IsGeneratorFrame m.globals := by
  obtain ⟨-, n, hn, good, w, halike, -, -⟩ := (Machine.parallel_new config).session
    Disposal.careful_releasing Disposal.careful_freeing turns hs
  rw [disposing_freeing] at hn
  have hplain := ((Machine.isIdle_new config).session hn).not_isGeneratorFrame_globals
  have hglobals : n.globals = m.globals := halike.symm_sharing.root.trans halike.root.symm
  refine ⟨halike.inOrder, ?_⟩
  rwa [hglobals, Machine.IsGeneratorFrame, halike.heap] at hplain

/-- Whatever is called with whatever arguments, and however the call ends, the frames on the call stack
that are not the frame of a generator have the variables after it that they had before it, and so has
every other frame that is left. Frames are freed meanwhile, and slots are used again, but none of these:
the frames on the call stack are live before and after, in slots that they have to themselves. All that
is asked of the machine is that it is in order. It is between the requests of every session, and whenever
something is called in the course of one: the attentive machine never has to give up, and it would also
do so rather than run a body outside of its scope, or fail because a frame is missing. -/
theorem Service.calls_keep_variables (config : Config) (fuel : Nat) (turns : List Turn) :
    (∀ (k k' : Machine) (r : Request Value), k.InOrder → r.isCall = true →
      ((disposing .releasing digests fuel).serve r).EndsIn k k' →
      k'.callStack = k.callStack ∧ k'.InOrder ∧
      (∀ id ∈ k.callStack.frames, ¬ k.IsGeneratorFrame id → ∃ f f', k.arena.get? id = some f ∧
        k'.arena.get? id = some f' ∧ f'.vars = f.vars ∧ f'.slot = f.slot ∧
        k.arena.idInSlot? f.slot = some id ∧ k'.arena.idInSlot? f.slot = some id) ∧
      ∀ id f f', ¬ k.IsGeneratorFrame id → k.arena.get? id = some f →
        k'.arena.get? id = some f' → f'.vars = f.vars) ∧
    (∀ seen m, (disposing .releasing digests fuel).session turns (.new config) = some (seen, m) →
      m.InOrder ∧ ¬ m.IsGeneratorFrame m.globals) ∧
    ((disposing .attentive digests fuel).session turns (.new config)).map Prod.fst =
      ((disposing .releasing digests fuel).session turns (.new config)).map Prod.fst := by
  have hnew : (Machine.new config).Parallel true true (.new config) := Machine.parallel_new config
  refine ⟨fun k k' r hk hr hend => ?_, fun _ _ => inOrder_session,
    hnew.seen_session Disposal.careful_attentive Disposal.careful_releasing turns⟩
  obtain ⟨hcalls, hk', hsame⟩ := hk.served hr hend
  refine ⟨hcalls, hk', fun id hid hplain => ?_, fun id f f' hplain hf hf' =>
    (hsame id f f' hplain hf hf').1⟩
  obtain ⟨f, hf, -⟩ := hk.attended id hid
  obtain ⟨f', hf', -⟩ := hk'.attended id (hcalls ▸ hid)
  obtain ⟨hvars, hslot⟩ := hsame id f f' hplain hf hf'
  exact ⟨f, f', hf, hf', hvars, hslot, hk.slotted.home id f hf, hslot ▸ hk'.slotted.home id f' hf'⟩

/-- Code that binds a name and defines a function that binds the same name. -/
def shadowing : Cursor := .ofList
  [Op.getFalse.at ⟨some 1⟩, Op.push.at ⟨some 1⟩, (Op.assignIdentifier "x").at ⟨some 1⟩,
    (Op.newFunction ⟨some "f", 3, 0⟩).at ⟨some 2⟩, Op.getTrue.at ⟨some 3⟩, Op.push.at ⟨some 3⟩,
    (Op.assignIdentifier "x").at ⟨some 3⟩]

/-- A call of the function leaves the global name alone. -/
theorem Service.calls_keep_variables_shadowed :
    let turns : List Turn := [⟨.execute shadowing, none, none⟩]
    ∃ seen m m' f f', (disposing .releasing .standard 9).session turns (.new .standard) =
      some (seen, m) ∧
      f.vars.get? "f" = some ⟨17⟩ ∧
      ((disposing .releasing .standard 9).serve (.call ⟨17⟩ [])).EndsIn m m' ∧
      m.arena.get? m.globals = some f ∧ m'.arena.get? m.globals = some f' ∧ f'.vars = f.vars := by
  intro turns
  have hbound : ((withFuel 9 .standard).session turns (.new .standard)).bind (fun ended =>
      (ended.2.arena.get? ended.2.globals).bind fun f => f.vars.get? "f") = some ⟨17⟩ := by
    decide +kernel
  have hcalled : ((withFuel 9 .standard).session turns (.new .standard)).map (fun ended =>
      hasEnded ((Engine.withFuel 9 .standard).call ⟨17⟩ [] ended.2)) = some true := by
    decide +kernel
  obtain ⟨⟨seen, n⟩, hs, hname⟩ := Option.bind_eq_some_iff.1 hbound
  obtain ⟨g, hg, hname⟩ := Option.bind_eq_some_iff.1 hname
  rw [hs, Option.map_some] at hcalled
  rw [← disposing_freeing] at hs
  obtain ⟨-, m, hm, hparallel⟩ := (Machine.parallel_new .standard).session
    Disposal.careful_freeing Disposal.careful_releasing turns hs
  obtain ⟨_, h, hg', hh, hview, -⟩ := hparallel.scope .root
  cases hg.symm.trans hg'
  obtain ⟨good, w, halike, hw, -⟩ := hparallel
  have hroot : n.globals = m.globals := halike.root.trans halike.symm_sharing.root.symm
  have hgood : good ⟨17⟩ := halike.visible hw (.var .root hg hname)
  have hnone : ∀ v ∈ ([] : List Value), good v := nofun
  have hends := (sharing_knot Disposal.careful_freeing Disposal.careful_releasing .standard 9).call
    hgood hnone n m halike
  have hended : hasEnded ((disposing .releasing .standard 9).serve (.call ⟨17⟩ []) m) = true := by
    change hasEnded ((Answer.value <$> (Engine.disposing .releasing .standard 9).call ⟨17⟩ []) m) = true
    rw [hasEnded_map]
    refine hends.hasEnded ?_
    rw [Engine.disposing_freeing]
    exact Option.some.inj hcalled
  have hend := Run.endsIn_of_hasEnded hended
  obtain ⟨hcalls, hsessions, -⟩ := calls_keep_variables .standard 9 turns
  obtain ⟨horder, hplain⟩ := hsessions _ m hm
  have hcalling : m.globals ∈ m.callStack.frames := by
    rw [halike.symm_sharing.calls, hw, halike.symm_sharing.root]
    exact .head _
  obtain ⟨-, -, hkept, -⟩ := hcalls _ _ _ horder rfl hend
  obtain ⟨f, f', hf, hf', hvars, -⟩ := hkept _ hcalling hplain
  rw [hroot] at hh
  cases hh.symm.trans hf
  have hsame : h.vars = g.vars := Frame.eq_of_view hview Frame.vars fun _ => rfl
  exact ⟨seen, m, _, h, f', hm, hsame ▸ hname, hend, hf, hf', hvars⟩

end ScriptVM
