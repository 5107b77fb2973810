import ScriptVM.Proofs.Frame.Effect
import ScriptVM.Proofs.Frame.Forget
import ScriptVM.Proofs.Fuel

/-!
# Machines that differ in the operands of one frame

A machine that never activates a certain frame again cannot tell what operands are set aside there,
nor what has been logged. What the sparing machine ends with, it ends with too whatever the operands
of the spared frame are, and so does a machine with more fuel and one that spares no frame.
-/
namespace ScriptVM

/-- What a frame sets aside while something else runs. -/
structure Aside where
  stack : List Value
  last : Option Value

/-- The spared frame is live and active, and has these operands. -/
def Arena.Spares (a : Arena) (spared : Option FrameId) (aside : Aside) : Prop :=
  ∀ id ∈ spared, ∃ f, a.get? id = some f ∧ 0 < f.active ∧ f.stack = aside.stack ∧
    f.last = aside.last

/-- A machine without its log and without the operands of the spared frame. -/
def Machine.forget (spared : Option FrameId) (m : Machine) : Machine :=
  { m with arena := m.arena.forget spared, log := [] }

namespace Arena

variable {spared : Option FrameId} {a : Arena} {aside : Aside}

theorem Spares.serial_lt (h : a.Spares spared aside) : ∀ id ∈ spared, id.serial < a.frames.size := by
  intro id hid
  obtain ⟨f, hf, -⟩ := h id hid
  exact serial_lt_of_get? hf

/-- Operations that leave activity and operands of the spared frame alone. -/
theorem Spares.of_get? {b : Arena} (h : a.Spares spared aside)
    (hb : ∀ id ∈ spared, ∀ f, a.get? id = some f → 0 < f.active →
      ∃ g, b.get? id = some g ∧ g.active = f.active ∧ g.stack = f.stack ∧ g.last = f.last) :
    b.Spares spared aside := by
  intro id hid
  obtain ⟨f, hf, hactive, hstack, hlast⟩ := h id hid
  obtain ⟨g, hg, ha, hs, hl⟩ := hb id hid f hf hactive
  exact ⟨g, hg, by omega, hs.trans hstack, hl.trans hlast⟩

theorem Spares.modify_of_ne {id : FrameId} (h : a.Spares spared aside) (hid : spared ≠ some id)
    (change : Frame → Frame) : (a.modify id change).Spares spared aside := by
  refine h.of_get? fun s hs f hf _ => ⟨f, ?_, rfl, rfl, rfl⟩
  have hne : s ≠ id := fun e => hid (e ▸ hs)
  rw [get?_modify_of_ne a change hne, hf]

theorem Spares.modify {g : Frame → Frame} (h : a.Spares spared aside) (id : FrameId)
    (hactive : ∀ f, f.active ≤ (g f).active) (hstack : ∀ f, (g f).stack = f.stack)
    (hlast : ∀ f, (g f).last = f.last) : (a.modify id g).Spares spared aside := by
  intro s hs
  obtain ⟨f, hf, ha, hstack', hlast'⟩ := h s hs
  rw [get?_modify]
  by_cases hid : s = id
  · refine ⟨g f, ?_, Nat.lt_of_lt_of_le ha (hactive f), (hstack f).trans hstack',
      (hlast f).trans hlast'⟩
    rw [if_pos hid, ← hid, hf, Option.map_some]
  · exact ⟨f, by rw [if_neg hid, hf], ha, hstack', hlast'⟩

theorem Spares.alloc (h : a.Spares spared aside) (parent : Option FrameId) (object : Option Value)
    (bindsObject : Bool) : (a.alloc parent object bindsObject).2.Spares spared aside := by
  refine h.of_get? fun s hs f hf _ => ?_
  exact ⟨_, get?_alloc_of_get? hf parent object bindsObject, rfl, rfl, rfl⟩

theorem Spares.endActivation {id : FrameId} (h : a.Spares spared aside) (hid : spared ≠ some id) :
    (a.endActivation id).Spares spared aside := by
  refine (h.modify_of_ne hid Frame.deactivate).of_get? fun s _ f hf hactive => ?_
  obtain ⟨n, hn⟩ := get?_settle id hf (by omega)
  exact ⟨_, hn, rfl, rfl, rfl⟩

end Arena

namespace Likeness

/-- Machines that are the same but for the operands of the spared frame and the log. The world is
the call stack. -/
def sparing (spared : Option FrameId) (left right : Aside) : Likeness where
  World := CallStack
  le w w' := w' = w
  refl _ := rfl
  trans h h' := h'.trans h
  good _ := True
  function _ _ := True
  classDef _ _ := True
  generator _ _ := True
  function_mono _ h := h
  classDef_mono _ h := h
  generator_mono _ h := h
  generator_exhaust h := h
  generator_buffer _ h := h
  table _ := True
  table_empty := trivial
  table_put _ _ _ _ h := h
  admits _ := True
  admits_ordinary _ := trivial
  rest w m n := n.forget spared = m.forget spared ∧ m.callStack = w ∧
    m.arena.Spares spared left ∧ n.arena.Spares spared right
  rest_heap := by
    rintro w m n h - ⟨hforget, hrest⟩
    refine ⟨?_, hrest⟩
    have hset := congrArg (fun m : Machine => { m with heap := h }) hforget
    exact hset

section sparing

variable {spared : Option FrameId} {left right : Aside} {w : CallStack} {m n : Machine}

theorem soundKind_sparing (w : CallStack) (k : Kind) : (sparing spared left right).SoundKind w k :=
  .of_good (fun _ => trivial) (fun _ => trivial) (fun _ => trivial) (fun _ _ => trivial)
    fun _ _ => trivial

theorem soundObject_sparing (w : CallStack) (o : Object) :
    (sparing spared left right).SoundObject w o :=
  .of_good (fun _ => trivial) (fun _ => trivial) (fun _ => trivial) (fun _ _ => trivial)
    fun _ _ => trivial

theorem alike_sparing (hforget : n.forget spared = m.forget spared) (hcalls : m.callStack = w)
    (hm : m.arena.Spares spared left) (hn : n.arena.Spares spared right) :
    (sparing spared left right).Alike w m n where
  heap := by
    have hheap : (n.forget spared).heap = (m.forget spared).heap := by rw [hforget]
    exact hheap
  types := by
    have htypes : (n.forget spared).types = (m.forget spared).types := by rw [hforget]
    exact htypes
  sound _ _ := soundObject_sparing w _
  fresh _ _ := trivial
  goodTypes _ _ _ := trivial
  rest := ⟨hforget, hcalls, hm, hn⟩

theorem Alike.forget_eq (h : (sparing spared left right).Alike w m n) :
    n.forget spared = m.forget spared := h.rest.1

theorem Alike.arena_eq (h : (sparing spared left right).Alike w m n) :
    n.arena.forget spared = m.arena.forget spared := congrArg Machine.arena h.rest.1

theorem Alike.get?_eq (h : (sparing spared left right).Alike w m n) {id : FrameId}
    (hid : spared ≠ some id) : n.arena.get? id = m.arena.get? id := by
  rw [← Arena.get?_forget_of_ne hid n.arena, h.arena_eq, Arena.get?_forget_of_ne hid]

/-- Frames of both machines are the same but for the operands of the spared one. -/
theorem Alike.size_eq (h : (sparing spared left right).Alike w m n) :
    n.arena.frames.size = m.arena.frames.size := by
  simpa using congrArg (fun a => a.frames.size) h.arena_eq

/-- Changes of the arena that the operands of the spared frame take no part in. -/
theorem Alike.mapArena (h : (sparing spared left right).Alike w m n) {g : Arena → Arena}
    (hforget : ∀ {a : Arena}, (∀ id ∈ spared, id.serial < a.frames.size) →
      (g a).forget spared = g (a.forget spared))
    (hspares : ∀ {a : Arena} {aside}, a.Spares spared aside → (g a).Spares spared aside) :
    (sparing spared left right).Alike w { m with arena := g m.arena }
      { n with arena := g n.arena } := by
  obtain ⟨hmn, hcalls, hm, hn⟩ := h.rest
  refine alike_sparing ?_ hcalls (hspares hm) (hspares hn)
  have harena : (g n.arena).forget spared = (g m.arena).forget spared := by
    rw [hforget hn.serial_lt, hforget hm.serial_lt, h.arena_eq]
  have hset := congrArg (fun k : Machine => { k with arena := (g m.arena).forget spared }) hmn
  simpa only [Machine.forget, harena] using hset

theorem Alike.modifyFrame (h : (sparing spared left right).Alike w m n) {id : FrameId}
    (hid : spared ≠ some id) (change : Frame → Frame) :
    (sparing spared left right).Alike w (m.modifyFrame id change) (n.modifyFrame id change) :=
  h.mapArena (g := fun a => a.modify id change)
    (fun _ => Arena.forget_modify_of_ne hid _ change) fun ha => ha.modify_of_ne hid change

/-! ## Computations on frames -/

theorem Agree.sparing_missing {α : Type} {post : CallStack → α → Prop} {x : Run α} {id : FrameId}
    (hid : spared ≠ some id)
    (hdead : ∀ k : Machine, k.arena.get? id = none → x k = .error (Run.missing id) k)
    (hlive : ∀ m n f, (sparing spared left right).Alike w m n → m.arena.get? id = some f →
      n.arena.get? id = some f → (sparing spared left right).Matches w post (x m) (x n)) :
    (sparing spared left right).Agree w x x post := by
  intro m n h
  have hget := h.get?_eq hid
  cases hf : m.arena.get? id with
  | none =>
    rw [hdead m hf, hdead n (hget.trans hf)]
    exact ⟨rfl, trivial, w, rfl, h⟩
  | some f => exact hlive m n f h hf (hget.trans hf)

theorem agree_modifyFrame {id : FrameId} (hid : spared ≠ some id) (change : Frame → Frame) :
    (sparing spared left right).Agree w (Run.modifyFrame id change) (Run.modifyFrame id change)
      fun _ _ => True := by
  refine Agree.sparing_missing hid (fun _ hk => Run.modifyFrame_of_dead hk change) ?_
  intro m n f h hm hn
  rw [Run.modifyFrame_of_live hm, Run.modifyFrame_of_live hn]
  exact ⟨rfl, w, rfl, trivial, h.modifyFrame hid change⟩

theorem agree_pop {id : FrameId} (hid : spared ≠ some id) :
    (sparing spared left right).Agree w (Run.pop id) (Run.pop id) fun _ _ => True := by
  refine Agree.sparing_missing hid (fun _ hk => Run.frame_bind_of_dead hk _) ?_
  intro m n f h hm hn
  cases hs : f.stack with
  | nil =>
    rw [Run.pop_of_nil hm hs, Run.pop_of_nil hn hs]
    exact ⟨rfl, trivial, w, rfl, h⟩
  | cons v rest =>
    rw [Run.pop_of_cons hm hs, Run.pop_of_cons hn hs]
    exact ⟨rfl, w, rfl, trivial, h.modifyFrame hid _⟩

theorem agree_popMany {id : FrameId} (hid : spared ≠ some id) (count : Nat) :
    (sparing spared left right).Agree w (Run.popMany id count) (Run.popMany id count)
      fun _ _ => True := by
  refine Agree.sparing_missing hid (fun _ hk => Run.frame_bind_of_dead hk _) ?_
  intro m n f h hm hn
  rcases Nat.lt_or_ge f.stack.length count with hlt | hle
  · rw [Run.popMany_of_lt hm hlt, Run.popMany_of_lt hn hlt]
    exact ⟨rfl, trivial, w, rfl, h⟩
  · rw [Run.popMany_of_le hm hle, Run.popMany_of_le hn hle]
    exact ⟨rfl, w, rfl, trivial, h.modifyFrame hid _⟩

theorem agree_top {id : FrameId} (hid : spared ≠ some id) :
    (sparing spared left right).Agree w (Run.top id) (Run.top id) fun _ _ => True := by
  refine Agree.sparing_missing hid (fun _ hk => Run.frame_bind_of_dead hk _) ?_
  intro m n f h hm hn
  cases hs : f.stack with
  | nil =>
    rw [Run.top_of_nil hm hs, Run.top_of_nil hn hs]
    exact ⟨rfl, trivial, w, rfl, h⟩
  | cons v rest =>
    rw [Run.top_of_cons hm hs, Run.top_of_cons hn hs]
    exact ⟨rfl, w, rfl, trivial, h⟩

theorem agree_last {id : FrameId} (hid : spared ≠ some id) :
    (sparing spared left right).Agree w (Run.last id) (Run.last id) fun _ _ => True := by
  refine Agree.sparing_missing hid (fun _ hk => Run.frame_bind_of_dead hk _) ?_
  intro m n f h hm hn
  rw [Run.last_of_live hm, Run.last_of_live hn]
  exact ⟨rfl, w, rfl, trivial, h⟩

theorem agree_assign {id : FrameId} (hid : spared ≠ some id) (name : String) (v : Value) :
    (sparing spared left right).Agree w (Run.assign id name v) (Run.assign id name v)
      fun _ _ => True := by
  refine Agree.sparing_missing hid (fun _ hk => Run.assign_of_dead hk name v) ?_
  intro m n f h hm hn
  rw [Run.assign_of_live hm, Run.assign_of_live hn]
  refine ⟨rfl, w, rfl, trivial, ?_⟩
  unfold Arena.assign
  rw [hm, hn]
  cases (some f).bind fun f => if f.bindsObject = true then f.object else none with
  | none => 
    exact (h.modifyFrame hid fun f => f.define name v)
  | some object =>
    rw [h.heap]
    exact h.setHeap (m.heap.extends_setMember ..) fun _ _ => soundObject_sparing w _

theorem agree_resolve (id : FrameId) (name : String) :
    (sparing spared left right).Agree w (Run.resolve id name) (Run.resolve id name)
      fun _ _ => True := by
  intro m n h
  have hlookup : n.arena.lookup? n.heap id name = m.arena.lookup? m.heap id name := by
    have hforget := congrArg (fun a => a.lookup? m.heap id name) h.arena_eq
    simpa only [Arena.lookup?_forget, h.heap] using hforget
  simp only [Run.resolve, Run.modifyGet_apply, hlookup]
  cases m.arena.lookup? m.heap id name with
  | none => exact ⟨rfl, w, rfl, trivial, h⟩
  | some found =>
    refine ⟨rfl, w, rfl, trivial, ?_⟩
    obtain ⟨hmn, hcalls, hm, hn⟩ := h.rest
    refine alike_sparing ?_ hcalls hm hn
    exact congrArg (fun m : Machine => { m with heap := found.2 }) hmn

theorem agree_trace (i j : Nat) (instruction : Instruction) :
    (sparing spared left right).Agree w (Run.trace i instruction) (Run.trace j instruction)
      fun _ _ => True := by
  intro m n h
  obtain ⟨hmn, hcalls, hm, hn⟩ := h.rest
  have hlog : ∀ (k : Machine) l, (if k.config.trace then { k with log := l } else k).forget spared =
      k.forget spared := by
    intro k l
    split <;> rfl
  refine ⟨rfl, w, rfl, trivial, alike_sparing ?_ ?_ ?_ ?_⟩
  · exact (hlog n _).trans (hmn.trans (hlog m _).symm)
  · dsimp only
    split <;> exact hcalls
  · dsimp only
    split <;> exact hm
  · dsimp only
    split <;> exact hn

theorem agree_retain (id : FrameId) :
    (sparing spared left right).Agree w (Run.retain id) (Run.retain id) fun _ _ => True := by
  intro m n h
  have hlive : n.arena.isLive id = m.arena.isLive id := by
    simpa only [Arena.isLive_forget] using congrArg (fun a => a.isLive id) h.arena_eq
  cases hm : m.arena.get? id with
  | none =>
    have hn : n.arena.get? id = none := by simpa [Arena.isLive, hm] using hlive
    rw [Run.retain_of_dead hm, Run.retain_of_dead hn]
    exact ⟨rfl, trivial, w, rfl, h⟩
  | some f =>
    obtain ⟨g, hn⟩ : ∃ g, n.arena.get? id = some g := by
      simpa [Arena.isLive, hm, Option.isSome_iff_exists] using hlive
    rw [Run.retain_of_live hm, Run.retain_of_live hn]
    refine ⟨rfl, w, rfl, trivial, h.mapArena (g := fun a => a.retain id) ?_ ?_⟩
    · exact fun _ => Arena.forget_retain _ id
    · exact fun ha => ha.modify id (fun _ => Nat.le_refl _) (fun _ => rfl) fun _ => rfl

theorem agree_methodScope {id : FrameId} (hid : spared ≠ some id) :
    (sparing spared left right).Agree w (Run.methodScope id) (Run.methodScope id)
      fun _ _ => True := by
  refine Agree.sparing_missing hid (fun _ hk => Run.frame_bind_of_dead hk _) ?_
  intro m n f h hm hn
  rw [Run.methodScope_of_live hm, Run.methodScope_of_live hn]
  exact ⟨rfl, w, rfl, trivial, h⟩

/-- What the machines have in common about frames. -/
def sparingFrames (spared : Option FrameId) (left right : Aside) :
    Frames (sparing spared left right) where
  runs _ id := spared ≠ some id
  scope _ _ := True
  runs_mono _ h := h
  scope_of_function _ := trivial
  function_of_scope _ := trivial
  scope_of_classDef _ := trivial
  classDef_of_scope _ := trivial
  generator_of_scope _ _ := trivial
  generator_suspend _ _ := trivial
  admits_frame _ := trivial
  define _ _ hid _ := agree_modifyFrame hid _
  push hid _ := agree_modifyFrame hid _
  pop := agree_pop
  popMany count hid := (agree_popMany hid count).mono fun _ _ _ _ _ _ => trivial
  top := agree_top
  last hid := (agree_last hid).mono fun _ _ _ _ _ _ => trivial
  setLast hid _ := agree_modifyFrame hid _
  assign name _ hid _ := agree_assign hid name _
  resolve name _ := (agree_resolve _ name).mono fun _ _ _ _ _ _ => trivial
  retain _ := agree_retain _
  retainMethodScope hid := (agree_methodScope hid).bind fun _ id _ _ => agree_retain id
  trace position := agree_trace position position

/-! ## Activations -/

theorem agree_newFrame (parent : Option FrameId) (object : Option Value) (bindsObject : Bool) :
    (sparing spared left right).Agree w (Run.newFrame parent object bindsObject)
      (Run.newFrame parent object bindsObject) fun _ id => spared ≠ some id := by
  intro m n h
  have hserial := h.rest.2.2.1.serial_lt
  simp only [Run.newFrame, Run.modifyGet_apply, Arena.alloc_fst]
  refine ⟨by rw [h.size_eq], w, rfl, ?_, h.mapArena (g := fun a =>
    (a.alloc parent object bindsObject).2) (fun hs => Arena.forget_alloc hs _ _ _)
    fun ha => ha.alloc _ _ _⟩
  exact fun hid => Nat.lt_irrefl _ (hserial _ hid)

/-- Both machines end the innermost activation, which is not in the spared frame. -/
theorem Alike.unwindTo_sparing {id : FrameId} (hid : spared ≠ some id)
    (h : (sparing spared left right).Alike (CallStack.push w id) m n) :
    (sparing spared left right).Alike w (m.unwindTo w.depth) (n.unwindTo w.depth) := by
  obtain ⟨hmn, hcalls, hm, hn⟩ := h.rest
  have hcalls' : n.callStack = CallStack.push w id := by
    have hforget : (n.forget spared).callStack = (m.forget spared).callStack := by rw [hmn]
    exact hforget.trans hcalls
  rw [Machine.unwindTo_of_push hcalls, Machine.unwindTo_of_push hcalls']
  have halike := h.mapArena (g := fun a => a.endActivation id)
    (fun _ => Arena.forget_endActivation hid _) fun ha => ha.endActivation hid
  obtain ⟨hmn', -, hm', hn'⟩ := halike.rest
  exact alike_sparing (congrArg (fun k : Machine => { k with callStack := w }) hmn') rfl hm' hn'

theorem agree_activation {α : Type} {x y : Run α} {p : α → Prop} {id : FrameId}
    (hid : spared ≠ some id)
    (hbody : (sparing spared left right).Agree (CallStack.push w id) x y fun _ a => p a) :
    (sparing spared left right).Agree w (Run.activation id x) (Run.activation id y)
      fun _ a => p a := by
  intro m n h
  obtain ⟨hmn, hcalls, hm, hn⟩ := h.rest
  have hcalls' : n.callStack = w := by
    have hforget : (n.forget spared).callStack = (m.forget spared).callStack := by rw [hmn]
    exact hforget.trans hcalls
  have hconfig : n.config = m.config := by
    have hforget : (n.forget spared).config = (m.forget spared).config := by rw [hmn]
    exact hforget
  have hpushed : (sparing spared left right).Alike (CallStack.push w id)
      { m with callStack := m.callStack.push id } { n with callStack := n.callStack.push id } := by
    rw [hcalls, hcalls']
    exact alike_sparing (congrArg (fun k : Machine => { k with callStack := w.push id }) hmn) rfl
      hm hn
  refine Matches.activation (by rw [Machine.depth, Machine.depth, hcalls, hcalls'])
    (by rw [hconfig]) trivial (h.mapArena (g := fun a => a.endActivation id)
      (fun _ => Arena.forget_endActivation hid _) fun ha => ha.endActivation hid)
    (fun _ => hbody _ _ hpushed) ?_
  intro w' k l hw halike
  cases hw
  refine ⟨w, rfl, fun _ ha => ha, ?_⟩
  rw [Machine.depth, hcalls]
  exact halike.unwindTo_sparing hid

/-! ## Whole machines -/

variable {e e' : Engine} {digests : Digests}

/-- Engines run code alike, except in the spared frame, where the first one gives up. -/
structure EntersAlike (spared : Option FrameId) (left right : Aside) (e e' : Engine) : Prop where
  plain : e.tracks = false ∧ e'.tracks = false
  enter : ∀ {w id} (c), spared ≠ some id →
    (sparing spared left right).Agree w (e.enter id c) (e'.enter id c) fun _ _ => True
  giveUp : ∀ {id} (c), spared = some id → e.enter id c = Run.giveUp

theorem EntersAlike.runIn (h : EntersAlike spared left right e e') (scope : FrameId)
    (object : Option Value) (bindsObject : Bool) (self : Value) (operands : List Value)
    (body : View) :
    (sparing spared left right).Agree w (e.runIn scope object bindsObject self operands body)
      (e'.runIn scope object bindsObject self operands body) fun _ _ => True := by
  rw [Engine.runIn_of_plain h.plain.1, Engine.runIn_of_plain h.plain.2]
  refine (agree_newFrame _ _ _).bind fun _ id _ hid => ?_
  refine (agree_modifyFrame hid _).bind fun _ _ _ _ => ?_
  refine (agree_modifyFrame hid _).bind fun _ _ _ _ => ?_
  exact (h.enter _ hid).bind fun _ _ _ _ => .pure trivial

theorem agree_activate {id : FrameId} (hid : spared ≠ some id) :
    (sparing spared left right).Agree w (Run.activate id) (Run.activate id) fun _ _ => True := by
  refine Agree.sparing_missing hid (fun _ hk => Run.activate_of_dead hk) ?_
  intro m n f h hm hn
  rw [Run.activate_of_live hm, Run.activate_of_live hn]
  refine ⟨rfl, w, rfl, trivial, h.mapArena (g := fun a => a.activate id) ?_ ?_⟩
  · exact fun _ => Arena.forget_activate _ id
  · exact fun ha => ha.modify id (fun _ => Nat.le_succ _) (fun _ => rfl) fun _ => rfl

/-- Running on in the spared frame is where the first engine gives up. -/
theorem EntersAlike.runOperation_spared (h : EntersAlike spared left right e e') {id : FrameId}
    (hid : spared = some id) (g : Value) {state : Generator} (hstate : state.frame = some id)
    (values : List Value) (y : Run (Value × Cursor)) :
    (sparing spared left right).Agree w (e.runOperation g state values) y fun _ _ => True := by
  intro m n hmn
  obtain ⟨f, hf, -⟩ := hmn.rest.2.2.1 id hid
  have hpush : ({ m with arena := m.arena.activate id } : Machine).arena.get? id =
      some { f with active := f.active + 1 } := by
    simp [Arena.activate, Arena.get?_modify_self, hf]
  have hrun : e.runOperation g state values m =
      Run.giveUp (({ m with arena := m.arena.activate id } : Machine).modifyFrame id
        fun f => { f with stack := values ++ f.stack }) := by
    simp only [Engine.runOperation, Engine.generatorFrame, hstate, bind, EStateM.bind,
      Run.activate_of_live hf, pure, EStateM.pure, Run.pushAll, Run.modifyFrame_of_live hpush,
      h.giveUp _ hid]
  rw [hrun]
  trivial

theorem EntersAlike.runOperation (h : EntersAlike spared left right e e') (g : Value)
    (state : Generator) (values : List Value) :
    (sparing spared left right).Agree w (e.runOperation g state values)
      (e'.runOperation g state values) fun _ _ => True := by
  have hrest : ∀ {w id}, spared ≠ some id → (sparing spared left right).Agree w
      (do Run.pushAll id values; e.enter id (Engine.startOf state))
      (do Run.pushAll id values; e'.enter id (Engine.startOf state)) fun _ _ => True := fun hid =>
    (agree_modifyFrame hid _).bind fun _ _ _ _ => h.enter _ hid
  cases hstate : state.frame with
  | some id =>
    by_cases hid : spared = some id
    · exact h.runOperation_spared hid g hstate values _
    · simp only [Engine.runOperation, Engine.generatorFrame, hstate, bind_assoc, pure_bind]
      exact (agree_activate hid).bind fun _ _ _ _ => hrest hid
  | none =>
    simp only [Engine.runOperation, Engine.generatorFrame_of_plain h.plain.1,
      Engine.generatorFrame_of_plain h.plain.2, hstate, bind_assoc, pure_bind]
    refine (agree_newFrame _ _ _).bind fun _ id _ hid => ?_
    have hretain : ∀ {w}, (sparing spared left right).Agree w (Run.retain id) (Run.retain id)
        fun _ r => r = id := by
      intro w
      refine Agree.sparing_missing hid (fun _ hk => Run.retain_of_dead hk) ?_
      intro m n f hmn hm hn
      rw [Run.retain_of_live hm, Run.retain_of_live hn]
      refine ⟨rfl, w, rfl, rfl, hmn.mapArena (g := fun a => a.retain id) ?_ ?_⟩
      · exact fun _ => Arena.forget_retain _ id
      · exact fun ha => ha.modify id (fun _ => Nat.le_refl _) (fun _ => rfl) fun _ => rfl
    refine hretain.bind fun w₁ id' _ hid' => ?_
    subst hid'
    refine (agree_modifyHeap fun m n hmn => ?_).bind fun _ _ _ _ => hrest hid
    refine hmn.changeGenerator trivial (fun _ _ _ => soundKind_sparing _ _) fun _ => ?_
    exact .ofGenerator ⟨rfl, rfl, rfl, rfl⟩

/-- A sparing machine ends as a machine with as much fuel or more does that spares the same frame or
none. -/
theorem sparing_knot {fuel fuel' : Nat} (hfuel : fuel ≤ fuel') {spared' : Option FrameId}
    (hspared : spared' = spared ∨ spared' = none) :
    Knot (sparingFrames spared left right) (.sparing spared digests fuel)
      (.sparing spared' digests fuel') := by
  induction fuel generalizing fuel' with
  | zero =>
    have h : EntersAlike spared left right (.sparing spared digests 0)
      (.sparing spared' digests fuel') :=
      ⟨⟨rfl, Engine.tracks_sparing _ _⟩, fun _ _ => .giveUp, fun _ _ => rfl⟩
    refine ⟨⟨Nat.zero_le _, by simp, h.plain, fun _ _ => .giveUp⟩, ?_, ?_⟩
    · exact fun _ _ _ _ _ _ _ _ => (h.runIn _ _ _ _ _ _).mono fun _ _ _ _ => trivial
    · exact fun _ _ _ => (h.runOperation _ _ _).mono fun _ _ _ _ => trivial
  | succ fuel ih =>
    cases fuel' with
    | zero => omega
    | succ fuel' =>
      have K := ih (Nat.le_of_succ_le_succ hfuel)
      have h : EntersAlike spared left right (.sparing spared digests (fuel + 1))
          (.sparing spared' digests (fuel' + 1)) := by
        refine ⟨⟨rfl, rfl⟩, fun {w id} c hid => ?_, fun c hid => if_pos hid⟩
        have hid' : spared' ≠ some id := by
          rcases hspared with rfl | rfl
          · exact hid
          · exact nofun
        simp only [Engine.sparing, if_neg hid, if_neg hid']
        exact agree_activation hid ((K.run hid c).mono fun _ _ _ _ => trivial)
      refine ⟨⟨hfuel, rfl, h.plain, ?_⟩, ?_, ?_⟩
      · exact fun hc hargs => K.bodies.callValue hc hargs
      · exact fun _ _ _ _ _ _ _ _ => (h.runIn _ _ _ _ _ _).mono fun _ _ _ _ => trivial
      · exact fun _ _ _ => (h.runOperation _ _ _).mono fun _ _ _ _ => trivial

end sparing
end Likeness
end ScriptVM
