import ScriptVM.Proofs.CallStack.Discipline
import ScriptVM.Proofs.CallStack.Vigil
import ScriptVM.Proofs.Code.Course
import ScriptVM.Proofs.Generator.Exhaustion

/-!
# Operands of the frames around a call

As many activations run in a frame as the call stack names it, and a frame in which none runs has no
operands. Bodies are entered and left in machines of which this is true, and it is true again when they
have been left, however they end. So a step of a generator leaves no operands behind in its frame,
unless another step of it is under way. The operands of the other frames on the call stack are not
touched by what they call.
-/
namespace ScriptVM

/-! ## Accounts of activations -/

namespace Arena

variable {a : Arena} {calls : List FrameId} {id : FrameId} {watched : FrameId → Prop}
  {operands : FrameId → List Value}

/-- As many activations run in a frame as the list names it, and a frame that is not on the list has no
operands. -/
structure Accounts (a : Arena) (calls : List FrameId) : Prop where
  old : ∀ id ∈ calls, id.serial < a.frames.size
  active : ∀ id f, a.get? id = some f → f.active = calls.count id
  idle : ∀ id f, a.get? id = some f → id ∉ calls → f.stack = []

instance (a : Arena) (calls : List FrameId) : Decidable (a.Accounts calls) :=
  decidable_of_iff ((∀ id ∈ calls, id.serial < a.frames.size) ∧
      ∀ i < a.frames.size, ∀ f ∈ a.get? ⟨i⟩,
        f.active = calls.count ⟨i⟩ ∧ (⟨i⟩ ∉ calls → f.stack.isEmpty = true)) <| by
    constructor
    · rintro ⟨hold, hframes⟩
      have hframe : ∀ id f, a.get? id = some f →
          f.active = calls.count id ∧ (id ∉ calls → f.stack.isEmpty = true) :=
        fun id f hf => hframes id.serial (serial_lt_of_get? hf) f hf
      exact ⟨hold, fun id f hf => (hframe id f hf).1,
        fun id f hf hid => List.isEmpty_iff.1 ((hframe id f hf).2 hid)⟩
    · exact fun h => ⟨h.old, fun i _ f hf => ⟨h.active _ f hf, fun hid =>
        List.isEmpty_iff.2 (h.idle _ f hf hid)⟩⟩

namespace Accounts

/-- Changes of a frame in which no activation begins or ends. -/
theorem modify (h : a.Accounts calls) {c : Frame → Frame}
    (hactive : ∀ f, (c f).active = f.active)
    (hstack : id ∉ calls → ∀ f, (c f).stack = f.stack) : (a.modify id c).Accounts calls where
  old other hother := by
    rw [size_frames_modify]
    exact h.old other hother
  active other f hf := by
    rw [get?_modify] at hf
    split at hf
    · subst other
      obtain ⟨g, hg, rfl⟩ := Option.map_eq_some_iff.1 hf
      exact (hactive g).trans (h.active id g hg)
    · exact h.active other f hf
  idle other f hf hother := by
    rw [get?_modify] at hf
    split at hf
    · subst other
      obtain ⟨g, hg, rfl⟩ := Option.map_eq_some_iff.1 hf
      exact (hstack hother g).trans (h.idle id g hg hother)
    · exact h.idle other f hf hother

theorem alloc (h : a.Accounts calls) (parent : Option FrameId) (object : Option Value)
    (bindsObject : Bool) :
    (a.alloc parent object bindsObject).2.Accounts (⟨a.frames.size⟩ :: calls) where
  old id hid := by
    rw [size_frames_alloc]
    rcases List.mem_cons.1 hid with rfl | hid
    · exact Nat.lt_succ_self _
    · exact Nat.lt_succ_of_lt (h.old id hid)
  active id f hf := by
    rcases get?_of_alloc hf with ⟨rfl, rfl⟩ | ⟨g, hg, rfl⟩
    · have hnew : calls.count ⟨a.frames.size⟩ = 0 :=
        List.count_eq_zero_of_not_mem fun hid => Nat.lt_irrefl _ (h.old _ hid)
      rw [List.count_cons_self, hnew]
    · have hne : (⟨a.frames.size⟩ : FrameId) ≠ id := by
        rintro rfl
        exact Nat.lt_irrefl _ (serial_lt_of_get? hg)
      rw [List.count_cons_of_ne hne]
      exact h.active id g hg
  idle id f hf hid := by
    rcases get?_of_alloc hf with ⟨rfl, rfl⟩ | ⟨g, hg, rfl⟩
    · rfl
    · exact h.idle id g hg fun hmem => hid (.tail _ hmem)

theorem activate (h : a.Accounts calls) {f : Frame} (hf : a.get? id = some f) :
    (a.activate id).Accounts (id :: calls) where
  old other hother := by
    rw [Arena.activate, size_frames_modify]
    rcases List.mem_cons.1 hother with rfl | hother
    · exact serial_lt_of_get? hf
    · exact h.old other hother
  active other g hg := by
    rw [Arena.activate, get?_modify] at hg
    split at hg
    · subst other
      rw [hf] at hg
      cases hg
      rw [List.count_cons_self, ← h.active id f hf]
    · rename_i hne
      rw [List.count_cons_of_ne (Ne.symm hne)]
      exact h.active other g hg
  idle other g hg hother := by
    have hne : other ≠ id := fun e => hother (e ▸ List.mem_cons_self)
    rw [Arena.activate, get?_modify_of_ne _ _ hne] at hg
    exact h.idle other g hg fun hmem => hother (.tail _ hmem)

/-- When the last activation of a frame ends, the frame forgets its operands. -/
theorem endActivation (h : a.Accounts (id :: calls)) : (a.endActivation id).Accounts calls where
  old other hother := by
    rw [Arena.endActivation, size_frames_settle, size_frames_modify]
    exact h.old other (.tail _ hother)
  active other f hf := by
    obtain ⟨n, hn⟩ := get?_of_settle_go hf
    rw [get?_modify] at hn
    split at hn
    · subst other
      obtain ⟨g, hg, hdeactivate⟩ := Option.map_eq_some_iff.1 hn
      have hactive : f.active = g.deactivate.active := (congrArg Frame.active hdeactivate).symm
      rw [hactive, g.active_deactivate, h.active id g hg, List.count_cons_self,
        Nat.add_sub_cancel]
    · rename_i hne
      have hactive := h.active other _ hn
      rwa [List.count_cons_of_ne (Ne.symm hne)] at hactive
  idle other f hf hother := by
    obtain ⟨n, hn⟩ := get?_of_settle_go hf
    rw [get?_modify] at hn
    split at hn
    · subst other
      obtain ⟨g, hg, hdeactivate⟩ := Option.map_eq_some_iff.1 hn
      have hstack : f.stack = g.deactivate.stack := (congrArg Frame.stack hdeactivate).symm
      have hlast : g.active = 1 := by
        rw [h.active id g hg, List.count_cons_self, List.count_eq_zero_of_not_mem hother]
      rw [hstack, Frame.deactivate, if_pos (by rw [hlast])]
    · rename_i hne
      exact h.idle other { f with children := n } hn fun hmem =>
        (List.mem_cons.1 hmem).elim hne hother

end Accounts

/-- The watched frames that are live have the operands that are known of them. -/
structure KeepsOperands (a : Arena) (watched : FrameId → Prop) (operands : FrameId → List Value) :
    Prop where
  old : ∀ id, watched id → id.serial < a.frames.size
  stack : ∀ id f, watched id → a.get? id = some f → f.stack = operands id

namespace KeepsOperands

theorem modify (h : a.KeepsOperands watched operands) {c : Frame → Frame}
    (hchange : watched id → ∀ f, (c f).stack = f.stack) :
    (a.modify id c).KeepsOperands watched operands where
  old other hother := by
    rw [size_frames_modify]
    exact h.old other hother
  stack other f hother hf := by
    rw [get?_modify] at hf
    split at hf
    · subst other
      obtain ⟨g, hg, rfl⟩ := Option.map_eq_some_iff.1 hf
      exact (hchange hother g).trans (h.stack id g hother hg)
    · exact h.stack other f hother hf

theorem alloc (h : a.KeepsOperands watched operands) (parent : Option FrameId)
    (object : Option Value) (bindsObject : Bool) :
    (a.alloc parent object bindsObject).2.KeepsOperands watched operands where
  old id hid := by
    rw [size_frames_alloc]
    exact Nat.lt_succ_of_lt (h.old id hid)
  stack id f hid hf := by
    rcases get?_of_alloc hf with ⟨rfl, -⟩ | ⟨g, hg, rfl⟩
    · exact absurd (h.old _ hid) (Nat.lt_irrefl _)
    · exact h.stack id g hid hg

theorem endActivation (h : a.KeepsOperands watched operands) (hid : ¬ watched id) :
    (a.endActivation id).KeepsOperands watched operands where
  old other hother := by
    rw [Arena.endActivation, size_frames_settle, size_frames_modify]
    exact h.old other hother
  stack other f hother hf := by
    obtain ⟨n, hn⟩ := get?_of_settle_go hf
    have hmodified : (a.modify id Frame.deactivate).KeepsOperands watched operands :=
      h.modify fun hwatched => absurd hwatched hid
    exact hmodified.stack other { f with children := n } hother hn

/-- A frame that is not there yet is not watched. -/
theorem fresh (h : a.KeepsOperands watched operands) : ¬ watched ⟨a.frames.size⟩ :=
  fun hid => Nat.lt_irrefl _ (h.old _ hid)

end KeepsOperands
end Arena

/-- A call stack with the global frame, and the operands of some frames that are watched. -/
structure Roll where
  calls : CallStack
  root : FrameId
  watched : FrameId → Prop
  operands : FrameId → List Value

/-- A frame gets one more activation, which is put on the call stack. -/
def Roll.push (w : Roll) (id : FrameId) : Roll := { w with calls := w.calls.push id }

namespace Machine

/-- As many activations run in a frame as the call stack names it, and a frame that is not on the call
stack has no operands. -/
def Accounted (m : Machine) : Prop := m.arena.Accounts m.callStack.frames

instance (m : Machine) : Decidable m.Accounted := inferInstanceAs (Decidable (Arena.Accounts _ _))

/-- The machine with a frame on top of its call stack. -/
def calling (m : Machine) (id : FrameId) : Machine := { m with callStack := m.callStack.push id }

/-- A roll is true of a machine. -/
structure Obeys (w : Roll) (m : Machine) : Prop where
  calls : m.callStack = w.calls
  globals : m.globals = w.root
  accounts : m.arena.Accounts w.calls.frames
  keeps : m.arena.KeepsOperands w.watched w.operands

namespace Obeys

variable {w : Roll} {m : Machine} {id : FrameId}

theorem accounted (h : m.Obeys w) : m.Accounted := by
  rw [Accounted, h.calls]
  exact h.accounts

theorem modifyFrame (h : m.Obeys w) {c : Frame → Frame}
    (hactive : ∀ f, (c f).active = f.active)
    (hstack : id ∈ w.calls.frames ∧ ¬ w.watched id ∨ ∀ f, (c f).stack = f.stack) :
    (m.modifyFrame id c).Obeys w where
  calls := h.calls
  globals := h.globals
  accounts := h.accounts.modify hactive fun hid => hstack.resolve_left fun h => hid h.1
  keeps := h.keeps.modify fun hid => hstack.resolve_left fun h => h.2 hid

theorem newFrame (h : m.Obeys w) (parent : Option FrameId) (object : Option Value)
    (bindsObject : Bool) :
    (({ m with arena := (m.arena.alloc parent object bindsObject).2 } : Machine).calling
      ⟨m.arena.frames.size⟩).Obeys (w.push ⟨m.arena.frames.size⟩) where
  calls := congrArg (CallStack.push · _) h.calls
  globals := h.globals
  accounts := h.accounts.alloc parent object bindsObject
  keeps := h.keeps.alloc parent object bindsObject

theorem activate (h : m.Obeys w) {f : Frame} (hf : m.arena.get? id = some f) :
    (({ m with arena := m.arena.activate id } : Machine).calling id).Obeys (w.push id) where
  calls := congrArg (CallStack.push · _) h.calls
  globals := h.globals
  accounts := h.accounts.activate hf
  keeps := h.keeps.modify fun _ _ => rfl

/-- The innermost activation ends. -/
theorem endActivation (h : m.Obeys (w.push id)) (hid : ¬ w.watched id) {calls : CallStack}
    (hcalls : calls = w.calls) :
    ({ m with callStack := calls, arena := m.arena.endActivation id } : Machine).Obeys w where
  calls := hcalls
  globals := h.globals
  accounts := h.accounts.endActivation
  keeps := h.keeps.endActivation hid

end Obeys
end Machine

/-! ## Machines that obey a roll -/

namespace Likeness

/-- Machines that obey a roll, each compared with itself. -/
def accounting : Likeness where
  World := Roll
  le w w' := w' = w
  refl _ := rfl
  trans h h' := h'.trans h
  good _ := True
  function _ _ := True
  classDef _ _ := True
  generator w g := ∀ id ∈ g.frame, ¬ w.watched id
  function_mono _ h := h
  classDef_mono _ h := h
  generator_mono := by
    rintro w w' g rfl h
    exact h
  generator_exhaust h := h
  generator_buffer _ h := h
  table _ := True
  table_empty := trivial
  table_put _ _ _ _ h := h
  admits _ := True
  admits_ordinary _ := trivial
  rest w m n := n = m ∧ m.Obeys w
  rest_heap := by
    rintro w m n h - ⟨rfl, hm⟩
    exact ⟨rfl, hm.calls, hm.globals, hm.accounts, hm.keeps⟩

variable {α : Type} {w w' : Roll} {m n : Machine} {id : FrameId} {p : Roll → α → Prop}

theorem Alike.obeys (h : accounting.Alike w m n) : m.Obeys w := h.rest.2

theorem Alike.eq_of_accounting (h : accounting.Alike w m n) : n = m := h.rest.1

/-- Other machines with the same objects, of which the same frames are watched. -/
theorem Alike.reaccount {m' : Machine} (h : accounting.Alike w m n) (hm' : m'.Obeys w')
    (hheap : m'.heap = m.heap) (hwatched : w'.watched = w.watched) :
    accounting.Alike w' m' m' where
  heap := rfl
  types := rfl
  sound v hv := by
    have hsound := h.sound v hv
    rw [hheap]
    refine hsound.imp (fun _ _ => trivial) (fun _ _ => trivial) fun g hg id hid => ?_
    rw [hwatched]
    exact hg id hid
  fresh _ _ := trivial
  goodTypes _ _ _ := trivial
  rest := ⟨rfl, hm'⟩

/-! ### Computations on frames -/

theorem sharesFrames_accounting : accounting.SharesFrames where
  arena h := congrArg Machine.arena h.eq_of_accounting
  good _ := trivial
  admits _ := trivial

/-- Only the operands are at stake, and only those of frames that do not run. -/
theorem allows_accounting {c : Frame → Frame} (hactive : ∀ f, (c f).active = f.active)
    (hstack : id ∈ w.calls.frames ∧ ¬ w.watched id ∨ ∀ f, (c f).stack = f.stack) :
    accounting.Allows w id c := by
  intro m n h
  cases h.eq_of_accounting
  exact h.reaccount (h.obeys.modifyFrame hactive hstack) rfl rfl

theorem allows_stack_accounting (hid : id ∈ w.calls.frames ∧ ¬ w.watched id)
    (stack : List Value) : accounting.Allows w id fun f => { f with stack := stack } :=
  allows_accounting (fun _ => rfl) (.inl hid)

theorem agree_retain_accounting (id : FrameId) :
    accounting.Agree w (Run.retain id) (Run.retain id) fun _ r => r = id :=
  sharesFrames_accounting.retain (allows_accounting (fun _ => rfl) (.inr fun _ => rfl))

theorem agree_trace_accounting (position : Nat) (i : Instruction) :
    accounting.Agree w (Run.trace position i) (Run.trace position i) fun _ _ => True := by
  intro m n h
  cases h.eq_of_accounting
  refine ⟨rfl, w, rfl, trivial, ?_⟩
  have hm := h.obeys
  dsimp only
  split
  · exact h.reaccount ⟨hm.calls, hm.globals, hm.accounts, hm.keeps⟩ rfl rfl
  · exact h

/-- Code runs in frames on the call stack whose operands may change, and closes over any frame. -/
def accountingFrames : Frames accounting where
  runs w id := id ∈ w.calls.frames ∧ ¬ w.watched id
  scope _ _ := True
  runs_mono := by
    rintro w w' id rfl h
    exact h
  scope_of_function _ := trivial
  function_of_scope _ := trivial
  scope_of_classDef _ := trivial
  classDef_of_scope _ := trivial
  generator_of_scope _ hframe id hid := by
    rw [hframe] at hid
    cases hid
  generator_suspend _ h := h
  admits_frame _ := trivial
  define name v _ _ := sharesFrames_accounting.modifyFrame
    (allows_accounting (fun _ => rfl) (.inr fun _ => rfl))
  push hid _ := sharesFrames_accounting.modifyFrame (allows_accounting (fun _ => rfl) (.inl hid))
  pop hid := (sharesFrames_accounting.pop (allows_stack_accounting hid)).mono
    fun _ _ _ _ => trivial
  popMany count hid := (sharesFrames_accounting.popMany (allows_stack_accounting hid) count).mono
    fun _ _ _ _ _ _ => trivial
  top _ := sharesFrames_accounting.top.mono fun _ _ _ _ => trivial
  last _ := sharesFrames_accounting.last.mono fun _ _ _ _ _ _ => trivial
  setLast _ _ := sharesFrames_accounting.modifyFrame
    (allows_accounting (fun _ => rfl) (.inr fun _ => rfl))
  assign name v _ _ := sharesFrames_accounting.assign
    (allows_accounting (fun _ => rfl) (.inr fun _ => rfl))
  resolve name _ := (sharesFrames_accounting.resolve name).mono fun _ _ _ _ _ _ => trivial
  retain _ := (agree_retain_accounting _).mono fun _ _ _ _ => trivial
  retainMethodScope _ := sharesFrames_accounting.methodScope.bind fun _ id _ _ =>
    (agree_retain_accounting id).mono fun _ _ _ _ => trivial
  trace position i := agree_trace_accounting position i

end Likeness

/-! ## The careful machine -/

/-- Gives up unless all activations are accounted for. -/
def Run.accounted {α : Type} (x : Run α) : Run α := fun m =>
  if m.Accounted then x m else .error (.gaveUp .tripwire) m

/-- The machine with some fuel that makes no call and enters no body unless all activations are
accounted for. -/
def Engine.careful (digests : Digests) : Nat → Engine
  | 0 => ⟨0, fun _ _ => Run.giveUp, fun _ _ => Run.giveUp, digests, false⟩
  | fuel + 1 =>
    ⟨fuel + 1, fun callee args => Run.accounted ((careful digests fuel).callValue callee args),
      fun id c => Run.activation id (Run.accounted ((careful digests fuel).run id c)), digests, false⟩

/-- The service of the careful machine. -/
def Service.careful (digests : Digests) (fuel : Nat) : Service where
  engine := .careful digests fuel
  execute := (Engine.careful digests fuel).execute
  reset := Machine.reset
  collect := Machine.collectGarbage

namespace Likeness

variable {α : Type} {w : Roll} {m n : Machine} {id : FrameId} {p : Roll → α → Prop}
  {e e' : Engine} {digests : Digests}

theorem Agree.accounted {x y : Run α} (h : accounting.Agree w x y p) :
    accounting.Agree w x (Run.accounted y) p := by
  intro m n hmn
  have hn : n.Accounted := hmn.eq_of_accounting ▸ hmn.obeys.accounted
  rw [Run.accounted, if_pos hn]
  exact h m n hmn

/-- An activation of a live frame has begun and is not yet on the call stack. -/
structure Begun (w : Roll) (id : FrameId) (m : Machine) : Prop where
  calls : m.callStack = w.calls
  unwatched : ¬ w.watched id
  live : ∃ f, m.arena.get? id = some f
  alike : accounting.Alike (w.push id) (m.calling id) (m.calling id)

/-- Computations that start with an activation that has begun and end when it has ended. -/
def Departs (w : Roll) (id : FrameId) (x y : Run α) (p : α → Prop) : Prop :=
  ∀ m, Begun w id m → accounting.Matches w (fun _ a => p a) (x m) (y m)

/-- Engines that enter a body whose activation has begun. -/
structure EntersAccounting (e e' : Engine) : Prop where
  plain : e.tracks = false ∧ e'.tracks = false
  enter : ∀ (w : Roll) (id : FrameId) (c : Cursor),
    Departs w id (e.enter id c) (e'.enter id c) fun _ => True

section departs

variable {x y : Run α} {q : α → Prop}

/-- The frame is changed first. -/
theorem Departs.modifyFrame_bind (h : Departs w id x y q) {c : Frame → Frame}
    (hactive : ∀ f, (c f).active = f.active) :
    Departs w id (Run.modifyFrame id c >>= fun _ => x)
      (Run.modifyFrame id c >>= fun _ => y) q := by
  intro m hm
  obtain ⟨f, hf⟩ := hm.live
  simp only [bind, EStateM.bind, Run.modifyFrame_of_live hf]
  have hruns : id ∈ (w.push id).calls.frames ∧ ¬ (w.push id).watched id :=
    ⟨List.mem_cons_self, hm.unwatched⟩
  refine h _ ⟨hm.calls, hm.unwatched, ⟨c f, ?_⟩, ?_⟩
  · rw [Machine.modifyFrame, Arena.get?_modify_self, hf, Option.map_some]
  · exact allows_accounting hactive (.inl hruns) _ _ hm.alike

theorem Departs.retain_bind {f g : FrameId → Run α} (h : Departs w id (f id) (g id) q) :
    Departs w id (Run.retain id >>= f) (Run.retain id >>= g) q := by
  intro m hm
  obtain ⟨frame, hframe⟩ := hm.live
  have hmodified := h.modifyFrame_bind (c := fun f => { f with holders := f.holders + 1 })
    (fun _ => rfl) m hm
  simp only [bind, EStateM.bind, Run.modifyFrame_of_live hframe] at hmodified
  simp only [bind, EStateM.bind, Run.retain_of_live hframe]
  exact hmodified

/-- The generator is told its frame first. -/
theorem Departs.setFrame_bind (h : Departs w id x y q) (g : Value) :
    let change := Run.modifyHeap
      (Engine.changeGenerator g fun state => { state with frame := some id })
    Departs w id (change >>= fun _ => x) (change >>= fun _ => y) q := by
  intro change m hm
  have hframe : ∀ s, accounting.SoundKind (w.push id) (.generator s) →
      accounting.SoundKind (w.push id) (.generator { s with frame := some id }) := by
    rintro s ⟨-, hparts⟩
    refine ⟨?_, hparts⟩
    rintro _ ⟨⟩
    exact hm.unwatched
  exact h _ ⟨hm.calls, hm.unwatched, hm.live, hm.alike.changeGenerator trivial (fun s _ => hframe s)
    fun _ => .ofGenerator ⟨rfl, rfl, rfl, rfl⟩⟩

/-- A new frame comes with an activation. It is not watched. -/
theorem agree_newFrame_accounting {parent : Option FrameId} {object : Option Value}
    {bindsObject : Bool} {f g : FrameId → Run α} (h : ∀ id, Departs w id (f id) (g id) q) :
    accounting.Agree w (Run.newFrame parent object bindsObject >>= f)
      (Run.newFrame parent object bindsObject >>= g) fun _ a => q a := by
  intro m n hmn
  cases hmn.eq_of_accounting
  have hm := hmn.obeys
  rw [Run.newFrame_bind, Run.newFrame_bind]
  exact h _ _ ⟨hm.calls, hm.keeps.fresh, ⟨_, m.arena.get?_alloc_self parent object bindsObject⟩,
    hmn.reaccount (hm.newFrame parent object bindsObject) rfl rfl⟩

/-- A frame gets one more activation, if it is live. -/
theorem agree_activate_accounting (hid : ¬ w.watched id) (h : Departs w id x y q) :
    accounting.Agree w (Run.activate id >>= fun _ => x) (Run.activate id >>= fun _ => y)
      fun _ a => q a := by
  intro m n hmn
  cases hmn.eq_of_accounting
  have hm := hmn.obeys
  simp only [bind, EStateM.bind]
  cases hf : m.arena.get? id with
  | none =>
    rw [Run.activate_of_dead hf]
    exact ⟨rfl, trivial, w, rfl, hmn⟩
  | some f =>
    rw [Run.activate_of_live hf]
    exact h _ ⟨hm.calls, hid, ⟨_, (m.arena.get?_modify_self id _).trans (congrArg _ hf)⟩,
      hmn.reaccount (hm.activate hf) rfl rfl⟩

/-- A body that is run as an activation of its frame. -/
theorem departs_activation (hxy : accounting.Agree (w.push id) x y fun _ a => q a) :
    Departs w id (Run.activation id x) (Run.activation id y) q := by
  intro m hm
  refine Matches.activation rfl rfl trivial
    (hm.alike.reaccount (hm.alike.obeys.endActivation hm.unwatched hm.calls) rfl rfl)
    (fun _ => hxy _ _ hm.alike) ?_
  intro w' k l hw hkl
  cases hw
  cases hkl.eq_of_accounting
  refine ⟨w, rfl, fun _ ha => ha, ?_⟩
  rw [Machine.depth, hm.calls, Machine.unwindTo_of_push hkl.obeys.calls]
  exact hkl.reaccount (hkl.obeys.endActivation hm.unwatched rfl) rfl rfl

end departs

/-! ### Calls -/

theorem EntersAccounting.runIn (h : EntersAccounting e e') (scope : FrameId)
    (object : Option Value) (bindsObject : Bool) (self : Value) (operands : List Value)
    (body : View) :
    accounting.Agree w (e.runIn scope object bindsObject self operands body)
      (e'.runIn scope object bindsObject self operands body) fun _ _ => True := by
  rw [Engine.runIn_of_plain h.plain.1, Engine.runIn_of_plain h.plain.2]
  refine agree_newFrame_accounting fun id => ?_
  have hentered : Departs w id (do return (← e.enter id (.ofView body)).1)
      (do return (← e'.enter id (.ofView body)).1) fun _ => True :=
    fun m hm => (h.enter w id _ m hm).bind fun _ _ _ _ => .pure trivial
  have hpushed := hentered.modifyFrame_bind
    (c := fun f => { f with stack := operands ++ f.stack }) fun _ => rfl
  exact hpushed.modifyFrame_bind (c := fun f => f.define selfName self) fun _ => rfl

/-- The frame of a generator is not watched. -/
theorem EntersAccounting.runOperation (h : EntersAccounting e e') (g : Value) {state : Generator}
    (hstate : accounting.generator w state) (values : List Value) :
    accounting.Agree w (e.runOperation g state values) (e'.runOperation g state values)
      fun _ _ => True := by
  have hentered : ∀ id, Departs w id
      (do Run.pushAll id values; e.enter id (Engine.startOf state))
      (do Run.pushAll id values; e'.enter id (Engine.startOf state)) fun _ => True :=
    fun id => (h.enter w id _).modifyFrame_bind fun _ => rfl
  cases hframe : state.frame with
  | some id =>
    simp only [Engine.runOperation, Engine.generatorFrame, hframe, bind_assoc, pure_bind]
    exact agree_activate_accounting (hstate id hframe) (hentered id)
  | none =>
    simp only [Engine.runOperation, Engine.generatorFrame_of_plain h.plain.1,
      Engine.generatorFrame_of_plain h.plain.2, hframe, bind_assoc, pure_bind]
    exact agree_newFrame_accounting fun id => .retain_bind (.setFrame_bind (hentered id) g)

/-- The careful machine does what the ordinary one does. -/
theorem accounting_knot (fuel : Nat) :
    Knot accountingFrames (.withFuel fuel digests) (.careful digests fuel) := by
  induction fuel with
  | zero =>
    have h : EntersAccounting (.withFuel 0 digests) (.careful digests 0) :=
      ⟨⟨rfl, rfl⟩, fun _ _ _ _ _ => trivial⟩
    refine ⟨⟨Nat.le_refl _, rfl, h.plain, fun _ _ => .giveUp⟩, ?_, ?_⟩
    · exact fun _ _ _ _ _ _ _ _ => h.runIn _ _ _ _ _ _
    · exact fun _ hstate _ => (h.runOperation _ hstate.1 _).mono fun _ _ _ _ => trivial
  | succ fuel ih =>
    have h : EntersAccounting (.withFuel (fuel + 1) digests) (.careful digests (fuel + 1)) := by
      refine ⟨⟨rfl, rfl⟩, fun w id c m hm => ?_⟩
      have hruns : accountingFrames.runs (w.push id) id := ⟨List.mem_cons_self, hm.unwatched⟩
      have hrun : accounting.Agree (w.push id) ((Engine.withFuel fuel digests).run id c)
          ((Engine.careful digests fuel).run id c) fun _ _ => True :=
        (ih.run hruns c).mono fun _ _ _ _ => trivial
      exact departs_activation hrun.accounted m hm
    refine ⟨⟨Nat.le_refl _, rfl, h.plain, ?_⟩, ?_, ?_⟩
    · exact fun hc hargs => (ih.bodies.callValue hc hargs).accounted
    · exact fun _ _ _ _ _ _ _ _ => h.runIn _ _ _ _ _ _
    · exact fun _ hstate _ => (h.runOperation _ hstate.1 _).mono fun _ _ _ _ => trivial

end Likeness

/-! ## Sessions -/

open Likeness

variable {m m' : Machine} {config : Config} {fuel : Nat} {r : Request Value} {w : Roll}
  {digests : Digests}

/-- The roll of a machine, with some frames to watch. -/
def Machine.roll (m : Machine) (watched : FrameId → Prop) : Roll where
  calls := m.callStack
  root := m.globals
  watched := watched
  operands id := (m.arena.get? id).elim [] Frame.stack

/-- Live frames that no generator has for its own can be watched. -/
theorem Machine.alike_roll (hm : m.Accounted) (watched : FrameId → Prop)
    (hlive : ∀ id, watched id → m.arena.isLive id = true)
    (hplain : ∀ id, watched id → ¬ m.IsGeneratorFrame id) :
    accounting.Alike (m.roll watched) m m where
  heap := rfl
  types := rfl
  sound v _ := by
    refine .of_good (fun _ => trivial) (fun _ => trivial) (fun _ => trivial) (fun g hg => ?_)
      fun _ _ => trivial
    exact fun id hid hwatched => hplain id hwatched ⟨v, g, hg, hid⟩
  fresh _ _ := trivial
  goodTypes _ _ _ := trivial
  rest := by
    refine ⟨rfl, rfl, rfl, hm, fun id hid => ?_, fun id f _ hf => ?_⟩
    · obtain ⟨f, hf⟩ := Option.isSome_iff_exists.1 (hlive id hid)
      exact Arena.serial_lt_of_get? hf
    · change f.stack = (m.arena.get? id).elim [] Frame.stack
      rw [hf]
      rfl

namespace Likeness

/-- What agrees ends in the same way, in the same machine. -/
theorem Agree.eq_of_accounting {α : Type} {x y : Run α} {p : Roll → α → Prop}
    (h : accounting.Agree w x y p) (hm : accounting.Alike w m m) (hend : hasEnded (x m) = true) :
    y m = x m := by
  cases hx : x m with
  | ok a m' =>
    obtain ⟨n', w', hy, -, -, halike⟩ := h.ok hm hx
    rw [hy, halike.eq_of_accounting]
  | error stop m' =>
    cases stop with
    | gaveUp =>
      rw [hx] at hend
      cases hend
    | failed f =>
      obtain ⟨n', w', hy, -, -, halike⟩ := h.failed hm hx
      rw [hy, halike.eq_of_accounting]

theorem agree_reset_accounting (hcalls : w.calls = .single w.root) (hroot : ¬ w.watched w.root)
    (h : accounting.Alike w m m) : accounting.Alike w m.reset m.reset := by
  have hsingle : m.callStack = .single w.root := h.obeys.calls.trans hcalls
  have hruns : w.root ∈ w.calls.frames ∧ ¬ w.watched w.root := by
    rw [hcalls]
    exact ⟨List.mem_cons_self, hroot⟩
  rw [Machine.reset_of_single hsingle, h.obeys.globals]
  exact allows_accounting (c := fun f => { f with stack := [], last := none }) (fun _ => rfl)
    (.inl hruns) m m h

/-- Code that runs in the global frame alone. -/
theorem agree_execute_accounting (hcalls : w.calls = .single w.root) (hroot : ¬ w.watched w.root)
    (fuel : Nat) (code : Cursor) :
    accounting.Agree w ((Engine.withFuel fuel digests).execute code)
      ((Engine.careful digests fuel).execute code)
      fun _ _ => True := by
  intro m n h
  cases h.eq_of_accounting
  have hruns : accountingFrames.runs w m.globals := by
    rw [h.obeys.globals]
    refine ⟨?_, hroot⟩
    rw [hcalls]
    exact List.mem_cons_self
  refine Matches.executed ((accounting_knot fuel).run hruns code m m h) ?_
  intro w' k l hw halike
  cases hw
  cases halike.eq_of_accounting
  exact ⟨w, rfl, agree_reset_accounting hcalls hroot halike⟩

/-- What calls do to machines that obey a roll. -/
theorem agree_call_accounting (hr : r.isCall = true) :
    accounting.Agree w ((Service.withFuel fuel digests).serve r)
      ((Service.careful digests fuel).serve r)
      fun _ _ => True := by
  have K : Knot accountingFrames (Service.withFuel fuel digests).engine
    (Service.careful digests fuel).engine :=
    accounting_knot fuel
  refine (K.serve (fun _ _ => trivial) ?_ ?_ ?_ ?_ ?_).mono fun _ _ _ _ => trivial <;>
    · intros
      subst r
      cases hr

/-- What requests between which only the global frame is active do to machines that obey a roll. -/
theorem agree_serve_accounting (hcalls : w.calls = .single w.root) (hroot : ¬ w.watched w.root)
    (hr : r ≠ .collect) :
    accounting.Agree w ((Service.withFuel fuel digests).serve r)
      ((Service.careful digests fuel).serve r)
      fun _ _ => True := by
  have K : Knot accountingFrames (Service.withFuel fuel digests).engine
    (Service.careful digests fuel).engine :=
    accounting_knot fuel
  refine (K.serve (fun _ _ => trivial) (fun code _ => agree_execute_accounting hcalls hroot fuel code)
    (fun name _ => ?_) (fun name v _ => ?_) (fun _ => ?_) fun h => absurd h hr).mono
      fun _ _ _ _ => trivial
  · intro m n hmn
    cases hmn.eq_of_accounting
    have hresolve : accounting.Agree w (Run.resolve m.globals name) (Run.resolve m.globals name)
        fun _ _ => True := sharesFrames_accounting.resolve name
    exact hresolve.mono (fun _ _ _ _ _ _ => trivial) m m hmn
  · refine .modify fun m n hmn => ?_
    cases hmn.eq_of_accounting
    exact allows_accounting (c := fun f => f.define name v) (fun _ => rfl) (.inr fun _ => rfl) m m hmn
  · refine .modify fun m n hmn => ?_
    cases hmn.eq_of_accounting
    exact agree_reset_accounting hcalls hroot hmn

end Likeness

namespace Machine

/-- After a call all activations are accounted for, and the frames that are left have the operands
that they had unless they are those of generators. -/
theorem Accounted.served (hm : m.Accounted) (hr : r.isCall = true)
    (hend : ((Service.withFuel fuel digests).serve r).EndsIn m m') :
    m'.callStack = m.callStack ∧ m'.Accounted ∧
    ∀ id f f', ¬ m.IsGeneratorFrame id → m.arena.get? id = some f → m'.arena.get? id = some f' →
      f'.stack = f.stack := by
  have halike := alike_roll hm (fun id => m.arena.isLive id = true ∧ ¬ m.IsGeneratorFrame id)
    (fun _ h => h.1) fun _ h => h.2
  obtain ⟨n', w', -, hw, hafter⟩ := (agree_call_accounting hr).endsIn halike hend
  cases hw
  refine ⟨hafter.obeys.calls, hafter.obeys.accounted, fun id f f' hplain hf hf' => ?_⟩
  have hstack := hafter.obeys.keeps.stack id f' ⟨Arena.isLive_of_get? hf, hplain⟩ hf'
  change f'.stack = (m.arena.get? id).elim [] Frame.stack at hstack
  rw [hstack, hf]
  rfl

/-! ### Between requests -/

theorem accounted_new (config : Config) : (new config).Accounted := by
  refine new_induction config ?_ fun m tag h => ?_
  · have hempty : Arena.empty.Accounts [] :=
      ⟨nofun, fun id f hf => (by cases hf), fun id f hf => (by cases hf)⟩
    exact hempty.alloc none none false
  · exact h.modify (fun _ => rfl) fun _ _ => rfl

theorem Accounted.collectGarbage (h : m.Accounted) (hfamily : m.arena.CountsChildren) :
    m.collectGarbage.Accounted := by
  have hcollected := collected_spec hfamily
  rw [collectGarbage_eq]
  generalize m.collected = a at hcollected ⊢
  refine ⟨fun id hid => ?_, fun id f' hf' => ?_, fun id f' hf' hid => ?_⟩
  · change id.serial < a.frames.size
    rw [hcollected.size]
    exact h.old id hid
  · obtain ⟨f, hf, hbare⟩ := hcollected.old id f' hf'
    rw [Frame.map_of_bare hbare Frame.active fun _ => rfl]
    exact h.active id f hf
  · obtain ⟨f, hf, hbare⟩ := hcollected.old id f' hf'
    rw [Frame.map_of_bare hbare Frame.stack fun _ => rfl]
    exact h.idle id f hf hid

theorem Reachable.accounted (h : Reachable config digests m) : m.Accounted := by
  induction h with
  | new => exact accounted_new config
  | @served m m' fuel r hm hend ih =>
    by_cases hr : r = .collect
    · subst hr
      cases hend with
      | ok hend =>
        cases hend
        exact ih.collectGarbage hm.isIdle.rest.1.family
      | failed hend => cases hend
    · have halike := alike_roll ih (fun _ => False) (fun _ h => h.elim) fun _ h => h.elim
      obtain ⟨n', w', -, hw, hafter⟩ :=
        (agree_serve_accounting hm.isIdle.callStack id hr).endsIn halike hend
      cases hw
      exact hafter.obeys.accounted

/-- The careful machine serves every request as the ordinary one does. -/
theorem Reachable.serve_careful (h : Reachable config digests m)
    (hend : hasEnded ((Service.withFuel fuel digests).serve r m) = true) :
    (Service.careful digests fuel).serve r m = (Service.withFuel fuel digests).serve r m := by
  by_cases hr : r = .collect
  · subst hr
    rfl
  · have halike := alike_roll h.accounted (fun _ => False) (fun _ h => h.elim) fun _ h => h.elim
    exact (agree_serve_accounting h.isIdle.callStack id hr).eq_of_accounting halike hend

/-- However a call ends, no operands are left behind in a frame that is not on the call stack: none are
there before the call and none after it. A step of a generator, for one, leaves none in its frame,
unless it is asked for in the course of another step of the same generator. The frames on the call
stack that are not those of generators have their operands after the call as before it. All that is
asked of the machine is that as many activations run in a frame as the call stack names it, and that
the other frames have no operands. So it is between the requests of every session, and whenever
something is called or a body is entered in the course of one: the careful machine never has to give
up. -/
theorem Reachable.calls_keep_operands (h : Reachable config digests m) (fuel : Nat) :
    (∀ (k k' : Machine) (r : Request Value), k.Accounted → r.isCall = true →
      ((Service.withFuel fuel digests).serve r).EndsIn k k' →
      k'.callStack = k.callStack ∧ k'.Accounted ∧
      (∀ id f, id ∉ k.callStack.frames →
        k.arena.get? id = some f ∨ k'.arena.get? id = some f → f.stack = []) ∧
      ∀ id f f', (k.IsGeneratorFrame id → id ∉ k.callStack.frames) →
        k.arena.get? id = some f → k'.arena.get? id = some f' → f'.stack = f.stack) ∧
    m.Accounted ∧
    ∀ r, hasEnded ((Service.withFuel fuel digests).serve r m) = true →
      (Service.careful digests fuel).serve r m = (Service.withFuel fuel digests).serve r m := by
  refine ⟨fun k k' r hk hr hend => ?_, h.accounted, fun r hend => h.serve_careful hend⟩
  obtain ⟨hcalls, hk', hstack⟩ := hk.served hr hend
  have hbefore : ∀ id f, id ∉ k.callStack.frames → k.arena.get? id = some f → f.stack = [] :=
    fun id f hid hf => hk.idle id f hf hid
  have hafter : ∀ id f, id ∉ k.callStack.frames → k'.arena.get? id = some f → f.stack = [] :=
    fun id f hid hf => hk'.idle id f hf (hcalls ▸ hid)
  refine ⟨hcalls, hk', fun id f hid => Or.rec (hbefore id f hid) (hafter id f hid),
    fun id f f' hgenerator hf hf' => ?_⟩
  by_cases hplain : k.IsGeneratorFrame id
  · rw [hbefore id f (hgenerator hplain) hf, hafter id f' (hgenerator hplain) hf']
  · exact hstack id f f' hplain hf hf'

/-- A generator whose operation fails while an operand is in place. -/
theorem Reachable.calls_keep_operands_failed :
    ∃ (m m' : Machine) (g : Value) (s : Generator) (id : FrameId) (f : Failure) (frame : Frame),
      Reachable .standard .standard m ∧ m.Accounted ∧
      (Service.withFuel 20 .standard).serve (.next g) m = .error (.failed f) m' ∧
      m'.heap.kind g = .generator s ∧ s.frame = some id ∧ id ∉ m.callStack.frames ∧
      m'.arena.get? id = some frame ∧ frame.stack = [] := by
  let at' : Span := ⟨some 1⟩
  let operation : Expr :=
    .binary at' (.binary at' (.identifier at' "x") .sub (.none at')) .add (.identifier at' "x")
  let program : Program := .ofBody [.assign at' (.identifier at' "g") .assign
    (.generator at' operation ["x"] (.array at' [.integer at' "1"]))]
  have hends : (program.compile.toOption.any fun code =>
      (finished? ((Service.withFuel 20 .standard).serve (.execute code) (.new .standard))).any fun x =>
      (List.range x.2.heap.objects.size).any fun i =>
      (failed? ((Service.withFuel 20 .standard).serve (.next ⟨i⟩) x.2)).any fun y =>
      (y.2.heap.generator? ⟨i⟩).any fun s => s.frame.any fun id =>
      decide (id ∉ x.2.callStack.frames) && (y.2.arena.get? id).isSome) = true := by
    decide +kernel
  obtain ⟨code, -, hends⟩ := (Option.any_eq_true _ _).1 hends
  obtain ⟨⟨a, m⟩, hrun, hends⟩ := (Option.any_eq_true _ _).1 hends
  obtain ⟨i, -, hends⟩ := List.any_eq_true.1 hends
  obtain ⟨⟨f, m'⟩, hfailed, hends⟩ := (Option.any_eq_true _ _).1 hends
  obtain ⟨s, hs, hends⟩ := (Option.any_eq_true _ _).1 hends
  obtain ⟨id, hid, hends⟩ := (Option.any_eq_true _ _).1 hends
  obtain ⟨haway, hlive⟩ := (Bool.and_eq_true _ _).mp hends
  obtain ⟨frame, hframe⟩ := Option.isSome_iff_exists.1 hlive
  have hm : Reachable .standard .standard m := .served .new (.ok (eq_ok_of_finished? hrun))
  have hend := eq_error_of_failed? hfailed
  obtain ⟨hcalls, hm', -⟩ := hm.calls_keep_operands 20
  obtain ⟨-, -, hnone, -⟩ := hcalls m m' (.next ⟨i⟩) hm' rfl (.failed hend)
  exact ⟨m, m', ⟨i⟩, s, id, f, frame, hm, hm', hend, Heap.kind_of_generator? hs, hid,
    of_decide_eq_true haway, hframe, hnone id frame (of_decide_eq_true haway) (.inr hframe)⟩

end Machine
end ScriptVM
