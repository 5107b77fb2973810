import ScriptVM.Proofs.Disposal.Run
import ScriptVM.Proofs.Likeness.Shared
import ScriptVM.Proofs.Likeness.Steady

/-!
# Watching over variables

What holds of frames while something runs that may not touch the variables of some of them. Every
frame on the call stack is live and active, with as many activations as are known of it, and the
watched frames have the variables that they had and stand where they stood, as long as they are live.
Code may run in every other frame: what it does there, and what it does to frames of its own, concerns
no watched frame. Nor does it concern one that other frames are freed, or that their slots are used
again.
-/
namespace ScriptVM

namespace Arena

variable {a before : Arena} {watched : FrameId → Prop} {id : FrameId}

/-- The watched frames that are live have the variables that they had before, and are in the slots in
which they were. A frame that is freed does not come back. -/
structure Keeps (a before : Arena) (watched : FrameId → Prop) : Prop where
  old : ∀ id, watched id → id.serial < a.frames.size
  same : ∀ id f', watched id → a.get? id = some f' →
    ∃ f, before.get? id = some f ∧ f'.vars = f.vars ∧ f'.slot = f.slot

namespace Keeps

theorem modify (h : a.Keeps before watched) {change : Frame → Frame}
    (hchange : watched id → ∀ f, (change f).vars = f.vars) (hslot : ∀ f, (change f).slot = f.slot) :
    (a.modify id change).Keeps before watched where
  old other hother := by
    rw [size_frames_modify]
    exact h.old other hother
  same other f' hother hf' := by
    rw [get?_modify] at hf'
    split at hf'
    · subst other
      obtain ⟨g, hg, rfl⟩ := Option.map_eq_some_iff.1 hf'
      obtain ⟨f, hf, hvars, hsame⟩ := h.same id g hother hg
      exact ⟨f, hf, (hchange hother g).trans hvars, (hslot g).trans hsame⟩
    · exact h.same other f' hother hf'

theorem alloc (h : a.Keeps before watched) (parent : Option FrameId) (object : Option Value)
    (bindsObject : Bool) : (a.alloc parent object bindsObject).2.Keeps before watched where
  old id hid := by
    rw [size_frames_alloc]
    exact Nat.lt_succ_of_lt (h.old id hid)
  same id f' hid hf' := by
    rcases get?_of_alloc hf' with ⟨rfl, -⟩ | ⟨g, hg, rfl⟩
    · exact absurd (h.old _ hid) (Nat.lt_irrefl _)
    · exact h.same id g hid hg

/-- A frame that is not there yet is not watched. -/
theorem fresh (h : a.Keeps before watched) : ¬ watched ⟨a.frames.size⟩ :=
  fun hid => Nat.lt_irrefl _ (h.old _ hid)

end Keeps
end Arena

namespace Machine

/-- Every frame on the call stack is live, and an activation runs in it. -/
def Attended (m : Machine) : Prop :=
  ∀ id ∈ m.callStack.frames, ∃ f, m.arena.get? id = some f ∧ 0 < f.active

instance (m : Machine) : Decidable m.Attended :=
  decidable_of_iff (m.callStack.frames.all fun id => (m.arena.get? id).any Frame.isActive) (by
    simp [Attended, Option.any_eq_true, Frame.isActive])

/-- The body of a generator runs in the frame. -/
def IsGeneratorFrame (m : Machine) (id : FrameId) : Prop :=
  ∃ v g, m.heap.kind v = .generator g ∧ g.frame = some id

end Machine

/-- What is known of the frames while some of them are watched. -/
structure Vigil where
  calls : CallStack
  /-- How many activations are known to run in each frame. -/
  active : FrameId → Nat
  attended : ∀ id ∈ calls.frames, 0 < active id
  watched : FrameId → Prop
  /-- The arena in which the frames came under watch. -/
  before : Arena

namespace Vigil

variable {w : Vigil} {id other : FrameId}

theorem active_enter_pos (w : Vigil) (id : FrameId) {other : FrameId} (h : 0 < w.active other) :
    0 < if other = id then w.active other + 1 else w.active other := by
  split
  · exact Nat.succ_pos _
  · exact h

/-- One more activation of a frame is known. -/
def enter (w : Vigil) (id : FrameId) : Vigil where
  calls := w.calls
  active other := if other = id then w.active other + 1 else w.active other
  attended other hother := w.active_enter_pos id (w.attended other hother)
  watched := w.watched
  before := w.before

/-- A frame gets one more activation, which is put on the call stack. -/
def push (w : Vigil) (id : FrameId) : Vigil where
  calls := w.calls.push id
  active := (w.enter id).active
  attended other hother := by
    rcases List.mem_cons.1 hother with rfl | hother
    · exact Nat.lt_of_lt_of_eq (Nat.succ_pos _) (if_pos rfl).symm
    · exact (w.enter id).attended other hother
  watched := w.watched
  before := w.before

@[simp] theorem active_enter_self : (w.enter id).active id = w.active id + 1 := if_pos rfl

theorem active_enter_of_ne (h : other ≠ id) : (w.enter id).active other = w.active other :=
  if_neg h

theorem active_le_enter (w : Vigil) (id other : FrameId) :
    w.active other ≤ (w.enter id).active other := by
  by_cases h : other = id
  · rw [h, active_enter_self]
    exact Nat.le_succ _
  · exact Nat.le_of_eq (active_enter_of_ne h).symm

end Vigil

namespace Machine

/-- What a vigil knows is true of a machine. -/
structure Attends (w : Vigil) (m : Machine) : Prop where
  calls : m.callStack = w.calls
  active : m.arena.Runs w.active
  keeps : m.arena.Keeps w.before w.watched
  family : m.arena.CountsChildren
  slotted : m.arena.Slotted

namespace Attends

variable {w : Vigil} {m : Machine} {id : FrameId} {also : List Reference} {a : Arena}

theorem setHeap (h : m.Attends w) (heap : Heap) : ({ m with heap := heap } : Machine).Attends w :=
  ⟨h.calls, h.active, h.keeps, h.family, h.slotted⟩

theorem modifyFrame (h : m.Attends w) {change : Frame → Frame}
    (hframe : ∀ f, (change f).slot = f.slot ∧ (change f).parent = f.parent ∧
      f.children ≤ (change f).children ∧ f.active ≤ (change f).active)
    (hvars : w.watched id → ∀ f, (change f).vars = f.vars) : (m.modifyFrame id change).Attends w where
  calls := h.calls
  active := h.active.modify id fun f => (hframe f).2.2.2
  keeps := h.keeps.modify hvars fun f => (hframe f).1
  family := h.family.modify id (fun f => (hframe f).2.1) fun f => (hframe f).2.2.1
  slotted := h.slotted.modify id fun f => (hframe f).1

theorem newFrame (h : m.Attends w) (parent : Option FrameId) (object : Option Value)
    (bindsObject : Bool) :
    ({ m with arena := (m.arena.alloc parent object bindsObject).2 } : Machine).Attends
      (w.enter ⟨m.arena.frames.size⟩) where
  calls := h.calls
  active := by
    refine h.active.alloc parent object bindsObject ?_ fun _ => Vigil.active_enter_of_ne
    exact Nat.le_of_eq (by rw [Vigil.active_enter_self, h.active.fresh])
  keeps := h.keeps.alloc parent object bindsObject
  family := h.family.alloc parent object bindsObject
  slotted := h.slotted.alloc parent object bindsObject

theorem activate (h : m.Attends w) {f : Frame} (hf : m.arena.get? id = some f) :
    ({ m with arena := m.arena.activate id } : Machine).Attends (w.enter id) where
  calls := h.calls
  active := h.active.activate hf (Nat.le_of_eq Vigil.active_enter_self) fun _ =>
    Vigil.active_enter_of_ne
  keeps := h.keeps.modify (fun _ _ => rfl) fun _ => rfl
  family := h.family.modify id (fun _ => rfl) fun _ => Nat.le_refl _
  slotted := h.slotted.activate id

theorem push (h : m.Attends (w.enter id)) :
    ({ m with callStack := m.callStack.push id } : Machine).Attends (w.push id) :=
  ⟨congrArg (CallStack.push · id) h.calls, h.active, h.keeps, h.family, h.slotted⟩

/-- What is known without the innermost activation of a frame. -/
theorem weaken (h : m.Attends (w.enter id)) : m.Attends w :=
  ⟨h.calls, h.active.mono (w.active_le_enter id), h.keeps, h.family, h.slotted⟩

/-- Frames that are freed are not the active ones, and what is left is what it was. -/
theorem collected (h : m.Attends w) (hc : m.Collected also a) :
    ({ m with arena := a } : Machine).Attends w where
  calls := h.calls
  active id hid := by
    obtain ⟨f, hf, hle⟩ := h.active id hid
    obtain ⟨f', hf', hbare⟩ := hc.active hf (Nat.lt_of_lt_of_le hid hle)
    have hactive : f'.active = f.active := Frame.map_of_bare hbare Frame.active fun _ => rfl
    exact ⟨f', hf', hactive ▸ hle⟩
  keeps := by
    refine ⟨fun id hid => hc.size ▸ h.keeps.old id hid, fun id f' hid hf' => ?_⟩
    obtain ⟨f, hf, hbare⟩ := hc.old id f' hf'
    obtain ⟨g, hg, hvars, hslot⟩ := h.keeps.same id f hid hf
    exact ⟨g, hg, (Frame.map_of_bare hbare Frame.vars fun _ => rfl).trans hvars,
      (Frame.map_of_bare hbare Frame.slot fun _ => rfl).trans hslot⟩
  family := hc.family
  slotted := hc.slotted h.slotted

/-- The innermost activation of a frame has ended, and nothing was freed yet. -/
theorem deactivate (h : m.Attends (w.enter id)) : (m.modifyFrame id Frame.deactivate).Attends w where
  calls := h.calls
  active := by
    refine h.active.deactivate ?_ fun _ hne => (Vigil.active_enter_of_ne hne).symm
    exact Nat.le_of_eq (by rw [Vigil.active_enter_self, Nat.add_sub_cancel])
  keeps := h.keeps.modify (fun _ => Frame.vars_deactivate) Frame.slot_deactivate
  family := h.family.modify id Frame.parent_deactivate fun f => Nat.le_of_eq f.children_deactivate.symm
  slotted := h.slotted.deactivate id

/-- The innermost activation of a frame ends, and lets go of its frame. -/
theorem release (h : m.Attends (w.enter id)) (also : List Reference) :
    ({ m with arena := ((m.holding also).release id).arena } : Machine).Attends w := by
  obtain ⟨f, hf, -⟩ := h.active id (by rw [Vigil.active_enter_self]; exact Nat.succ_pos _)
  exact h.deactivate.collected (collected_release h.family hf also)

end Attends
end Machine

namespace Likeness

/-- Machines of which a vigil is true, each compared with itself. -/
def attending : Likeness where
  World := Vigil
  le w w' := w' = w
  refl _ := rfl
  trans h h' := h'.trans h
  good _ := True
  function _ _ := True
  classDef _ _ := True
  generator w g := ∀ id ∈ g.frame, ¬ w.watched id
  function_mono _ h := h
  classDef_mono _ h := h
  generator_mono := by
    rintro w w' g rfl h
    exact h
  generator_exhaust h := h
  generator_buffer _ h := h
  table _ := True
  table_empty := trivial
  table_put _ _ _ _ h := h
  admits _ := True
  admits_ordinary _ := trivial
  rest w m n := n = m ∧ m.Attends w
  rest_heap := by
    rintro w m n h - ⟨rfl, hm⟩
    exact ⟨rfl, hm.setHeap h⟩

variable {α β : Type} {w w' : Vigil} {m n : Machine} {id : FrameId} {p : Vigil → α → Prop}

theorem Alike.attends (h : attending.Alike w m n) : m.Attends w := h.rest.2

theorem Alike.eq_of_attending (h : attending.Alike w m n) : n = m := h.rest.1

/-- Other machines with the same objects, watched alike. -/
theorem Alike.reattend {m' : Machine} (h : attending.Alike w m n) (hm' : m'.Attends w')
    (hheap : m'.heap = m.heap) (hwatched : w'.watched = w.watched) :
    attending.Alike w' m' m' where
  heap := rfl
  types := rfl
  sound v hv := by
    have hsound := h.sound v hv
    rw [hheap]
    refine hsound.imp (fun _ _ => trivial) (fun _ _ => trivial) fun g hg id hid => ?_
    rw [hwatched]
    exact hg id hid
  fresh _ _ := trivial
  goodTypes _ _ _ := trivial
  rest := ⟨rfl, hm'⟩

/-! ## Computations on frames -/

theorem sharesFrames_attending : attending.SharesFrames where
  arena h := congrArg Machine.arena h.eq_of_attending
  good _ := trivial
  admits _ := trivial

/-- Nothing but the variables of watched frames is at stake. -/
theorem allows_attending {change : Frame → Frame} (hframe : ∀ f, (change f).slot = f.slot ∧
      (change f).parent = f.parent ∧ f.children ≤ (change f).children ∧ f.active ≤ (change f).active)
    (hvars : w.watched id → ∀ f, (change f).vars = f.vars) : attending.Allows w id change := by
  intro m n h
  cases h.eq_of_attending
  exact h.reattend (h.attends.modifyFrame hframe hvars) rfl rfl

theorem allows_stack_attending (stack : List Value) :
    attending.Allows w id fun f => { f with stack := stack } :=
  allows_attending (fun _ => ⟨rfl, rfl, Nat.le_refl _, Nat.le_refl _⟩) fun _ _ => rfl

theorem agree_define_attending (hid : ¬ w.watched id) (name : String) (v : Value) :
    attending.Agree w (Run.define id name v) (Run.define id name v) fun _ _ => True :=
  sharesFrames_attending.modifyFrame
    (allows_attending (fun _ => ⟨rfl, rfl, Nat.le_refl _, Nat.le_refl _⟩) (absurd · hid))

theorem agree_pushAll_attending (vs : List Value) :
    attending.Agree w (Run.pushAll id vs) (Run.pushAll id vs) fun _ _ => True :=
  sharesFrames_attending.modifyFrame
    (allows_attending (fun _ => ⟨rfl, rfl, Nat.le_refl _, Nat.le_refl _⟩) fun _ _ => rfl)

theorem agree_retain_attending (id : FrameId) :
    attending.Agree w (Run.retain id) (Run.retain id) fun _ r => r = id :=
  sharesFrames_attending.retain
    (allows_attending (fun _ => ⟨rfl, rfl, Nat.le_refl _, Nat.le_refl _⟩) fun _ _ => rfl)

theorem agree_trace_attending (position : Nat) (i : Instruction) :
    attending.Agree w (Run.trace position i) (Run.trace position i) fun _ _ => True := by
  intro m n h
  cases h.eq_of_attending
  refine ⟨rfl, w, rfl, trivial, ?_⟩
  have hm := h.attends
  dsimp only
  split
  · exact h.reattend ⟨hm.calls, hm.active, hm.keeps, hm.family, hm.slotted⟩ rfl rfl
  · exact h

/-- Code runs in frames that are not watched, and closes over any frame. -/
def attendingFrames : Frames attending where
  runs w id := ¬ w.watched id
  scope _ _ := True
  runs_mono := by
    rintro w w' id rfl h
    exact h
  scope_of_function _ := trivial
  function_of_scope _ := trivial
  scope_of_classDef _ := trivial
  classDef_of_scope _ := trivial
  generator_of_scope _ hframe id hid := by
    rw [hframe] at hid
    cases hid
  generator_suspend _ h := h
  admits_frame _ := trivial
  define name v hid _ := agree_define_attending hid name v
  push _ _ := agree_pushAll_attending [_]
  pop _ := (sharesFrames_attending.pop allows_stack_attending).mono fun _ _ _ _ => trivial
  popMany count _ := (sharesFrames_attending.popMany allows_stack_attending count).mono
    fun _ _ _ _ _ _ => trivial
  top _ := sharesFrames_attending.top.mono fun _ _ _ _ => trivial
  last _ := sharesFrames_attending.last.mono fun _ _ _ _ _ _ => trivial
  setLast _ _ := sharesFrames_attending.modifyFrame
    (allows_attending (fun _ => ⟨rfl, rfl, Nat.le_refl _, Nat.le_refl _⟩) fun _ _ => rfl)
  assign name v hid _ := sharesFrames_attending.assign
    (allows_attending (fun _ => ⟨rfl, rfl, Nat.le_refl _, Nat.le_refl _⟩) (absurd · hid))
  resolve name _ := (sharesFrames_attending.resolve name).mono fun _ _ _ _ _ _ => trivial
  retain _ := (agree_retain_attending _).mono fun _ _ _ _ => trivial
  retainMethodScope _ := sharesFrames_attending.methodScope.bind fun _ id _ _ =>
    (agree_retain_attending id).mono fun _ _ _ _ => trivial
  trace position i := agree_trace_attending position i

/-! ## Bodies that leave with their frame -/

/-- Computations that start with one more activation of a frame and end when it has ended. -/
def Exits (w : Vigil) (id : FrameId) (x y : Run α) (p : α → Prop) : Prop :=
  ∀ m n, attending.Alike (w.enter id) m n → attending.Matches w (fun _ a => p a) (x m) (y n)

theorem Alike.weaken_attending (h : attending.Alike (w.enter id) m n) : attending.Alike w m n := by
  cases h.eq_of_attending
  exact h.reattend h.attends.weaken rfl rfl

theorem Agree.bind_exits {x y : Run α} {f g : α → Run β} {q : β → Prop}
    (hx : attending.Agree (w.enter id) x y p) (hf : ∀ a, p (w.enter id) a → Exits w id (f a) (g a) q) :
    Exits w id (x >>= f) (y >>= g) q := by
  intro m n hmn
  simp only [Bind.bind, EStateM.bind]
  refine (hx m n hmn).byEnds (fun _ _ _ => trivial) ?_ ?_
  · intro a m' n' w' hw ha halike
    cases hw
    exact hf a ha m' n' halike
  · intro f m' n' w' hw _ halike
    cases hw
    exact ⟨rfl, trivial, w, rfl, halike.weaken_attending⟩

theorem Exits.bind {x y : Run α} {f g : α → Run β} {p : α → Prop} {q : β → Prop}
    (hx : Exits w id x y p)
    (hf : ∀ a, p a → attending.Agree w (f a) (g a) fun _ b => q b) :
    Exits w id (x >>= f) (y >>= g) q := by
  refine fun m n hmn => (hx m n hmn).bind fun w' a hw ha => ?_
  cases hw
  exact hf a ha

/-- A new frame comes with an activation. It is not watched, and the frames that are freed before it is
made are not active. -/
theorem agree_newFrame_attending {e : Engine} (he : e.tracks = true) {also : List Reference}
    {parent : Option FrameId} {object : Option Value} {bindsObject : Bool} {f g : FrameId → Run α}
    {p : α → Prop} (h : ∀ id, ¬ w.watched id → Exits w id (f id) (g id) p) :
    attending.Agree w (e.newFrame also parent object bindsObject >>= f)
      (e.newFrame also parent object bindsObject >>= g) fun _ a => p a := by
  intro m n hmn
  cases hmn.eq_of_attending
  have hm := hmn.attends
  have hsettled := hm.collected (Machine.collected_settleDropped hm.family also)
  rw [newFrame_bind_apply, newFrame_bind_apply, he, Run.newFrame_bind, Run.newFrame_bind]
  exact h _ hsettled.keeps.fresh _ _
    (hmn.reattend (hsettled.newFrame parent object bindsObject) rfl rfl)

/-- A frame gets one more activation. -/
theorem agree_activate_attending {x y : Run α} {p : α → Prop} (h : Exits w id x y p) :
    attending.Agree w (Run.activate id >>= fun _ => x) (Run.activate id >>= fun _ => y)
      fun _ a => p a := by
  intro m n hmn
  cases hmn.eq_of_attending
  simp only [Bind.bind, EStateM.bind]
  cases hf : m.arena.get? id with
  | none =>
    rw [Run.activate_of_dead hf]
    exact ⟨rfl, trivial, w, rfl, hmn⟩
  | some f =>
    rw [Run.activate_of_live hf]
    exact h _ _ (hmn.reattend (hmn.attends.activate hf) rfl rfl)

/-- A body that is run as an activation of its frame, which is let go of when the activation ends. -/
theorem exits_activation {x y : Run (Value × Cursor)}
    (hxy : attending.Agree (w.push id) x y fun _ _ => True) :
    Exits w id (Run.activationBy .releasing id x) (Run.activationBy .releasing id y) fun _ => True := by
  intro m n hmn
  cases hmn.eq_of_attending
  have hm := hmn.attends
  have hadmits : Disposal.releasing.admits m id = true := rfl
  have hdepth : m.depth = w.calls.depth := congrArg CallStack.depth hm.calls
  unfold Run.activationBy
  simp only [hdepth, hadmits, Bool.true_eq_false, if_false]
  split
  · exact ⟨rfl, trivial, w, rfl, hmn.reattend (hm.release []) rfl rfl⟩
  · have hunwound : ∀ {k : Machine} (also : List Reference), attending.Alike (w.push id) k k →
        attending.Alike w (k.unwindBy .releasing also w.calls.depth)
          (k.unwindBy .releasing also w.calls.depth) := by
      intro k also hk
      rw [unwindBy_of_push hk.attends.calls]
      refine hk.reattend
        (Machine.Attends.release (m := { k with callStack := w.calls }) ?_ also) rfl rfl
      exact ⟨rfl, hk.attends.active, hk.attends.keeps, hk.attends.family, hk.attends.slotted⟩
    refine (hxy _ _ (hmn.reattend hm.push rfl rfl)).byEnds (fun _ _ _ => trivial) ?_ ?_
    · intro r k l w' hw _ halike
      cases hw
      cases halike.eq_of_attending
      exact ⟨rfl, w, rfl, trivial, hunwound [.value r.1] halike⟩
    · intro f k l w' hw _ halike
      cases hw
      cases halike.eq_of_attending
      exact ⟨rfl, trivial, w, rfl, hunwound f.cause.references halike⟩

end Likeness
end ScriptVM
