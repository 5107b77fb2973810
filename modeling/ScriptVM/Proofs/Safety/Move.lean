import ScriptVM.Proofs.Code.Course
import ScriptVM.Proofs.Safety.Watch

/-!
# Computations in a guarded frame

What a computation does to the operands of the frame that it runs in. It moves the frame from one
number of operands to another one: started with the first, it ends with the second or it fails, never
for an internal cause, and the machine stays guarded either way.
-/
namespace ScriptVM

/-- An end with so many operands in a frame, or a failure that is not internal. -/
def Arrives {α : Type} (w : Watch) (id : FrameId) (outer : List Nat) (n : Nat) (post : α → Prop) :
    Ending α → Prop
  | .ok a m => post a ∧ ∃ w', w.Le w' ∧ m.Guarded (w'.set id (n :: outer))
  | .error (.failed f) m =>
    f.cause.isInternal = false ∧ ∃ w' k, w.Le w' ∧ m.Guarded (w'.set id (k :: outer))
  | .error (.gaveUp _) _ => True

/-- A computation that leads from so many operands in a frame to so many others. -/
def Moves {α : Type} (w : Watch) (id : FrameId) (outer : List Nat) (n n' : Nat) (x : Run α)
    (post : α → Prop) : Prop :=
  ∀ m : Machine, m.Guarded (w.set id (n :: outer)) → Arrives w id outer n' post (x m)

section moves

variable {α β : Type} {w w' : Watch} {id : FrameId} {outer : List Nat} {n n' k : Nat} {x : Run α}
  {f : α → Run β} {p p' : α → Prop} {q : β → Prop}

theorem Arrives.mono {r : Ending α} (h : Arrives w' id outer n p r) (hw : w.Le w')
    (hp : ∀ a, p a → p' a) : Arrives w id outer n p' r := by
  match r, h with
  | .ok a m, ⟨ha, w'', hw', hm⟩ => exact ⟨hp a ha, w'', hw.trans hw', hm⟩
  | .error (.failed f) m, ⟨hf, w'', k, hw', hm⟩ => exact ⟨hf, w'', k, hw.trans hw', hm⟩
  | .error (.gaveUp _) _, _ => trivial

theorem Moves.pure {a : α} (ha : p a) : Moves w id outer n n (pure a) p :=
  fun _ hm => ⟨ha, w, .refl w, hm⟩

theorem Moves.bind (hx : Moves w id outer n k x p)
    (hf : ∀ w' a, w.Le w' → p a → Moves w' id outer k n' (f a) q) :
    Moves w id outer n n' (x >>= f) q := by
  intro m hm
  have h := hx m hm
  simp only [Bind.bind, EStateM.bind]
  cases hr : x m with
  | ok a m' =>
    rw [hr] at h
    obtain ⟨ha, w', hw, hm'⟩ := h
    exact (hf w' a hw ha m' hm').mono hw fun _ hb => hb
  | error stop m' =>
    rw [hr] at h
    cases stop with
    | gaveUp => trivial
    | failed failure => exact h

/-- What comes next may end with different numbers of operands. -/
theorem Moves.bind_ends {Q : Nat → β → Prop} (hx : Moves w id outer n k x p)
    (hf : ∀ w' a, w.Le w' → p a → ∀ m : Machine, m.Guarded (w'.set id (k :: outer)) →
      ∃ j, Arrives w' id outer j (Q j) (f a m)) {m : Machine}
    (hm : m.Guarded (w.set id (n :: outer))) : ∃ j, Arrives w id outer j (Q j) ((x >>= f) m) := by
  have h := hx m hm
  simp only [Bind.bind, EStateM.bind]
  cases hr : x m with
  | ok a m' =>
    rw [hr] at h
    obtain ⟨ha, w', hw, hm'⟩ := h
    obtain ⟨j, hj⟩ := hf w' a hw ha m' hm'
    exact ⟨j, hj.mono hw fun _ hb => hb⟩
  | error stop m' =>
    rw [hr] at h
    cases stop with
    | gaveUp => exact ⟨0, trivial⟩
    | failed failure => exact ⟨0, h⟩

theorem Moves.fail {c : Cause} (hc : c.isInternal = false) :
    Moves w id outer n n' (Run.fail (α := α) c) p :=
  fun _ hm => ⟨hc, w, n, .refl w, hm⟩

theorem Moves.fail_bind {c : Cause} (hc : c.isInternal = false) :
    Moves w id outer n n' (Run.fail c >>= f) q :=
  fun _ hm => ⟨hc, w, n, .refl w, hm⟩

theorem Moves.located (h : Moves w id outer n n' x p) (span : Span) :
    Moves w id outer n n' (Run.located span x) p := by
  intro m hm
  have hx := h m hm
  unfold Run.located
  cases hr : x m with
  | ok a m' =>
    rw [hr] at hx
    exact hx
  | error stop m' =>
    rw [hr] at hx
    cases stop with
    | gaveUp => trivial
    | failed failure => exact hx

/-- What agrees with itself on guarded machines leaves the operands alone. -/
theorem Moves.of_agree {post : Watch → α → Prop}
    (h : Likeness.guarding.Agree (w.set id (n :: outer)) x x post) :
    Moves w id outer n n x fun _ => True := by
  intro m hm
  have hx := h m m hm
  cases hr : x m with
  | ok a m' =>
    rw [hr] at hx
    obtain ⟨-, w', hw, -, hm'⟩ := hx
    obtain ⟨w'', hle, rfl⟩ := hw.of_set
    exact ⟨trivial, w'', hle, hm'⟩
  | error stop m' =>
    rw [hr] at hx
    cases stop with
    | gaveUp => trivial
    | failed failure =>
      obtain ⟨-, hadmits, w', hw, hm'⟩ := hx
      obtain ⟨w'', hle, rfl⟩ := hw.of_set
      exact ⟨hadmits, w'', n, hle, hm'⟩

/-! ## Operands -/

theorem Moves.modifyFrame {change : Frame → Frame} (hparent : ∀ f, (change f).parent = f.parent)
    (hchildren : ∀ f, (change f).children = f.children)
    (hholders : ∀ f, (change f).holders = f.holders)
    (hactive : ∀ f, (change f).active = f.active)
    (hstack : ∀ f, Over (w.base id) (n + total outer) f.stack →
      Over (w.base id) (n' + total outer) (change f).stack) :
    Moves w id outer n n' (Run.modifyFrame id change) fun _ => True := by
  intro m hm
  obtain ⟨f, hf⟩ := hm.live
  rw [Run.modifyFrame_of_live hf]
  exact ⟨trivial, w, .refl w,
    hm.modifyFrame hparent hchildren hholders hactive fun f _ => hstack f⟩

theorem moves_push (v : Value) :
    Moves w id outer n (n + 1) (Run.push id v) fun _ => True := by
  refine .modifyFrame (fun _ => rfl) (fun _ => rfl) (fun _ => rfl) (fun _ => rfl) fun f hf => ?_
  rw [Nat.add_right_comm]
  exact hf.push v

theorem moves_pushAll (vs : List Value) :
    Moves w id outer n (n + vs.length) (Run.pushAll id vs) fun _ => True := by
  refine .modifyFrame (fun _ => rfl) (fun _ => rfl) (fun _ => rfl) (fun _ => rfl) fun f hf => ?_
  rw [Nat.add_comm n, Nat.add_assoc]
  exact hf.pushAll vs

theorem moves_setLast (v : Value) : Moves w id outer n n (Run.setLast id v) fun _ => True :=
  .modifyFrame (fun _ => rfl) (fun _ => rfl) (fun _ => rfl) (fun _ => rfl) fun _ hf => hf

theorem moves_define (name : String) (v : Value) :
    Moves w id outer n n (Run.define id name v) fun _ => True :=
  .modifyFrame (fun _ => rfl) (fun _ => rfl) (fun _ => rfl) (fun _ => rfl) fun _ hf => hf

theorem moves_pop : Moves w id outer (n + 1) n (Run.pop id) fun _ => True := by
  intro m hm
  obtain ⟨f, hf⟩ := hm.live
  have hover := hm.operands hf
  rw [Nat.add_right_comm] at hover
  obtain ⟨v, rest, hstack, hrest⟩ := hover.pop
  rw [Run.pop_of_cons hf hstack]
  exact ⟨trivial, w, .refl w, hm.modifyFrame (fun _ => rfl) (fun _ => rfl) (fun _ => rfl)
    (fun _ => rfl) fun _ _ _ => hrest⟩

theorem moves_popMany (count : Nat) :
    Moves w id outer (n + count) n (Run.popMany id count) fun _ => True := by
  intro m hm
  obtain ⟨f, hf⟩ := hm.live
  have hover := hm.operands hf
  rw [Nat.add_comm n, Nat.add_assoc] at hover
  obtain ⟨hle, hdrop⟩ := hover.drop
  rw [Run.popMany_of_le hf hle]
  exact ⟨trivial, w, .refl w, hm.modifyFrame (fun _ => rfl) (fun _ => rfl) (fun _ => rfl)
    (fun _ => rfl) fun _ _ _ => hdrop⟩

theorem moves_top : Moves w id outer (n + 1) (n + 1) (Run.top id) fun _ => True := by
  intro m hm
  obtain ⟨f, hf⟩ := hm.live
  have hover := hm.operands hf
  rw [Nat.add_right_comm] at hover
  obtain ⟨v, rest, hstack, -⟩ := hover.pop
  rw [Run.top_of_cons hf hstack]
  exact ⟨trivial, w, .refl w, hm⟩

theorem moves_last : Moves w id outer n n (Run.last id) fun _ => True := by
  intro m hm
  obtain ⟨f, hf⟩ := hm.live
  rw [Run.last_of_live hf]
  exact ⟨trivial, w, .refl w, hm⟩

/-! ## Names and scopes -/

theorem moves_trace (position : Nat) (i : Instruction) :
    Moves w id outer n n (Run.trace position i) fun _ => True := by
  intro m hm
  refine ⟨trivial, w, .refl w, ?_⟩
  dsimp only
  split
  · exact hm.trace _
  · exact hm

/-- Changes of the objects only. -/
theorem Machine.Guarded.setMember {m : Machine} (h : m.Guarded w) (v : Value) (name : String)
    {member : Member} (hmember : Likeness.guarding.SoundMember w member) :
    ({ m with heap := m.heap.setMember v name member } : Machine).Guarded w :=
  h.modify v (.refl _) fun _ ho => ho.setMember name hmember

theorem moves_assign (name : String) (v : Value) :
    Moves w id outer n n (Run.assign id name v) fun _ => True := by
  intro m hm
  obtain ⟨f, hf⟩ := hm.live
  rw [Run.assign_of_live hf]
  refine ⟨trivial, w, .refl w, ?_⟩
  unfold Arena.assign
  cases (m.arena.get? id).bind fun f => if f.bindsObject = true then f.object else none with
  | some object =>
    exact hm.setMember object name (show Likeness.guarding.SoundMember _ (.value v) from trivial)
  | none =>
    exact hm.modifyFrame (fun f => by rfl) (fun _ => rfl) (fun _ => rfl) (fun _ => rfl)
      fun _ _ hover => hover

/-- What a name means is found without changes but for a new function bound to an object. -/
theorem Machine.Guarded.lookup? {m : Machine} (h : m.Guarded w) {name : String} {v : Value}
    {heap : Heap} (hlookup : m.arena.lookup? m.heap id name = some (v, heap)) :
    ({ m with heap := heap } : Machine).Guarded w := by
  unfold Arena.lookup? at hlookup
  obtain ⟨f, -, hresolve⟩ := List.exists_of_findSome?_eq_some hlookup
  exact (Likeness.Alike.resolve? h (fun _ _ => trivial) (fun _ _ => trivial) hresolve).2

theorem moves_resolve (name : String) :
    Moves w id outer n n (Run.resolve id name) fun _ => True := by
  intro m hm
  simp only [Run.resolve, Run.modifyGet_apply]
  cases hlookup : m.arena.lookup? m.heap id name with
  | none => exact ⟨trivial, w, .refl w, hm⟩
  | some found => exact ⟨trivial, w, .refl w, hm.lookup? hlookup⟩

theorem moves_retain : Moves w id outer n n (Run.retain id) fun _ => True := by
  intro m hm
  obtain ⟨f, hf⟩ := hm.live
  rw [Run.retain_of_live hf]
  exact ⟨trivial, { w with kept := fun other => w.kept other ∨ other = id },
    ⟨rfl, fun _ => .inl, fun _ _ h => h⟩, hm.retain hf⟩

/-- The frame that methods close over is the running one or its parent, which is live. -/
theorem moves_retainMethodScope :
    Moves w id outer n n (do Run.retain (← Run.methodScope id)) fun _ => True := by
  intro m hm
  obtain ⟨f, hf⟩ := hm.live
  have hscope : ∃ g, m.arena.get? (Run.methodScopeOf id f) = some g := by
    unfold Run.methodScopeOf
    split
    · cases hparent : f.parent with
      | none => exact ⟨f, hf⟩
      | some parent => exact hm.guards.supports.family.live_parent hf hparent
    · exact ⟨f, hf⟩
  obtain ⟨g, hg⟩ := hscope
  simp only [Bind.bind, EStateM.bind, Run.methodScope_of_live hf, Run.retain_of_live hg]
  exact ⟨trivial, { w with kept := fun other => w.kept other ∨ other = Run.methodScopeOf id f },
    ⟨rfl, fun _ => .inl, fun _ _ h => h⟩, hm.retain hg⟩

end moves
end ScriptVM
