import ScriptVM.Proofs.Code.Label
import ScriptVM.Proofs.Frame.Family
import ScriptVM.Proofs.Frame.Effect
import ScriptVM.Proofs.Likeness.Objects

/-!
# Watching frames

A watch knows which frames are kept, which activations run in each frame and how many operands each
of them has at least, and how many operands the global frame has exactly. A machine is guarded by a
watch when all of this is true and every body that an object refers to is sound. A guarded machine is
alike to itself, so that everything said of machines that are alike holds of it.
-/
namespace ScriptVM

/-- The faults that only code that is not sound can have. -/
def Cause.isInternal : Cause → Bool
  | .stackUnderflow | .jumpOutOfRange | .unresolvedLoopControl | .frameNotFound _ => true
  | _ => false

/-- A failure of an ordinary program is not internal. -/
theorem Cause.isInternal_of_isOrdinary {c : Cause} (h : c.isOrdinary = true) :
    c.isInternal = false := by
  cases c <;> first | rfl | cases h

/-- So many operands lie on top of the given ones; without given ones, there are at least so
many. -/
def Over (base : Option (List Value)) (count : Nat) (stack : List Value) : Prop :=
  match base with
  | some below => ∃ top, top.length = count ∧ stack = top ++ below
  | none => count ≤ stack.length

namespace Over

variable {base : Option (List Value)} {count n : Nat} {stack : List Value}

theorem push (h : Over base n stack) (v : Value) : Over base (n + 1) (v :: stack) := by
  cases base with
  | none => exact Nat.succ_le_succ h
  | some below =>
    obtain ⟨top, hlength, rfl⟩ := h
    exact ⟨v :: top, by rw [List.length_cons, hlength], rfl⟩

theorem pushAll (h : Over base n stack) (vs : List Value) :
    Over base (vs.length + n) (vs ++ stack) := by
  induction vs with
  | nil => rwa [List.length_nil, Nat.zero_add]
  | cons v rest ih =>
    rw [List.length_cons, Nat.add_right_comm]
    exact ih.push v

theorem pop (h : Over base (n + 1) stack) :
    ∃ v rest, stack = v :: rest ∧ Over base n rest := by
  cases base with
  | none =>
    cases stack with
    | nil => cases h
    | cons v rest => exact ⟨v, rest, rfl, Nat.le_of_succ_le_succ h⟩
  | some below =>
    obtain ⟨top, hlength, rfl⟩ := h
    cases top with
    | nil => cases hlength
    | cons v top => exact ⟨v, top ++ below, rfl, top, Nat.succ.inj hlength, rfl⟩

theorem drop (h : Over base (count + n) stack) :
    count ≤ stack.length ∧ Over base n (stack.drop count) := by
  induction count generalizing stack with
  | zero => exact ⟨Nat.zero_le _, by rwa [Nat.zero_add] at h⟩
  | succ count ih =>
    rw [Nat.add_right_comm] at h
    obtain ⟨v, rest, rfl, hrest⟩ := h.pop
    obtain ⟨hle, hdrop⟩ := ih hrest
    exact ⟨Nat.succ_le_succ hle, hdrop⟩

/-- Without given operands, fewer are known too. -/
theorem weaken (h : Over none n stack) (hle : count ≤ n) : Over none count stack :=
  Nat.le_trans hle h

end Over

/-- How many operands activations have together. -/
def total (depths : List Nat) : Nat := depths.foldr (· + ·) 0

theorem total_cons (n : Nat) (outer : List Nat) : total (n :: outer) = n + total outer := rfl

/-- What is known of frames while code runs. -/
structure Watch where
  /-- The frames that something keeps for good. -/
  kept : FrameId → Prop
  /-- How many operands each activation of a frame has, the innermost one first. -/
  depths : FrameId → List Nat
  calls : CallStack
  /-- The frame of the global variables. -/
  root : FrameId
  /-- The operands that the global frame had to begin with. -/
  below : List Value
  /-- The generators that are known, with their bodies. -/
  generator : Value → View → Prop

namespace Watch

/-- The operands of a frame that are known exactly. -/
def base (w : Watch) (id : FrameId) : Option (List Value) :=
  if id = w.root then some w.below else none

/-- The watch with other depths for a frame. -/
def set (w : Watch) (id : FrameId) (depths : List Nat) : Watch :=
  { w with depths := fun other => if other = id then depths else w.depths other }

/-- More frames are kept and more generators known, and all else is the same. -/
structure Le (w w' : Watch) : Prop where
  same : w' = { w with kept := w'.kept, generator := w'.generator }
  kept : ∀ id, w.kept id → w'.kept id
  generator : ∀ v body, w.generator v body → w'.generator v body

variable {w w' : Watch} {id other : FrameId} {ds ds' : List Nat}

theorem base_of_ne (h : id ≠ w.root) : w.base id = none := if_neg h

@[simp] theorem base_set : (w.set id ds).base other = w.base other := rfl

theorem Le.refl (w : Watch) : w.Le w := ⟨rfl, fun _ h => h, fun _ _ h => h⟩

theorem Le.trans {w'' : Watch} (h : w.Le w') (h' : w'.Le w'') : w.Le w'' := by
  refine ⟨?_, fun id hid => h'.kept id (h.kept id hid), fun v body hv =>
    h'.generator v body (h.generator v body hv)⟩
  rw [h'.same, h.same]

theorem Le.depths_eq (h : w.Le w') : w'.depths = w.depths := by
  rw [h.same]

theorem Le.root_eq (h : w.Le w') : w'.root = w.root := by
  rw [h.same]

@[simp] theorem depths_set_self : (w.set id ds).depths id = ds := if_pos rfl

theorem depths_set_of_ne (h : other ≠ id) : (w.set id ds).depths other = w.depths other := if_neg h

@[simp] theorem set_set : (w.set id ds).set id ds' = w.set id ds' := by
  unfold Watch.set
  congr 1
  funext other
  dsimp only
  split <;> rfl

@[simp] theorem set_self : w.set id (w.depths id) = w := by
  unfold Watch.set
  congr 1
  funext other
  split
  · rename_i h
    rw [h]
  · rfl

/-- What has become known does not depend on depths. -/
theorem Le.of_set (h : (w.set id ds).Le w') : ∃ w'', w.Le w'' ∧ w' = w''.set id ds :=
  ⟨{ w with kept := w'.kept, generator := w'.generator }, ⟨rfl, h.kept, h.generator⟩, h.same⟩

end Watch

/-- What a watch says is true of the frames of a machine. -/
structure Guards (w : Watch) (m : Machine) : Prop where
  calls : m.callStack = w.calls
  root : m.globals = w.root
  rooted : w.depths w.root ≠ []
  supports : m.arena.Supports w.kept fun id => (w.depths id).length
  operands : ∀ id f, m.arena.get? id = some f → Over (w.base id) (total (w.depths id)) f.stack
  generator : ∀ v body, w.generator v body → ∃ g, m.heap.kind v = .generator g ∧ g.body = body

/-- A body that is sound when it is entered with so many operands. -/
def View.IsSound (mode : Mode) (entry : Nat) (v : View) : Prop :=
  ∃ code stop, v = .ofList code ∧ code.length ≤ Text.maxCount ∧ Sound mode entry code stop

/-- A generator with a sound body, which has a frame of its own if any, and which goes on at the
start of its body. -/
structure Generator.IsSound (w : Watch) (g : Generator) : Prop where
  body : g.body.IsSound .operation g.receivers
  frame : ∀ id ∈ g.frame, w.kept id ∧ id ≠ w.root
  resumes : ∀ i, g.status = .suspended i → g.body.length ≤ i

/-- Known generators stay what they are. -/
theorem Guards.setHeap {w : Watch} {m : Machine} {heap : Heap} (h : Guards w m)
    (hextends : m.heap.Extends heap) : Guards w { m with heap := heap } where
  calls := h.calls
  root := h.root
  rooted := h.rooted
  supports := h.supports
  operands := h.operands
  generator v body hv := by
    obtain ⟨g, hg, hbody⟩ := h.generator v body hv
    have hlt : v.address < m.heap.objects.size := by
      refine Nat.lt_of_not_le fun hle => ?_
      unfold Heap.kind Heap.get at hg
      rw [Array.getD_eq_getD_getElem?, Array.getElem?_eq_none hle] at hg
      cases hg
    have hbecomes := hextends.becomes v hlt
    rw [hg] at hbecomes
    obtain ⟨g', hg', hbody'⟩ := hbecomes.generator
    exact ⟨g', hg', hbody'.trans hbody⟩

/-- Machines that are guarded, each of them alike to itself. -/
def Likeness.guarding : Likeness where
  World := Watch
  le := Watch.Le
  refl := Watch.Le.refl
  trans := Watch.Le.trans
  good _ := True
  function _ f := f.body.IsSound .plain f.arity
  classDef _ c := c.body.IsSound .classBody 1
  generator w g := g.IsSound w
  function_mono _ h := h
  classDef_mono _ h := h
  generator_mono hw h :=
    ⟨h.body, fun id hid => ⟨hw.kept id (h.frame id hid).1, hw.root_eq ▸ (h.frame id hid).2⟩,
      h.resumes⟩
  generator_exhaust h := ⟨h.body, h.frame, nofun⟩
  generator_buffer _ h := ⟨h.body, h.frame, h.resumes⟩
  table _ := True
  table_empty := trivial
  table_put _ _ _ _ h := h
  admits c := c.isInternal = false
  admits_ordinary := Cause.isInternal_of_isOrdinary
  rest w m n := n = m ∧ Guards w m
  rest_heap := by
    rintro w m n h hextends ⟨rfl, hguards⟩
    exact ⟨rfl, hguards.setHeap hextends⟩

/-- A machine that is guarded by a watch. -/
def Machine.Guarded (w : Watch) (m : Machine) : Prop := Likeness.guarding.Alike w m m

namespace Likeness

variable {w w' : Watch} {m n : Machine}

theorem Alike.guarded (h : guarding.Alike w m n) : n = m ∧ m.Guarded w := by
  obtain ⟨rfl, hguards⟩ := h.rest
  exact ⟨rfl, h⟩

theorem soundObject_guarding (hkept : ∀ id, w.kept id → w'.kept id) (hroot : w'.root = w.root)
    {o : Object} (h : guarding.SoundObject w o) : guarding.SoundObject w' o := by
  have hframe : ∀ id, w.kept id ∧ id ≠ w.root → w'.kept id ∧ id ≠ w'.root :=
    fun id hid => ⟨hkept id hid.1, hroot ▸ hid.2⟩
  refine SoundObject.imp ?_ ?_ ?_ h
  · exact fun _ hf => hf
  · exact fun _ hc => hc
  · exact fun _ hg => ⟨hg.body, fun id hid => hframe id (hg.frame id hid), hg.resumes⟩

end Likeness

namespace Machine

variable {w w' : Watch} {m : Machine} {id : FrameId} {f : Frame} {n : Nat} {outer : List Nat}

theorem Guarded.guards (h : m.Guarded w) : Guards w m := h.rest.2

/-- Changes that leave the objects alone. -/
theorem Guarded.change {m' : Machine} (h : m.Guarded w) (hguards : Guards w' m')
    (hheap : m'.heap = m.heap)
    (hkept : ∀ id, w.kept id → w'.kept id) (hroot : w'.root = w.root) : m'.Guarded w' where
  heap := rfl
  types := rfl
  sound v hv := by
    rw [hheap]
    exact Likeness.soundObject_guarding hkept hroot (h.sound v hv)
  fresh _ _ := trivial
  goodTypes _ _ _ := trivial
  rest := ⟨rfl, hguards⟩

/-- An activation runs in a live frame. -/
theorem Guarded.live (h : m.Guarded (w.set id (n :: outer))) : ∃ f, m.arena.get? id = some f := by
  obtain ⟨f, hf, -⟩ := h.guards.supports.active id (by simp)
  exact ⟨f, hf⟩

theorem Guarded.operands (h : m.Guarded (w.set id (n :: outer))) (hf : m.arena.get? id = some f) :
    Over (w.base id) (n + total outer) f.stack := by
  have hover := h.guards.operands id f hf
  rw [Watch.depths_set_self] at hover
  exact hover

/-- A frame that runs gets other operands. -/
theorem Guarded.modifyFrame (h : m.Guarded (w.set id (n :: outer))) {n' : Nat}
    {change : Frame → Frame} (hparent : ∀ f, (change f).parent = f.parent)
    (hchildren : ∀ f, (change f).children = f.children)
    (hholders : ∀ f, (change f).holders = f.holders)
    (hactive : ∀ f, (change f).active = f.active)
    (hstack : ∀ f, m.arena.get? id = some f → Over (w.base id) (n + total outer) f.stack →
      Over (w.base id) (n' + total outer) (change f).stack) :
    (m.modifyFrame id change).Guarded (w.set id (n' :: outer)) := by
  have hguards := h.guards
  have hdepths : ∀ other, ((w.set id (n' :: outer)).depths other).length ≤
      ((w.set id (n :: outer)).depths other).length := by
    intro other
    by_cases hid : other = id
    · rw [hid, Watch.depths_set_self, Watch.depths_set_self]
      exact Nat.le_refl _
    · exact Nat.le_of_eq (by rw [Watch.depths_set_of_ne hid, Watch.depths_set_of_ne hid])
  refine h.change ⟨hguards.calls, hguards.root, ?_, ?_, fun other f hf => ?_, hguards.generator⟩ rfl
    (fun _ hkept => hkept) rfl
  · intro hempty
    refine hguards.rooted (List.eq_nil_of_length_eq_zero ?_)
    by_cases hid : w.root = id
    · subst hid
      exact absurd (hempty.symm.trans Watch.depths_set_self) nofun
    · rw [show (w.set id (n' :: outer)).root = w.root from rfl, Watch.depths_set_of_ne hid] at hempty
      rw [show (w.set id (n :: outer)).root = w.root from rfl, Watch.depths_set_of_ne hid, hempty]
      rfl
  · exact (hguards.supports.mono (fun _ hkept => hkept) hdepths).modify id hparent
      (fun f => Nat.le_of_eq (hchildren f).symm) (fun f => Nat.le_of_eq (hholders f).symm)
      fun f => Nat.le_of_eq (hactive f).symm
  · change (m.arena.modify id change).get? other = some f at hf
    rw [Arena.get?_modify] at hf
    split at hf
    · subst other
      obtain ⟨g, hg, rfl⟩ := Option.map_eq_some_iff.1 hf
      rw [Watch.depths_set_self]
      exact hstack g hg (h.operands hg)
    · rename_i hid
      rw [Watch.depths_set_of_ne hid]
      have hover := hguards.operands other f hf
      rwa [Watch.depths_set_of_ne hid] at hover

/-- Something more is kept. -/
theorem Guarded.retain (h : m.Guarded w) (hf : m.arena.get? id = some f) :
    ({ m with arena := m.arena.retain id } : Machine).Guarded
      { w with kept := fun other => w.kept other ∨ other = id } := by
  have hguards := h.guards
  refine h.change ⟨hguards.calls, hguards.root, hguards.rooted, hguards.supports.retain hf,
    fun other g hg => ?_, hguards.generator⟩ rfl (fun _ hkept => .inl hkept) rfl
  change (m.arena.modify id _).get? other = some g at hg
  rw [Arena.get?_modify] at hg
  split at hg
  · subst other
    obtain ⟨g', hg', rfl⟩ := Option.map_eq_some_iff.1 hg
    exact hguards.operands id g' hg'
  · exact hguards.operands other g hg

theorem Guarded.trace (h : m.Guarded w) (log : List TraceEntry) :
    ({ m with log := log } : Machine).Guarded w :=
  h.change ⟨h.guards.calls, h.guards.root, h.guards.rooted, h.guards.supports, h.guards.operands,
    h.guards.generator⟩ rfl (fun _ hkept => hkept) rfl

end Machine
end ScriptVM
