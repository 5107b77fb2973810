import ScriptVM.Frame.CallStack
import ScriptVM.Proofs.Collection.Sweep

/-!
# Arenas that share what matters

Two arenas in which different frames were freed share what is known to be kept or active: such frames
are live in both, with the same variables, operands, parents and objects, and whatever is near them,
parent by parent, holds good values only. Everything that happens to frames while code runs keeps
that up, and so do frames that are freed in one of the arenas, as long as nothing that is kept or active
is.
-/
namespace ScriptVM

theorem Bindings.mem_values_of_get? {α : Type} {b : Bindings α} {name : String} {a : α}
    (h : b.get? name = some a) : a ∈ b.values := by
  obtain ⟨entries⟩ := b
  change entries.lookup name = some a at h
  change a ∈ entries.map (·.2)
  induction entries with
  | nil => cases h
  | cons entry rest ih =>
    obtain ⟨key, first⟩ := entry
    rw [List.lookup_cons] at h
    split at h
    · cases h
      exact List.mem_cons_self
    · exact List.mem_cons_of_mem _ (ih h)

namespace Frame

/-- A frame but for its place in the arena and for what holds it. -/
def view (f : Frame) : Frame := { f with slot := 0, children := 0, holders := 0 }

/-- What a frame is, apart from its place and its holders, can be told from its view. -/
theorem eq_of_view {α : Type} {f g : Frame} (h : g.view = f.view) (p : Frame → α)
    (hp : ∀ f : Frame, p f.view = p f) : p g = p f := by
  rw [← hp g, h, hp f]

theorem view_of_bare {f g : Frame} (h : g.bare = f.bare) : g.view = f.view :=
  congrArg (fun f : Frame => { f with slot := 0 }) h

theorem view_deactivate (f : Frame) : f.deactivate.view = f.view.deactivate := by
  unfold deactivate view
  dsimp only
  split <;> rfl

/-- A frame holds good values only. -/
structure Good (good : Value → Prop) (f : Frame) : Prop where
  vars : ∀ name v, f.vars.get? name = some v → good v
  object : ∀ v ∈ f.object, good v
  stack : ∀ v ∈ f.stack, good v
  last : ∀ v ∈ f.last, good v

variable {good : Value → Prop} {f g : Frame}

theorem Good.of_view (h : f.Good good) (hview : g.view = f.view) : g.Good good where
  vars := eq_of_view hview Frame.vars (fun _ => rfl) ▸ h.vars
  object := eq_of_view hview Frame.object (fun _ => rfl) ▸ h.object
  stack := eq_of_view hview Frame.stack (fun _ => rfl) ▸ h.stack
  last := eq_of_view hview Frame.last (fun _ => rfl) ▸ h.last

/-- Less may be good, as long as what the frame refers to is. -/
theorem Good.narrow {good' : Value → Prop} (h : f.Good good)
    (hgood : ∀ v, good v → .value v ∈ f.references → good' v) : f.Good good' := by
  have hvalue : ∀ v, v ∈ f.vars.values ++ f.stack.reverse ++ f.last.toList ++ f.object.toList →
      .value v ∈ f.references := fun v hv => List.mem_append_left _ (List.mem_map_of_mem hv)
  refine ⟨fun name v hv => ?_, fun v hv => ?_, fun v hv => ?_, fun v hv => ?_⟩
  · refine hgood v (h.vars name v hv) (hvalue v ?_)
    simp [Bindings.mem_values_of_get? hv]
  · exact hgood v (h.object v hv) (hvalue v (by simp [Option.mem_def.1 hv]))
  · exact hgood v (h.stack v hv) (hvalue v (by simp [hv]))
  · exact hgood v (h.last v hv) (hvalue v (by simp [Option.mem_def.1 hv]))

theorem Good.deactivate (h : f.Good good) : f.deactivate.Good good := by
  unfold Frame.deactivate
  split
  · exact ⟨h.vars, h.object, nofun, nofun⟩
  · exact ⟨h.vars, h.object, h.stack, h.last⟩

theorem Good.define (h : f.Good good) (name : String) {v : Value} (hv : good v) :
    (f.define name v).Good good where
  vars other u hu := by
    change (f.vars.insert name v).get? other = some u at hu
    rw [Bindings.get?_insert] at hu
    split at hu
    · cases hu
      exact hv
    · exact h.vars other u hu
  object := h.object
  stack := h.stack
  last := h.last

end Frame

/-! ## Knowledge -/

/-- What is known of the frames while code runs. -/
structure Knowledge where
  /-- The frames that something keeps. -/
  kept : FrameId → Prop
  /-- The frames that can be come across from frames that are kept or active. -/
  near : FrameId → Prop
  /-- The frames that lie in another one. -/
  inner : FrameId → Prop
  /-- How many activations run in each frame, at least. -/
  active : FrameId → Nat
  calls : CallStack
  attended : ∀ id ∈ calls.frames, 0 < active id
  /-- The frame of the global variables. -/
  root : FrameId
  /-- What a machine holds on to that keeps track of it. -/
  held : List Reference

namespace Knowledge

/-- No frame is known. -/
def nothing : Knowledge where
  kept _ := False
  near _ := False
  inner _ := False
  active _ := 0
  calls := default
  attended _ hid := absurd hid List.not_mem_nil
  root := ⟨0⟩
  held := []

/-- One more activation of a frame. -/
def enter (w : Knowledge) (id : FrameId) : Knowledge :=
  { w with
    active := fun other => if other = id then w.active id + 1 else w.active other
    attended := fun other hother => by
      split
      · exact Nat.succ_pos _
      · exact w.attended other hother }

/-- A new frame is near. It may lie in another one. -/
def meet (w : Knowledge) (id : FrameId) (nested : Prop) : Knowledge :=
  { w with
    near := fun other => w.near other ∨ other = id
    inner := fun other => w.inner other ∨ other = id ∧ nested }

/-- More is known of frames, and the same runs in them. -/
structure Le (w w' : Knowledge) : Prop where
  same : w' = { w with kept := w'.kept, near := w'.near, inner := w'.inner }
  kept : ∀ id, w.kept id → w'.kept id
  near : ∀ id, w.near id → w'.near id
  inner : ∀ id, w.inner id → w'.inner id

/-- What objects may rely on. -/
structure Keeps (w w' : Knowledge) : Prop where
  kept : ∀ id, w.kept id → w'.kept id
  inner : ∀ id, w.inner id → w'.inner id

variable {w w' w'' : Knowledge} {id other : FrameId}

theorem keeps_of_eq (hkept : w'.kept = w.kept) (hinner : w'.inner = w.inner) : w.Keeps w' :=
  ⟨fun _ h => hkept ▸ h, fun _ h => hinner ▸ h⟩

theorem Le.refl (w : Knowledge) : w.Le w := ⟨rfl, fun _ h => h, fun _ h => h, fun _ h => h⟩

theorem Le.trans (h : w.Le w') (h' : w'.Le w'') : w.Le w'' := by
  refine ⟨?_, fun id hid => h'.kept id (h.kept id hid), fun id hid => h'.near id (h.near id hid),
    fun id hid => h'.inner id (h.inner id hid)⟩
  rw [h'.same, h.same]

theorem le_meet {nested : Prop} : w.Le (w.meet id nested) :=
  ⟨rfl, fun _ h => h, fun _ => .inl, fun _ => .inl⟩

theorem Le.active_eq (h : w.Le w') : w'.active = w.active := by
  rw [h.same]

@[simp] theorem active_enter_self : (w.enter id).active id = w.active id + 1 := if_pos rfl

theorem active_enter_of_ne (h : other ≠ id) : (w.enter id).active other = w.active other :=
  if_neg h

theorem active_le_enter (w : Knowledge) (id other : FrameId) :
    w.active other ≤ (w.enter id).active other := by
  by_cases h : other = id
  · rw [h, active_enter_self]
    exact Nat.le_succ _
  · rw [active_enter_of_ne h]

/-- What has become known does not depend on an activation. -/
theorem Le.of_enter (h : (w.enter id).Le w') : ∃ w'', w.Le w'' ∧ w' = w''.enter id :=
  ⟨{ w with kept := w'.kept, near := w'.near, inner := w'.inner },
    ⟨rfl, h.kept, h.near, h.inner⟩, h.same⟩

end Knowledge

/-! ## Two arenas -/

namespace Arena

/-- What is near refers to what is near, and to good values. -/
def Minds (a : Arena) (good : Value → Prop) (near : FrameId → Prop) : Prop :=
  ∀ id f, near id → a.get? id = some f → f.Good good ∧ ∀ p ∈ f.parent, near p

/-- Some frames lie in other ones. -/
def Nests (a : Arena) (inner : FrameId → Prop) : Prop :=
  ∀ id f, inner id → a.get? id = some f → ∃ p, f.parent = some p

/-- Two arenas share what is kept or active. -/
structure Shares (good : Value → Prop) (w : Knowledge) (a b : Arena) : Prop where
  left : a.Supports w.kept w.active
  right : b.Supports w.kept w.active
  slotsLeft : a.Slotted
  slotsRight : b.Slotted
  size : b.frames.size = a.frames.size
  same : ∀ id f g, a.get? id = some f → b.get? id = some g → g.view = f.view
  mindsLeft : a.Minds good w.near
  mindsRight : b.Minds good w.near
  nestsLeft : a.Nests w.inner
  nestsRight : b.Nests w.inner
  near_of_kept : ∀ id, w.kept id → w.near id
  near_of_active : ∀ id, 0 < w.active id → w.near id

/-- Two arenas without frames. -/
theorem shares_empty : Arena.empty.Shares (fun _ => True) .nothing .empty :=
  have hsupports : Arena.empty.Supports (fun _ => False) fun _ => 0 :=
    ⟨fun _ hp => absurd hp (Nat.lt_irrefl 0), fun _ h => h.elim, fun _ h => absurd h (Nat.lt_irrefl 0)⟩
  { left := hsupports
    right := hsupports
    slotsLeft := slotted_empty
    slotsRight := slotted_empty
    size := rfl
    same := fun _ _ _ hf _ => absurd (serial_lt_of_get? hf) (Nat.not_lt_zero _)
    mindsLeft := fun _ _ h => h.elim
    mindsRight := fun _ _ h => h.elim
    nestsLeft := fun _ _ h => h.elim
    nestsRight := fun _ _ h => h.elim
    near_of_kept := fun _ h => h
    near_of_active := fun _ h => absurd h (Nat.lt_irrefl 0) }

variable {good : Value → Prop} {w w' : Knowledge} {a b : Arena} {id : FrameId} {f g : Frame}

theorem Shares.symm (h : a.Shares good w b) : b.Shares good w a where
  left := h.right
  right := h.left
  slotsLeft := h.slotsRight
  slotsRight := h.slotsLeft
  size := h.size.symm
  same id f g hf hg := (h.same id g f hg hf).symm
  mindsLeft := h.mindsRight
  mindsRight := h.mindsLeft
  nestsLeft := h.nestsRight
  nestsRight := h.nestsLeft
  near_of_kept := h.near_of_kept
  near_of_active := h.near_of_active

/-- What runs is live in both arenas. -/
theorem Shares.active (h : a.Shares good w b) (hid : 0 < w.active id) :
    ∃ f g, a.get? id = some f ∧ b.get? id = some g ∧ g.view = f.view ∧ f.Good good := by
  obtain ⟨f, hf, -⟩ := h.left.active id hid
  obtain ⟨g, hg, -⟩ := h.right.active id hid
  exact ⟨f, g, hf, hg, h.same id f g hf hg, (h.mindsLeft id f (h.near_of_active id hid) hf).1⟩

/-- What is kept is live in both arenas. -/
theorem Shares.kept (h : a.Shares good w b) (hid : w.kept id) :
    ∃ f g, a.get? id = some f ∧ b.get? id = some g ∧ g.view = f.view := by
  obtain ⟨f, hf, -⟩ := h.left.kept id hid
  obtain ⟨g, hg, -⟩ := h.right.kept id hid
  exact ⟨f, g, hf, hg, h.same id f g hf hg⟩

/-- The parent of a frame that is near and live in both arenas is so, too. -/
theorem Shares.parent (h : a.Shares good w b) (hid : w.near id) (hf : a.get? id = some f)
    (hg : b.get? id = some g) {p : FrameId} (hp : f.parent = some p) :
    w.near p ∧ ∃ f' g', a.get? p = some f' ∧ b.get? p = some g' := by
  obtain ⟨f', hf'⟩ := h.left.family.live_parent hf hp
  have hp' : g.parent = some p :=
    (Frame.eq_of_view (h.same id f g hf hg) Frame.parent fun _ => rfl).trans hp
  obtain ⟨g', hg'⟩ := h.right.family.live_parent hg hp'
  exact ⟨(h.mindsLeft id f hid hf).2 p hp, f', g', hf', hg'⟩

theorem Minds.modify {near : FrameId → Prop} (h : a.Minds good near) (id : FrameId)
    {change : Frame → Frame} (hparent : ∀ f, (change f).parent = f.parent)
    (hgood : ∀ f : Frame, f.Good good → (change f).Good good) :
    (a.modify id change).Minds good near := by
  intro other f hnear hf
  rw [get?_modify] at hf
  split at hf
  · subst other
    obtain ⟨f₀, hf₀, rfl⟩ := Option.map_eq_some_iff.1 hf
    obtain ⟨hcontents, hparents⟩ := h id f₀ hnear hf₀
    exact ⟨hgood f₀ hcontents, hparent f₀ ▸ hparents⟩
  · exact h other f hnear hf

theorem Nests.modify {inner : FrameId → Prop} (h : a.Nests inner) (id : FrameId)
    {change : Frame → Frame} (hparent : ∀ f, (change f).parent = f.parent) :
    (a.modify id change).Nests inner := by
  intro other f hinner hf
  rw [get?_modify] at hf
  split at hf
  · subst other
    obtain ⟨f₀, hf₀, rfl⟩ := Option.map_eq_some_iff.1 hf
    rw [hparent]
    exact h id f₀ hinner hf₀
  · exact h other f hinner hf

/-- The same change in both arenas. -/
theorem same_modify (hsame : ∀ id f g, a.get? id = some f → b.get? id = some g → g.view = f.view)
    (id : FrameId) {change : Frame → Frame}
    (hview : ∀ f g : Frame, g.view = f.view → (change g).view = (change f).view)
    (other : FrameId) (f g : Frame) (hf : (a.modify id change).get? other = some f)
    (hg : (b.modify id change).get? other = some g) : g.view = f.view := by
  rw [get?_modify] at hf hg
  split at hf
  · rename_i heq
    rw [if_pos heq] at hg
    obtain ⟨f₀, hf₀, rfl⟩ := Option.map_eq_some_iff.1 hf
    obtain ⟨g₀, hg₀, rfl⟩ := Option.map_eq_some_iff.1 hg
    exact hview f₀ g₀ (hsame id f₀ g₀ hf₀ hg₀)
  · rename_i hne
    rw [if_neg hne] at hg
    exact hsame other f g hf hg

/-- A change of a frame in both arenas that lets go of nothing. -/
theorem Shares.modify (h : a.Shares good w b) (id : FrameId) {change : Frame → Frame}
    (hkeeps : ∀ f, (change f).parent = f.parent ∧ (change f).children = f.children ∧
      (change f).holders = f.holders ∧ (change f).active = f.active ∧ (change f).slot = f.slot)
    (hview : ∀ f : Frame, (change f).view = change f.view)
    (hgood : ∀ f : Frame, f.Good good → (change f).Good good) :
    (a.modify id change).Shares good w (b.modify id change) where
  left := h.left.modify id (fun f => (hkeeps f).1) (fun f => Nat.le_of_eq (hkeeps f).2.1.symm)
    (fun f => Nat.le_of_eq (hkeeps f).2.2.1.symm) fun f => Nat.le_of_eq (hkeeps f).2.2.2.1.symm
  right := h.right.modify id (fun f => (hkeeps f).1) (fun f => Nat.le_of_eq (hkeeps f).2.1.symm)
    (fun f => Nat.le_of_eq (hkeeps f).2.2.1.symm) fun f => Nat.le_of_eq (hkeeps f).2.2.2.1.symm
  slotsLeft := h.slotsLeft.modify id fun f => (hkeeps f).2.2.2.2
  slotsRight := h.slotsRight.modify id fun f => (hkeeps f).2.2.2.2
  size := by rw [size_frames_modify, size_frames_modify, h.size]
  same := same_modify h.same id fun f g hfg => by rw [hview, hview, hfg]
  mindsLeft := h.mindsLeft.modify id (fun f => (hkeeps f).1) hgood
  mindsRight := h.mindsRight.modify id (fun f => (hkeeps f).1) hgood
  nestsLeft := h.nestsLeft.modify id fun f => (hkeeps f).1
  nestsRight := h.nestsRight.modify id fun f => (hkeeps f).1
  near_of_kept := h.near_of_kept
  near_of_active := h.near_of_active

/-- Something more keeps a frame that is near and live. -/
theorem Shares.retain (h : a.Shares good w b) (hid : w.near id) (hf : a.get? id = some f)
    (hg : b.get? id = some g) :
    (a.retain id).Shares good { w with kept := fun other => w.kept other ∨ other = id }
      (b.retain id) where
  left := h.left.retain hf
  right := h.right.retain hg
  slotsLeft := h.slotsLeft.retain id
  slotsRight := h.slotsRight.retain id
  size := by rw [Arena.retain, Arena.retain, size_frames_modify, size_frames_modify, h.size]
  same := same_modify h.same id fun _ _ hfg => hfg
  mindsLeft := h.mindsLeft.modify id (fun _ => rfl) fun _ hf => ⟨hf.vars, hf.object, hf.stack, hf.last⟩
  mindsRight := h.mindsRight.modify id (fun _ => rfl) fun _ hf =>
    ⟨hf.vars, hf.object, hf.stack, hf.last⟩
  nestsLeft := h.nestsLeft.modify id fun _ => rfl
  nestsRight := h.nestsRight.modify id fun _ => rfl
  near_of_kept other hother := by
    rcases hother with hother | rfl
    · exact h.near_of_kept other hother
    · exact hid
  near_of_active := h.near_of_active

/-- Another activation starts in a frame that is near and live. -/
theorem Shares.activate (h : a.Shares good w b) (hid : w.near id) (hf : a.get? id = some f)
    (hg : b.get? id = some g) :
    (a.activate id).Shares good (w.enter id) (b.activate id) where
  left := h.left.activate hf (Nat.le_of_eq Knowledge.active_enter_self)
    fun _ => Knowledge.active_enter_of_ne
  right := h.right.activate hg (Nat.le_of_eq Knowledge.active_enter_self)
    fun _ => Knowledge.active_enter_of_ne
  slotsLeft := h.slotsLeft.activate id
  slotsRight := h.slotsRight.activate id
  size := by rw [Arena.activate, Arena.activate, size_frames_modify, size_frames_modify, h.size]
  same := same_modify h.same id fun f g hfg =>
    congrArg (fun k : Frame => { k with active := k.active + 1 }) hfg
  mindsLeft := h.mindsLeft.modify id (fun _ => rfl) fun _ hf => ⟨hf.vars, hf.object, hf.stack, hf.last⟩
  mindsRight := h.mindsRight.modify id (fun _ => rfl) fun _ hf =>
    ⟨hf.vars, hf.object, hf.stack, hf.last⟩
  nestsLeft := h.nestsLeft.modify id fun _ => rfl
  nestsRight := h.nestsRight.modify id fun _ => rfl
  near_of_kept := h.near_of_kept
  near_of_active other hother := by
    by_cases heq : other = id
    · exact heq ▸ hid
    · rw [Knowledge.active_enter_of_ne heq] at hother
      exact h.near_of_active other hother

/-- What is known without an activation. -/
theorem Shares.weaken (h : a.Shares good (w.enter id) b) : a.Shares good w b where
  left := h.left.mono (fun _ h => h) (w.active_le_enter id)
  right := h.right.mono (fun _ h => h) (w.active_le_enter id)
  slotsLeft := h.slotsLeft
  slotsRight := h.slotsRight
  size := h.size
  same := h.same
  mindsLeft := h.mindsLeft
  mindsRight := h.mindsRight
  nestsLeft := h.nestsLeft
  nestsRight := h.nestsRight
  near_of_kept := h.near_of_kept
  near_of_active other hother :=
    h.near_of_active other (Nat.lt_of_lt_of_le hother (w.active_le_enter id other))

/-! ### New frames -/

/-- Frames that are not new are what they were, but for the children of the parent. -/
theorem get?_alloc_cases {parent : Option FrameId} {object : Option Value} {bindsObject : Bool}
    (hf : (a.alloc parent object bindsObject).2.get? id = some f) :
    (id = ⟨a.frames.size⟩ ∧ f.view = (⟨0, .empty, parent.filter a.isLive, object, bindsObject, [],
      none, 1, 0, 0⟩ : Frame)) ∨ ∃ f₀, a.get? id = some f₀ ∧ f.view = f₀.view := by
  rcases get?_of_alloc hf with ⟨hid, rfl⟩ | ⟨g, hg, rfl⟩
  · exact .inl ⟨hid, rfl⟩
  · exact .inr ⟨g, hg, rfl⟩

theorem Minds.alloc {near : FrameId → Prop} (h : a.Minds good near) {parent : Option FrameId}
    {object : Option Value} (bindsObject : Bool) (hparent : ∀ p ∈ parent, near p)
    (hobject : ∀ v ∈ object, good v) :
    (a.alloc parent object bindsObject).2.Minds good fun id => near id ∨ id = ⟨a.frames.size⟩ := by
  intro id f hnear hf
  rcases get?_alloc_cases hf with ⟨rfl, hview⟩ | ⟨f₀, hf₀, hview⟩
  · have hvars : f.vars = .empty := congrArg Frame.vars hview
    have hobject' : f.object = object := congrArg Frame.object hview
    have hstack : f.stack = [] := congrArg Frame.stack hview
    have hlast : f.last = none := congrArg Frame.last hview
    have hparent' : f.parent = parent.filter a.isLive := congrArg Frame.parent hview
    refine ⟨⟨?_, ?_, ?_, ?_⟩, fun p hp => ?_⟩
    · rw [hvars]
      exact fun name v hv => by cases hv
    · rwa [hobject']
    · rw [hstack]
      exact nofun
    · rw [hlast]
      exact nofun
    · rw [hparent'] at hp
      exact .inl (hparent p (Option.mem_filter_iff.1 hp).1)
  · have hold : near id := hnear.resolve_right fun e => by
      have hsize := serial_lt_of_get? hf₀
      rw [e] at hsize
      exact Nat.lt_irrefl _ hsize
    obtain ⟨hgood, hparents⟩ := h id f₀ hold hf₀
    refine ⟨hgood.of_view hview, fun p hp => ?_⟩
    rw [Frame.eq_of_view hview Frame.parent fun _ => rfl] at hp
    exact .inl (hparents p hp)

theorem Nests.alloc {inner : FrameId → Prop} (h : a.Nests inner) {parent : Option FrameId}
    (object : Option Value) (bindsObject : Bool) (hparent : ∀ p ∈ parent, a.isLive p = true)
    (hnew : inner ⟨a.frames.size⟩ → parent.isSome = true) :
    (a.alloc parent object bindsObject).2.Nests
      fun id => inner id ∨ id = ⟨a.frames.size⟩ ∧ parent.isSome = true := by
  intro id f hinner hf
  rcases get?_alloc_cases hf with ⟨rfl, hview⟩ | ⟨f₀, hf₀, hview⟩
  · obtain ⟨p, hp⟩ := Option.isSome_iff_exists.1 (hinner.elim hnew And.right)
    have hparent' : f.parent = parent.filter a.isLive := congrArg Frame.parent hview
    refine ⟨p, ?_⟩
    rw [hparent', hp, Option.filter_some, hparent p hp]
    rfl
  · have hold : inner id := hinner.resolve_right fun e => by
      have hsize := serial_lt_of_get? hf₀
      rw [e.1] at hsize
      exact Nat.lt_irrefl _ hsize
    rw [Frame.eq_of_view hview Frame.parent fun _ => rfl]
    exact h id f₀ hold hf₀

/-- A new frame is the same in both arenas, and the others still are. -/
theorem Shares.same_alloc (h : a.Shares good w b) {parent : Option FrameId} {object : Option Value}
    {bindsObject : Bool} (hfilter : parent.filter b.isLive = parent.filter a.isLive)
    (hf : (a.alloc parent object bindsObject).2.get? id = some f)
    (hg : (b.alloc parent object bindsObject).2.get? id = some g) : g.view = f.view := by
  rcases get?_alloc_cases hf with ⟨rfl, hview⟩ | ⟨f₀, hf₀, hview⟩
  · rcases get?_alloc_cases hg with ⟨-, hview'⟩ | ⟨g₀, hg₀, -⟩
    · rw [hview, hview', hfilter]
    · have hlt := serial_lt_of_get? hg₀
      rw [h.size] at hlt
      exact absurd hlt (Nat.lt_irrefl _)
  · rcases get?_alloc_cases hg with ⟨rfl, -⟩ | ⟨g₀, hg₀, hview'⟩
    · have hlt := serial_lt_of_get? hf₀
      rw [h.size] at hlt
      exact absurd hlt (Nat.lt_irrefl _)
    · rw [hview, hview']
      exact h.same id f₀ g₀ hf₀ hg₀

theorem Supports.alloc_enter (h : a.Supports w.kept w.active) (parent : Option FrameId)
    (object : Option Value) (bindsObject : Bool) :
    (a.alloc parent object bindsObject).2.Supports w.kept (w.enter ⟨a.frames.size⟩).active := by
  refine h.alloc parent object bindsObject ?_ fun _ => Knowledge.active_enter_of_ne
  rw [Knowledge.active_enter_self, h.active.fresh]

/-- A new frame, with an activation, whose parent is near and live in both arenas. -/
theorem Shares.alloc (h : a.Shares good w b) (parent : Option FrameId) (object : Option Value)
    (bindsObject : Bool) (hparent : ∀ p ∈ parent, w.near p ∧ a.isLive p = true ∧ b.isLive p = true)
    (hobject : ∀ v ∈ object, good v) (hinner : w.inner ⟨a.frames.size⟩ → parent.isSome = true) :
    (a.alloc parent object bindsObject).2.Shares good
      ((w.meet ⟨a.frames.size⟩ (parent.isSome = true)).enter ⟨a.frames.size⟩)
      (b.alloc parent object bindsObject).2 where
  left := h.left.alloc_enter parent object bindsObject
  right := h.size ▸ h.right.alloc_enter parent object bindsObject
  slotsLeft := h.slotsLeft.alloc parent object bindsObject
  slotsRight := h.slotsRight.alloc parent object bindsObject
  size := by rw [size_frames_alloc, size_frames_alloc, h.size]
  same id f g hf hg := by
    have hfilter : parent.filter b.isLive = parent.filter a.isLive := by
      cases parent with
      | none => rfl
      | some p => simp only [Option.filter_some, (hparent p rfl).2.1, (hparent p rfl).2.2]
    exact h.same_alloc hfilter hf hg
  mindsLeft := h.mindsLeft.alloc bindsObject (fun p hp => (hparent p hp).1) hobject
  mindsRight := by
    have hminds := h.mindsRight.alloc bindsObject (fun p hp => (hparent p hp).1) hobject
    rwa [h.size] at hminds
  nestsLeft := h.nestsLeft.alloc object bindsObject (fun p hp => (hparent p hp).2.1) hinner
  nestsRight := by
    have hnests := h.nestsRight.alloc object bindsObject (fun p hp => (hparent p hp).2.2)
      (h.size.symm ▸ hinner)
    rwa [h.size] at hnests
  near_of_kept id hid := .inl (h.near_of_kept id hid)
  near_of_active id hid := by
    by_cases heq : id = ⟨a.frames.size⟩
    · exact .inr heq
    · change 0 < (w.enter ⟨a.frames.size⟩).active id at hid
      rw [Knowledge.active_enter_of_ne heq] at hid
      exact .inl (h.near_of_active id hid)

/-! ### Ends of activations -/

/-- The innermost activation of a frame ends in both arenas, and nothing is freed. -/
theorem Shares.deactivate (h : a.Shares good w b) (id : FrameId) (hkept : w'.kept = w.kept)
    (hnear : w'.near = w.near) (hinner : w'.inner = w.inner) (hself : w'.active id ≤ w.active id - 1)
    (hother : ∀ other, other ≠ id → w'.active other = w.active other) :
    (a.modify id Frame.deactivate).Shares good w' (b.modify id Frame.deactivate) where
  left := hkept ▸ h.left.deactivate hself hother
  right := hkept ▸ h.right.deactivate hself hother
  slotsLeft := h.slotsLeft.deactivate id
  slotsRight := h.slotsRight.deactivate id
  size := by rw [size_frames_modify, size_frames_modify, h.size]
  same := same_modify h.same id fun f g hfg => by
    rw [Frame.view_deactivate, Frame.view_deactivate, hfg]
  mindsLeft := hnear ▸ h.mindsLeft.modify id Frame.parent_deactivate fun _ hf => hf.deactivate
  mindsRight := hnear ▸ h.mindsRight.modify id Frame.parent_deactivate fun _ hf => hf.deactivate
  nestsLeft := hinner ▸ h.nestsLeft.modify id Frame.parent_deactivate
  nestsRight := hinner ▸ h.nestsRight.modify id Frame.parent_deactivate
  near_of_kept := hkept ▸ hnear ▸ h.near_of_kept
  near_of_active other hactive := by
    rw [hnear]
    refine h.near_of_active other (Nat.lt_of_lt_of_le hactive ?_)
    by_cases heq : other = id
    · exact heq ▸ hself.trans (Nat.sub_le _ _)
    · exact Nat.le_of_eq (hother other heq)

/-- Frames are freed in one of the arenas that are neither kept nor active. -/
theorem Shares.replace {a' : Arena} (h : a.Shares good w b) (hsupports : a'.Supports w.kept w.active)
    (hslots : a'.Slotted) (hsize : a'.frames.size = a.frames.size)
    (hold : ∀ id f', a'.get? id = some f' → ∃ f, a.get? id = some f ∧ f'.view = f.view) :
    a'.Shares good w b where
  left := hsupports
  right := h.right
  slotsLeft := hslots
  slotsRight := h.slotsRight
  size := h.size.trans hsize.symm
  same id f' g hf' hg := by
    obtain ⟨f, hf, hview⟩ := hold id f' hf'
    rw [hview]
    exact h.same id f g hf hg
  mindsLeft id f' hnear hf' := by
    obtain ⟨f, hf, hview⟩ := hold id f' hf'
    obtain ⟨hcontents, hparents⟩ := h.mindsLeft id f hnear hf
    exact ⟨hcontents.of_view hview, Frame.eq_of_view hview Frame.parent (fun _ => rfl) ▸ hparents⟩
  mindsRight := h.mindsRight
  nestsLeft id f' hinner hf' := by
    obtain ⟨f, hf, hview⟩ := hold id f' hf'
    rw [Frame.eq_of_view hview Frame.parent fun _ => rfl]
    exact h.nestsLeft id f hinner hf
  nestsRight := h.nestsRight
  near_of_kept := h.near_of_kept
  near_of_active := h.near_of_active

/-- What the arenas share depends on the frames that are known only. -/
theorem Shares.known (h : a.Shares good w b) (hkept : w'.kept = w.kept) (hnear : w'.near = w.near)
    (hinner : w'.inner = w.inner) (hactive : w'.active = w.active) : a.Shares good w' b where
  left := hkept ▸ hactive ▸ h.left
  right := hkept ▸ hactive ▸ h.right
  slotsLeft := h.slotsLeft
  slotsRight := h.slotsRight
  size := h.size
  same := h.same
  mindsLeft := hnear ▸ h.mindsLeft
  mindsRight := hnear ▸ h.mindsRight
  nestsLeft := hinner ▸ h.nestsLeft
  nestsRight := hinner ▸ h.nestsRight
  near_of_kept := hkept ▸ hnear ▸ h.near_of_kept
  near_of_active := hactive ▸ hnear ▸ h.near_of_active

end Arena
end ScriptVM
