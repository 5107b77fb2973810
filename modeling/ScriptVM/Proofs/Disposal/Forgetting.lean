import ScriptVM.Proofs.Collection.Release
import ScriptVM.Proofs.Disposal.Frames

/-!
# What is forgotten when frames are freed

Where frames are freed while code runs, less is known afterwards: what can still be reached, and what
is held on to. That is enough. What runs goes on in frames that are still there, and whatever an object
refers to that can be reached is still good, or a frame that is still kept.
-/
namespace ScriptVM

/-- The frame of a suspended body lies in another one. -/
def Kind.Nested (inner : FrameId → Prop) : Kind → Prop
  | .generator g => ∀ id ∈ g.frame, inner id
  | _ => True

namespace Knowledge

/-- What is known of what a reference leads to. -/
def Knows (w : Knowledge) (good : Value → Prop) : Target → Prop
  | .object v => good v
  | .frame id => w.kept id

/-- At a later stage the same runs, the same is held on to, and that is still known. -/
structure Past (w : Knowledge) (good : Value → Prop) (w' : Knowledge) (good' : Value → Prop) :
    Prop where
  active : w'.active = w.active
  calls : w'.calls = w.calls
  root : w'.root = w.root
  held : w'.held = w.held
  inner : ∀ id, w.inner id → w'.inner id
  known : ∀ r ∈ w.held, w.Knows good r.target → w'.Knows good' r.target

/-- Something else is held on to, too. -/
def hold (w : Knowledge) (refs : List Reference) : Knowledge := { w with held := refs ++ w.held }

variable {w w' w'' : Knowledge} {good good' good'' : Value → Prop} {r : Reference}

@[simp] theorem knows_value {v : Value} : w.Knows good (Reference.value v).target ↔ good v := .rfl

@[simp] theorem knows_code {id : FrameId} : w.Knows good (Reference.code id).target ↔ w.kept id := .rfl

@[simp] theorem knows_frame {id : FrameId} :
    w.Knows good (Reference.frame id).target ↔ w.kept id := .rfl

theorem Knows.imp {x : Target} (h : w.Knows good x) (hkept : ∀ id, w.kept id → w'.kept id) :
    w'.Knows good x := by
  cases x with
  | object v => exact h
  | frame id => exact hkept id h

theorem Le.past (h : w.Le w') : w.Past good w' good where
  active := h.active_eq
  calls := by rw [h.same]
  root := by rw [h.same]
  held := by rw [h.same]
  inner := h.inner
  known _ _ hknown := hknown.imp h.kept

theorem Past.trans (h : w.Past good w' good') (h' : w'.Past good' w'' good'') :
    w.Past good w'' good'' where
  active := h'.active.trans h.active
  calls := h'.calls.trans h.calls
  root := h'.root.trans h.root
  held := h'.held.trans h.held
  inner id hid := h'.inner id (h.inner id hid)
  known r hr hknown := h'.known r (h.held ▸ hr) (h.known r hr hknown)

end Knowledge

namespace Likeness

variable {left right : Bool} {good good' : Value → Prop} {w w' : Knowledge} {m n : Machine}

/-! ## What payloads and objects rely on -/

/-- A payload is sound when it refers to what is known and a suspended body has a frame that lies in
another one. -/
theorem soundKind_iff {k : Kind} : (sharing left right good).SoundKind w k ↔
    (∀ r ∈ k.references, w.Knows good r.target) ∧ k.Nested w.inner := by
  cases k with
  | hash table =>
    simp only [SoundKind, Kind.references, Kind.Nested, List.forall_mem_flatMap, List.forall_mem_cons]
    simp
  | iterator remaining delivered =>
    simp only [SoundKind, Kind.references, Kind.Nested, List.forall_mem_map, List.forall_mem_append]
    simp [and_comm]
  | function f =>
    obtain ⟨callable, receiver⟩ := f
    cases callable <;>
      simp [SoundKind, Kind.references, Kind.Nested, Function.references, Callable.references]
  | generator g =>
    simp only [SoundKind, Kind.references, Kind.Nested, Generator.references, List.forall_mem_append,
      List.forall_mem_cons, List.forall_mem_map, Option.mem_toList, Knowledge.knows_value,
      Knowledge.knows_frame, generator_sharing, good_sharing]
    constructor
    · rintro ⟨⟨hscope, hframe⟩, hsource, hbuffered⟩
      exact ⟨⟨⟨hsource, hbuffered⟩, hscope, fun id hid => (hframe id hid).1⟩,
        fun id hid => (hframe id hid).2⟩
    · rintro ⟨⟨⟨hsource, hbuffered⟩, hscope, hkept⟩, hinner⟩
      exact ⟨⟨hscope, fun id hid => ⟨hkept id hid, hinner id hid⟩⟩, hsource, hbuffered⟩
  | type definition =>
    cases definition with
    | builtin tag => simp [SoundKind, Kind.references, Kind.Nested, TypeDef.references]
    | ofClass c =>
      simp only [SoundKind, Kind.references, Kind.Nested, TypeDef.references, List.forall_mem_map,
        List.forall_mem_append]
      simp [and_comm]
  | _ => simp [SoundKind, Kind.references, Kind.Nested]

theorem soundMember_iff {member : Member} : (sharing left right good).SoundMember w member ↔
    ∀ r ∈ member.references, w.Knows good r.target := by
  cases member <;> simp [SoundMember, Member.references]

/-- Other things may be known, as long as what an object refers to is. -/
theorem SoundObject.narrow {o : Object} (h : (sharing left right good).SoundObject w o)
    (hknows : ∀ r ∈ o.references, w.Knows good r.target → w'.Knows good' r.target)
    (hinner : w'.inner = w.inner) : (sharing left right good').SoundObject w' o := by
  obtain ⟨hkind, hnested⟩ := soundKind_iff.1 h.kind
  refine ⟨soundKind_iff.2 ⟨fun r hr => hknows r (List.mem_append_right _ hr) (hkind r hr),
    hinner ▸ hnested⟩, fun name member hmember => soundMember_iff.2 fun r hr => ?_⟩
  have hmem : r ∈ o.members.values.flatMap Member.references :=
    List.mem_flatMap.2 ⟨member, Bindings.mem_values_of_get? hmember, hr⟩
  exact hknows r (List.mem_append_left _ hmem)
    (soundMember_iff.1 (h.member name member hmember) r hr)

end Likeness

/-! ## Stages -/

theorem Kind.Nested.imp {inner inner' : FrameId → Prop} {k : Kind} (h : k.Nested inner)
    (hinner : ∀ id, inner id → inner' id) : k.Nested inner' := by
  cases k with
  | generator g => exact fun id hid => hinner id (h id hid)
  | _ => trivial

/-- At each stage, fewer values may be good. -/
def Fading.sharing (left right : Bool) : Fading where
  Stage := Value → Prop
  likeness good := .sharing left right good
  knows {good} w r := w.Knows good r.target
  knows_value := .rfl
  held w r := r ∈ w.held
  hold w refs := w.hold refs
  held_hold h := List.mem_append.2 h.symm
  knows_hold h := h.imp fun _ h => h
  sound_hold h := Likeness.soundKind_iff.2 (Likeness.soundKind_iff.1 h)
  past {good good'} w w' := w.Past good w' good'
  past_of_le h := h.past
  past_trans h h' := h.trans h'
  held_past h hr := h.held ▸ hr
  knows_past h hr hknown := h.known _ hr hknown
  knows_of_sound h hr := (Likeness.soundKind_iff.1 h).1 _ hr
  sound_past h hk hknown :=
    Likeness.soundKind_iff.2 ⟨hknown, (Likeness.soundKind_iff.1 hk).2.imp h.inner⟩

/-- Frames that run go on running. -/
def Likeness.sharingFading (left right : Bool) : (Fading.sharing left right).Frames where
  each good := sharingFrames good
  runs_hold h := h
  runs_past h hid := Nat.lt_of_lt_of_eq hid (congrFun h.active _).symm

/-! ## What can still be reached -/

namespace Machine

/-- The good values that can be reached, or will be made. -/
def stillGood (m : Machine) (also : List Reference) (good : Value → Prop) (v : Value) : Prop :=
  good v ∧ (m.Rooted also (.object v) ∨ m.heap.objects.size ≤ v.address)

/-- The kept frames that an object which can be reached refers to, or that are held on to. -/
def stillKept (m : Machine) (also : List Reference) (w : Knowledge) (id : FrameId) : Prop :=
  w.kept id ∧ ((∃ v, m.Rooted also (.object v) ∧ ∃ r ∈ (m.heap.get v).references,
    r.target = .frame id) ∨ ∃ r ∈ m.held ++ also, r.target = .frame id)

/-- What is known when everything that cannot be reached was forgotten. -/
def narrowed (m : Machine) (also : List Reference) (w : Knowledge) : Knowledge :=
  { w with
    kept := m.stillKept also w
    near := fun id => w.near id ∧ m.Rooted also (.frame id) ∧ m.arena.isLive id = true }

section forgetting

variable {m : Machine} {also : List Reference} {good : Value → Prop} {w : Knowledge} {a b : Arena}
  {id : FrameId} {f : Frame}

/-- What is active can be reached. -/
theorem rooted_of_active (h : m.arena.Shares good w b) (also : List Reference)
    (hid : 0 < w.active id) :
    ∃ f, m.arena.get? id = some f ∧ w.active id ≤ f.active ∧ m.Rooted also (.frame id) := by
  obtain ⟨f, hf, hle⟩ := h.left.active id hid
  exact ⟨f, hf, hle, .active hf (Nat.lt_of_lt_of_le hid hle)⟩

/-- What stays kept can be reached, and is live. -/
theorem rooted_of_stillKept (h : m.arena.Shares good w b) (hid : m.stillKept also w id) :
    ∃ f, m.arena.get? id = some f ∧ m.Rooted also (.frame id) := by
  obtain ⟨hkept, hreferred⟩ := hid
  obtain ⟨f, hf, -⟩ := h.left.kept id hkept
  refine ⟨f, hf, ?_⟩
  rcases hreferred with ⟨v, hv, r, hr, htarget⟩ | ⟨r, hr, htarget⟩
  · exact htarget ▸ hv.object hr
  · exact htarget ▸ .held hr

/-- What a frame that stays near refers to is still good, or near. -/
theorem minds_narrowed (h : m.arena.Shares good w b) (hnear : (m.narrowed also w).near id)
    (hf : m.arena.get? id = some f) :
    f.Good (m.stillGood also good) ∧ ∀ p ∈ f.parent, (m.narrowed also w).near p := by
  obtain ⟨hcontents, hparents⟩ := h.mindsLeft id f hnear.1 hf
  refine ⟨hcontents.narrow fun v hv hr => ⟨hv, .inl (hnear.2.1.frame hf hr)⟩, fun p hp => ?_⟩
  have hr : .frame p ∈ f.references :=
    List.mem_append_right _ (List.mem_map_of_mem (Option.mem_toList.2 hp))
  obtain ⟨g, hg⟩ := h.left.family.live_parent hf hp
  exact ⟨hparents p hp, hnear.2.1.frame hf hr, Arena.isLive_of_get? hg⟩

/-- The arenas share what can still be reached. -/
theorem shares_narrowed (h : m.arena.Shares good w b) (also : List Reference) :
    m.arena.Shares (m.stillGood also good) (m.narrowed also w) b where
  left := h.left.mono (fun _ hid => hid.1) fun _ => Nat.le_refl _
  right := h.right.mono (fun _ hid => hid.1) fun _ => Nat.le_refl _
  slotsLeft := h.slotsLeft
  slotsRight := h.slotsRight
  size := h.size
  same := h.same
  mindsLeft _ _ hnear hf := minds_narrowed h hnear hf
  mindsRight id g hnear hg := by
    obtain ⟨f, hf⟩ := Option.isSome_iff_exists.1 hnear.2.2
    obtain ⟨hcontents, hparents⟩ := minds_narrowed h hnear hf
    have hview := h.same id f g hf hg
    exact ⟨hcontents.of_view hview, Frame.eq_of_view hview Frame.parent (fun _ => rfl) ▸ hparents⟩
  nestsLeft := h.nestsLeft
  nestsRight := h.nestsRight
  near_of_kept id hid := by
    obtain ⟨f, hf, hrooted⟩ := rooted_of_stillKept h hid
    exact ⟨h.near_of_kept id hid.1, hrooted, Arena.isLive_of_get? hf⟩
  near_of_active id hid := by
    obtain ⟨f, hf, -, hrooted⟩ := rooted_of_active h also hid
    exact ⟨h.near_of_active id hid, hrooted, Arena.isLive_of_get? hf⟩

/-- What can still be reached and is known is still known. -/
theorem knows_narrowed {r : Reference} (hr : r ∈ m.held ++ also) (hknown : w.Knows good r.target) :
    (m.narrowed also w).Knows (m.stillGood also good) r.target := by
  cases htarget : r.target with
  | object v =>
    rw [htarget] at hknown
    exact ⟨hknown, .inl (htarget ▸ .held hr)⟩
  | frame id =>
    rw [htarget] at hknown
    exact ⟨hknown, .inr ⟨r, hr, htarget⟩⟩

/-- What an object that can be reached refers to can be reached, too. -/
theorem soundObject_stillGood {left right : Bool} {v : Value}
    (h : (Likeness.sharing left right good).SoundObject w (m.heap.get v))
    (hv : m.stillGood also good v) :
    (Likeness.sharing left right (m.stillGood also good)).SoundObject (m.narrowed also w)
      (m.heap.get v) := by
  rcases hv.2 with hrooted | hbeyond
  · refine h.narrow (fun r hr hknown => ?_) rfl
    have hreached := hrooted.object hr
    cases htarget : r.target with
    | object u =>
      rw [htarget] at hknown hreached
      exact ⟨hknown, .inl hreached⟩
    | frame id =>
      rw [htarget] at hknown
      exact ⟨hknown, .inl ⟨v, hrooted, r, hr, htarget⟩⟩
  · have hdefault : m.heap.get v = default := by
      simp [Heap.get, Array.getD, Nat.not_lt.2 hbeyond]
    rw [hdefault]
    exact ⟨trivial, fun name member hmember => by cases hmember⟩

/-- Whatever frees frames leaves what is still kept or active, and with a holder if it is kept. -/
theorem Collected.supports (hc : m.Collected also a) (h : m.arena.Shares good w b) :
    a.Supports (m.narrowed also w).kept (m.narrowed also w).active where
  family := hc.family
  kept id hid := by
    obtain ⟨f, hf, hrooted⟩ := rooted_of_stillKept h hid
    obtain ⟨f', hf', -⟩ := hc.rooted id f hf hrooted
    refine ⟨f', hf', ?_⟩
    rcases hid.2 with ⟨v, hv, r, hr, htarget⟩ | ⟨r, hr, htarget⟩
    · exact hc.part v r id f' hv hr htarget hf'
    · exact hc.held r id f' hr htarget hf'
  active id hid := by
    obtain ⟨f, hf, hle, hrooted⟩ := rooted_of_active h also hid
    obtain ⟨f', hf', hbare⟩ := hc.rooted id f hf hrooted
    have heq : f'.active = f.active := Frame.map_of_bare hbare Frame.active fun _ => rfl
    exact ⟨f', hf', heq ▸ hle⟩

end forgetting
end Machine

/-! ## Frames that are freed -/

namespace Likeness

/-- Machines that are alike at a later stage. What something refers to is still known then, too. -/
def Renewed (left right : Bool) (good : Value → Prop) (w : Knowledge) (also : List Reference)
    (m n : Machine) : Prop :=
  ∃ (good' : Value → Prop) (w' : Knowledge), w.Past good w' good' ∧
    (∀ r ∈ also, w.Knows good r.target → w'.Knows good' r.target) ∧
    (sharing left right good').Alike w' m n

variable {left right : Bool} {good good' : Value → Prop} {w w' : Knowledge} {m n k : Machine}
  {also : List Reference} {a : Arena}

theorem Alike.renewed (h : (sharing left right good).Alike w m n) :
    Renewed left right good w also m n :=
  ⟨good, w, (Knowledge.Le.refl w).past, fun _ _ h => h, h⟩

theorem Renewed.symm (h : Renewed left right good w also m n) :
    Renewed right left good w also n m := by
  obtain ⟨good', w', hpast, hknown, h⟩ := h
  exact ⟨good', w', hpast, hknown, h.symm_sharing⟩

/-- One thing happens after another. -/
theorem Renewed.bind {m' n' : Machine} (h : Renewed left right good w also m n)
    (hnext : ∀ good' w', (sharing left right good').Alike w' m n → w'.held = w.held →
      Renewed left right good' w' also m' n') : Renewed left right good w also m' n' := by
  obtain ⟨good', w', hpast, hknown, h⟩ := h
  obtain ⟨good'', w'', hpast', hknown', h'⟩ := hnext good' w' h hpast.held
  exact ⟨good'', w'', hpast.trans hpast', fun r hr hr' => hknown' r hr (hknown r hr hr'), h'⟩

/-- Only what can be reached is still good. -/
theorem Alike.narrowed (h : (sharing left right good).Alike w m n) (also : List Reference) :
    (sharing left right (m.stillGood also good)).Alike (m.narrowed also w) m n where
  heap := h.heap
  types := h.types
  sound v hv := Machine.soundObject_stillGood (h.sound v hv.1) hv
  fresh v hv := ⟨h.fresh v hv, .inr hv⟩
  goodTypes name v hv := ⟨h.goodTypes name v hv, .inl (.type (Bindings.mem_values_of_get? hv))⟩
  rest := ⟨h.calls, h.root, h.held, h.rest.2.2.2.1, Machine.shares_narrowed h.shares also⟩

/-- Frames are freed that are neither kept nor active. -/
theorem Alike.replace (h : (sharing left right good).Alike w m n)
    (hsupports : a.Supports w.kept w.active) (hslots : a.Slotted)
    (hsize : a.frames.size = m.arena.frames.size)
    (hold : ∀ id f', a.get? id = some f' → ∃ f, m.arena.get? id = some f ∧ f'.view = f.view) :
    (sharing left right good).Alike w { m with arena := a } n :=
  h.reshare_arena (b := n.arena) (h.shares.replace hsupports hslots hsize hold)
    (Knowledge.keeps_of_eq rfl rfl) rfl rfl rfl

/-- One of the machines frees frames that cannot be reached. -/
theorem Alike.collected (h : (sharing left right good).Alike w m n)
    (hheld : ∀ r ∈ w.held, r ∈ m.held) (hc : m.Collected also a) :
    Renewed left right good w also { m with arena := a } n := by
  refine ⟨m.stillGood also good, m.narrowed also w, ⟨rfl, rfl, rfl, rfl, fun _ h => h, fun r hr =>
    Machine.knows_narrowed (List.mem_append_left _ (hheld r hr))⟩, fun r hr =>
    Machine.knows_narrowed (List.mem_append_right _ hr), ?_⟩
  refine (h.narrowed also).replace (hc.supports h.shares) (hc.slotted h.shares.slotsLeft) hc.size
    fun id f' hf' => ?_
  obtain ⟨f, hf, hbare⟩ := hc.old id f' hf'
  exact ⟨f, hf, Frame.view_of_bare hbare⟩

end Likeness
end ScriptVM
