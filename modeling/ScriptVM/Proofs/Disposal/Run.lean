import ScriptVM.Proofs.Disposal.Forgetting
import ScriptVM.Proofs.Frame.Effect
import ScriptVM.Proofs.Likeness.Steady

/-!
# Code on machines that dispose of different frames

A body that runs as an activation of a frame ends that activation, each machine in its own way. A way
is careful when nothing that can be reached or is held on to is freed, and when it is never in the way
of what happens to frames that are still there. Engines that dispose of frames carefully run all code
alike, whatever the code does and however it fails.
-/
namespace ScriptVM

namespace Knowledge

variable {w w' : Knowledge} {good good' : Value → Prop} {id : FrameId} {refs : List Reference}

theorem active_enter_pos : 0 < (w.enter id).active id := by
  rw [active_enter_self]
  exact Nat.succ_pos _

/-- One more activation of a frame, the innermost one. -/
def run (w : Knowledge) (id : FrameId) : Knowledge :=
  { w.enter id with
    calls := w.calls.push id
    attended := fun other hother => (List.mem_cons.1 hother).elim
      (fun h => h ▸ active_enter_pos) fun h => (w.enter id).attended other h }

/-- What is known later, when only the activations of a former world are left. -/
def leave (w' w : Knowledge) : Knowledge :=
  { w' with active := w.active, calls := w.calls, attended := w.attended }

theorem past_leave (h : (w.run id).Past good w' good') : w.Past good (w'.leave w) good' where
  active := rfl
  calls := rfl
  root := h.root
  held := h.held
  inner := h.inner
  known := h.known

/-- What is held on to in between is let go again. -/
theorem past_of_hold (h : (w.hold refs).Past good w' good') :
    w.Past good { w' with held := w.held } good' where
  active := h.active
  calls := h.calls
  root := h.root
  held := rfl
  inner := h.inner
  known r hr := h.known r (List.mem_append_right _ hr)

end Knowledge

/-- What is kept or runs is near, and live in both arenas. -/
theorem Arena.Shares.reaches {good : Value → Prop} {w : Knowledge} {a b : Arena} {id : FrameId}
    (h : a.Shares good w b) (hid : w.kept id ∨ 0 < w.active id) :
    w.near id ∧ a.isLive id = true ∧ b.isLive id = true := by
  rcases hid with hid | hid
  · obtain ⟨f, g, hf, hg, -⟩ := h.kept hid
    exact ⟨h.near_of_kept id hid, isLive_of_get? hf, isLive_of_get? hg⟩
  · obtain ⟨f, g, hf, hg, -⟩ := h.active hid
    exact ⟨h.near_of_active id hid, isLive_of_get? hf, isLive_of_get? hg⟩

/-! ## Careful ways to dispose of frames -/

open Likeness in
/-- A way to dispose of frames that frees nothing that is still needed, and never gives up because of
a frame that is. -/
structure Disposal.Careful (d : Disposal) : Prop where
  finish : ∀ {right : Bool} {good : Value → Prop} {w : Knowledge} {m n : Machine} {f : Frame}
    (also : List Reference) (id : FrameId), m.arena.CountsChildren → m.arena.get? id = some f →
    (sharing d.tracks right good).Alike w (m.modifyFrame id Frame.deactivate) n →
    Renewed d.tracks right good w also { m with arena := d.finish m also id } n
  collect : ∀ {right : Bool} {good : Value → Prop} {w : Knowledge} {m n : Machine}, w.held = [] →
    (sharing d.tracks right good).Alike w m n → Renewed d.tracks right good w [] (d.collect m) n
  allows : ∀ {right : Bool} {good : Value → Prop} {w : Knowledge} {m n : Machine},
    (sharing d.tracks right good).Alike w m n → d.allows m = true
  admits : ∀ {right : Bool} {good : Value → Prop} {w : Knowledge} {m n : Machine} {id : FrameId},
    (sharing d.tracks right good).Alike w m n → 0 < w.active id → w.inner id → d.admits m id = true
  passes : ∀ {c : Cause}, c.isMissingFrame = false → d.passes c = true

namespace Likeness

variable {left right : Bool} {good : Value → Prop} {w : Knowledge} {m n : Machine} {id : FrameId}
  {f : Frame}

/-- A collection frees nothing that can be reached. -/
theorem Alike.collectGarbage (h : (sharing left right good).Alike w m n) (hheld : w.held = []) :
    Renewed left right good w [] m.collectGarbage n := by
  rw [Machine.collectGarbage_eq]
  exact h.collected (by simp [hheld]) (Machine.collected_spec h.shares.left.family)

/-- A release frees nothing that can be reached, or is held on to. -/
theorem Alike.release (hfamily : m.arena.CountsChildren) (hf : m.arena.get? id = some f)
    (h : (sharing true right good).Alike w (m.modifyFrame id Frame.deactivate) n)
    (also : List Reference) :
    Renewed true right good w also { m with arena := ((m.holding also).release id).arena } n :=
  h.collected (fun _ hr => h.held ▸ hr) (Machine.collected_release hfamily hf also)

/-- Frames on the call stack are active, each in a slot of its own. -/
theorem Alike.holdsCalls (h : (sharing left right good).Alike w m n) : m.holdsCalls = true := by
  refine List.all_eq_true.2 fun id hid => ?_
  have hactive := w.attended id (h.calls ▸ hid)
  obtain ⟨f, hf, hle⟩ := h.shares.left.active id hactive
  have hslot := h.shares.slotsLeft.home id f hf
  simp only [hf, Option.any_some, hslot, decide_true, Bool.and_true]
  exact decide_eq_true (Nat.lt_of_lt_of_le hactive hle)

/-- A frame that lies in another one lies in a live one. -/
theorem Alike.holdsScope (h : (sharing left right good).Alike w m n) (hid : 0 < w.active id)
    (hinner : w.inner id) : m.holdsScope id = true := by
  obtain ⟨f, -, hf, -⟩ := h.shares.active hid
  obtain ⟨p, hp⟩ := h.shares.nestsLeft id f hinner hf
  obtain ⟨g, hg⟩ := h.shares.left.family.live_parent hf hp
  simp [Machine.holdsScope, hf, hp, Arena.isLive, hg]

end Likeness

open Likeness

theorem Disposal.careful_freeing : freeing.Careful where
  finish {right good w m n f} also id hfamily hf h := by
    refine (Alike.replace (a := m.arena.endActivation id) h (h.shares.left.settle id) ?_ ?_ ?_).renewed
    · exact h.shares.slotsLeft.settle_go _ id
    · exact Arena.size_frames_settle _ _
    · intro other g hg
      obtain ⟨k, hk⟩ := Arena.get?_of_settle_go hg
      exact ⟨_, hk, rfl⟩
  collect hheld h := h.collectGarbage hheld
  allows _ := rfl
  admits _ _ _ := rfl
  passes _ := rfl

theorem Disposal.careful_hoarding : hoarding.Careful where
  finish _ _ _ _ h := h.renewed
  collect _ h := h.renewed
  allows _ := rfl
  admits _ _ _ := rfl
  passes _ := rfl

theorem Disposal.careful_releasing : releasing.Careful where
  finish also _ hfamily hf h := h.release hfamily hf also
  collect hheld h := h.collectGarbage hheld
  allows _ := rfl
  admits _ _ _ := rfl
  passes _ := rfl

theorem Disposal.careful_wary : wary.Careful where
  finish also _ hfamily hf h := h.release hfamily hf also
  collect hheld h := h.collectGarbage hheld
  allows h := h.holdsCalls
  admits h hid hinner := h.holdsScope hid hinner
  passes hc := by simp [wary, hc]

namespace Likeness

section run

variable {left right : Bool} {good good' : Value → Prop} {α β : Type} {w w' : Knowledge}
  {m n : Machine} {id s : FrameId} {x y : Run α} {also refs : List Reference} {e e' : Engine}
  {d d' : Disposal} {digests : Digests} {post : (Value → Prop) → α → Prop}
  {after : (Value → Prop) → β → Prop}

/-! ## Holding on to something -/

/-- What is held on to can be told from the world. -/
theorem Alike.rehold (h : (sharing left right good).Alike w m n) (held : List Reference) :
    (sharing left right good).Alike { w with held := held }
      { m with held := Knowledge.holds { w with held := held } left }
      { n with held := Knowledge.holds { w with held := held } right } := by
  obtain ⟨b, rfl, hb⟩ := h.other
  exact h.reshare { m with held := Knowledge.holds { w with held := held } left }
    (hb.known rfl rfl rfl rfl) (Knowledge.keeps_of_eq rfl rfl) rfl rfl h.calls h.root rfl

/-- What a machine held on to before, if it keeps track of that. -/
def restored (tracks : Bool) (m k : Machine) : Machine :=
  if tracks then { k with held := m.held } else k

theorem keep_apply {tracks : Bool} (ht : e.tracks = tracks) (hheld : m.held = w.holds tracks)
    (refs : List Reference) (x : Run α) :
    e.keep refs x m = match x { m with held := (w.hold refs).holds tracks } with
      | .ok a k => .ok a (restored tracks m k)
      | .error stop k => .error stop (restored tracks m k) := by
  unfold Engine.keep restored
  rw [ht]
  cases tracks with
  | true =>
    have he : (w.hold refs).holds true = refs ++ m.held := by
      rw [hheld]
      rfl
    rw [he]
    rfl
  | false =>
    have he : ({ m with held := (w.hold refs).holds false } : Machine) = m := by
      cases m
      cases hheld
      rfl
    rw [he]
    change x m = _
    cases x m <;> rfl

theorem restored_eq {tracks : Bool} {k : Machine} (hheld : m.held = w.holds tracks)
    (hk : k.held = w'.holds tracks) : restored tracks m k = { k with held := w.holds tracks } := by
  cases tracks with
  | true => rw [← hheld]; rfl
  | false =>
    cases k
    cases hk
    rfl

/-- Something is held on to during a computation on both machines. -/
theorem later_keep (ht : e.tracks = left) (ht' : e'.tracks = right)
    (hrefs : ∀ r ∈ refs, w.Knows good r.target)
    (h : (Fading.sharing left right).Later (s := good) (w.hold refs) x y post) :
    (Fading.sharing left right).Later (s := good) w (e.keep refs x) (e'.keep refs y)
      fun good' a => post good' a ∧ ∀ v, .value v ∈ refs → good' v := by
  intro m n hmn
  have hends := h _ _ (hmn.rehold (refs ++ w.held))
  rw [keep_apply ht hmn.held, keep_apply ht' hmn.symm_sharing.held]
  refine hends.byEnds (fun _ _ _ => trivial) ?_ ?_
  · intro a k l good' w' hpast ha halike
    dsimp only
    rw [restored_eq hmn.held halike.held, restored_eq hmn.symm_sharing.held halike.symm_sharing.held]
    refine ⟨rfl, good', { w' with held := w.held }, Knowledge.past_of_hold hpast, ⟨ha, fun v hv => ?_⟩,
      halike.rehold w.held⟩
    exact hpast.known _ (List.mem_append_left _ hv) (hrefs _ hv)
  · intro f k l good' w' hpast hadmits halike
    dsimp only
    rw [restored_eq hmn.held halike.held, restored_eq hmn.symm_sharing.held halike.symm_sharing.held]
    exact ⟨rfl, good', { w' with held := w.held }, Knowledge.past_of_hold hpast, hadmits,
      halike.rehold w.held⟩

/-! ## Computations that end with a renewal -/

theorem Renewed.ends_ok {a : α} (h : Renewed left right good w also m n)
    (hpost : ∀ good', (∀ v, .value v ∈ also → good v → good' v) → post good' a) :
    (Fading.sharing left right).Ends (s := good) w post (.ok a m) (.ok a n) := by
  obtain ⟨good', w', hpast, hknown, halike⟩ := h
  exact ⟨rfl, good', w', hpast, hpost good' fun v hv => hknown _ hv, halike⟩

theorem Renewed.ends_failed {f : Failure} (h : Renewed left right good w f.cause.references m n)
    (hf : (sharing left right good).admits f.cause) :
    (Fading.sharing left right).Ends (s := good) w post (.error (.failed f) m)
      (.error (.failed f) n) := by
  obtain ⟨good', w', hpast, hknown, halike⟩ := h
  refine ⟨rfl, good', w', hpast, ⟨fun v hv => ?_, hf.2⟩, halike⟩
  have hmem : .value v ∈ f.cause.references := by
    rw [hv]
    exact List.mem_singleton.2 rfl
  exact hknown _ hmem (hf.1 v hv)

/-- Something goes on after a renewal. -/
theorem Renewed.ends (h : Renewed left right good w also m n)
    (hxy : ∀ good' w', (∀ r ∈ also, w.Knows good r.target → w'.Knows good' r.target) →
      w'.active = w.active → (sharing left right good').Alike w' m n →
      (Fading.sharing left right).Ends (s := good') w' post (x m) (y n)) :
    (Fading.sharing left right).Ends (s := good) w post (x m) (y n) := by
  obtain ⟨good', w', hpast, hknown, halike⟩ := h
  exact (hxy good' w' hknown hpast.active halike).mono hpast fun _ _ ha => ha

/-! ## New frames -/

/-- Frames that lost their last holder are looked at, if the machine keeps track of what it holds. -/
def settled (tracks : Bool) (also : List Reference) (m : Machine) : Machine :=
  if tracks then { m with arena := (m.holding also).settleDropped.arena } else m

theorem newFrame_bind_apply (e : Engine) (also : List Reference) (parent : Option FrameId)
    (object : Option Value) (bindsObject : Bool) (k : FrameId → Run α) (m : Machine) :
    (e.newFrame also parent object bindsObject >>= k) m =
      (Run.newFrame parent object bindsObject >>= k) (settled e.tracks also m) := by
  unfold Engine.newFrame settled
  cases e.tracks <;> rfl

theorem Alike.settled_left (h : (sharing left right good).Alike w m n) (also : List Reference) :
    Renewed left right good w also (settled left also m) n := by
  cases left with
  | false => exact h.renewed
  | true =>
    exact h.collected (fun _ hr => h.held ▸ hr)
      (Machine.collected_settleDropped h.shares.left.family also)

theorem Alike.settled (h : (sharing left right good).Alike w m n) (also : List Reference) :
    Renewed left right good w also (settled left also m) (settled right also n) :=
  (h.settled_left also).bind fun _ _ h' _ => (h'.symm_sharing.settled_left also).symm

/-- Computations that start in a frame and end when its innermost activation has ended. -/
def Leaving (left right : Bool) (good : Value → Prop) (w : Knowledge) (id : FrameId) (x y : Run α)
    (post : (Value → Prop) → α → Prop) : Prop :=
  ∀ m n, (sharing left right good).Alike (w.enter id) m n →
    (Fading.sharing left right).Ends (s := good) w post (x m) (y n)

theorem Leaving.map {f : α → β} (h : Leaving left right good w id x y post)
    (hf : ∀ good' a, post good' a → after good' (f a)) :
    Leaving left right good w id (do return f (← x)) (do return f (← y)) after := by
  intro m n hmn
  simp only [Bind.bind, EStateM.bind, pure, EStateM.pure]
  refine (h m n hmn).byEnds (fun _ _ _ => trivial) ?_ ?_
  · intro a m' n' good' w' hw ha halike
    exact ⟨rfl, good', w', hw, hf good' a ha, halike⟩
  · intro f m' n' good' w' hw hadmits halike
    exact ⟨rfl, good', w', hw, hadmits, halike⟩

/-- A computation in the frame before the activation ends. When it fails, the activation is never
ended, and the frame only counts more activations than are known of. -/
theorem Agree.bind_leaving {known : Knowledge → α → Prop} {f g : α → Run β}
    (h : (sharing left right good).Agree (w.enter id) x y known)
    (hf : ∀ w' a, w.Le w' → known (w'.enter id) a → Leaving left right good w' id (f a) (g a) after) :
    Leaving left right good w id (x >>= f) (y >>= g) after := by
  intro m n hmn
  simp only [Bind.bind, EStateM.bind]
  refine (h m n hmn).byEnds (fun _ _ _ => trivial) ?_ ?_
  · intro a m' n' w' hw ha halike
    obtain ⟨w'', hle, rfl⟩ := hw.of_enter
    exact (hf w'' _ hle ha m' n' halike).mono hle.past fun _ _ hb => hb
  · intro f m' n' w' hw hadmits halike
    obtain ⟨w'', hle, rfl⟩ := hw.of_enter
    refine ⟨rfl, good, w'', hle.past, hadmits, ?_⟩
    exact halike.reshare_arena (a := m'.arena) (b := n'.arena) halike.shares.weaken
      (Knowledge.keeps_of_eq rfl rfl) rfl rfl rfl

/-- A new frame in a frame that is kept or runs. What is held on to meanwhile is still known. -/
theorem later_newFrame_bind {k k' : FrameId → Run α} {object : Option Value} (bindsObject : Bool)
    (ht : e.tracks = left) (ht' : e'.tracks = right) (hs : w.kept s ∨ 0 < w.active s)
    (hmem : .frame s ∈ also) (hobject : ∀ v ∈ object, good v ∧ .value v ∈ also)
    (hk : ∀ good' w' id, (∀ r ∈ also, w.Knows good r.target → w'.Knows good' r.target) →
      w'.inner id → Leaving left right good' w' id (k id) (k' id) post) :
    (Fading.sharing left right).Later (s := good) w
      (e.newFrame also (some s) object bindsObject >>= k)
      (e'.newFrame also (some s) object bindsObject >>= k') post := by
  intro m n hmn
  rw [newFrame_bind_apply, newFrame_bind_apply, ht, ht']
  refine (hmn.settled also).ends fun good' w' hknown hactive h => ?_
  generalize settled left also m = m at h
  generalize settled right also n = n at h
  have hs' : w'.kept s ∨ 0 < w'.active s := hs.imp (hknown _ hmem) fun h => hactive ▸ h
  have hobject' : ∀ v ∈ object, good' v := fun v hv => hknown _ (hobject v hv).2 (hobject v hv).1
  have hnew := h.shares.alloc (some s) object bindsObject
    (fun _ hp => Option.some.inj hp ▸ h.shares.reaches hs') hobject' fun _ => rfl
  have halike := h.reshare_arena hnew ⟨fun _ h => h, fun _ => .inl⟩ rfl rfl rfl
  have hleaving := hk good' (Knowledge.meet w' ⟨m.arena.frames.size⟩ ((some s).isSome = true))
    ⟨m.arena.frames.size⟩ (fun r hr hknows => (hknown r hr hknows).imp fun _ h => h) (.inr ⟨rfl, rfl⟩)
    _ _ halike
  rw [Run.newFrame_bind, Run.newFrame_bind, h.shares.size]
  exact hleaving.mono Knowledge.le_meet.past fun _ _ ha => ha

/-- One more activation of a frame that is kept. -/
theorem later_activate_bind {k k' : Run α} (hid : w.kept id)
    (hk : Leaving left right good w id k k' post) :
    (Fading.sharing left right).Later (s := good) w (Run.activate id >>= fun _ => k)
      (Run.activate id >>= fun _ => k') post := by
  intro m n hmn
  obtain ⟨f, g, hf, hg, -⟩ := hmn.shares.kept hid
  simp only [Bind.bind, EStateM.bind, Run.activate_of_live hf, Run.activate_of_live hg]
  exact hk _ _ (hmn.reshare_arena (hmn.shares.activate (hmn.shares.near_of_kept id hid) hf hg)
    (Knowledge.keeps_of_eq rfl rfl) rfl rfl rfl)

/-! ## Activations that end -/

/-- The innermost activation of a frame has ended, and nothing was freed yet. -/
theorem Alike.ended (h : (sharing left right good).Alike w' m n)
    (hactive : w'.active = (w.enter id).active) :
    (sharing left right good).Alike (w'.leave w)
      (Machine.modifyFrame { m with callStack := w.calls } id Frame.deactivate)
      (Machine.modifyFrame { n with callStack := w.calls } id Frame.deactivate) := by
  obtain ⟨b, rfl, hb⟩ := h.other
  have hself : w.active id ≤ w'.active id - 1 := by
    rw [hactive, Knowledge.active_enter_self]
    exact Nat.le_refl _
  have hends : (m.arena.modify id Frame.deactivate).Shares good (w'.leave w)
      (b.modify id Frame.deactivate) := by
    refine hb.deactivate id rfl rfl rfl hself fun other hother => ?_
    rw [hactive, Knowledge.active_enter_of_ne hother]
    rfl
  exact h.reshare (Machine.modifyFrame { m with callStack := w.calls } id Frame.deactivate) hends
    (Knowledge.keeps_of_eq rfl rfl) rfl rfl rfl h.root h.held

/-- The innermost activation of a frame ends, and each machine disposes of the frame. -/
theorem Alike.finished (hd : d.Careful) (hd' : d'.Careful)
    (h : (sharing d.tracks d'.tracks good).Alike w' m n) (hid : 0 < w'.active id)
    (hactive : w'.active = (w.enter id).active) (also : List Reference) :
    Renewed d.tracks d'.tracks good (w'.leave w) also
      { m with callStack := w.calls, arena := d.finish { m with callStack := w.calls } also id }
      { n with callStack := w.calls, arena := d'.finish { n with callStack := w.calls } also id } := by
  obtain ⟨f, g, hf, hg, -⟩ := h.shares.active hid
  have hended := h.ended hactive
  refine (hd.finish (m := { m with callStack := w.calls }) also id h.shares.left.family hf hended).bind
    fun good' w₁ h₁ _ => ?_
  exact (hd'.finish (m := { n with callStack := w.calls }) also id h.shares.right.family hg
    h₁.symm_sharing).symm

theorem unwindBy_of_push {k : Machine} {calls : CallStack} (hk : k.callStack = calls.push id)
    (also : List Reference) :
    k.unwindBy d also calls.depth =
      { k with callStack := calls, arena := d.finish { k with callStack := calls } also id } := by
  simp only [Machine.unwindBy, hk, CallStack.unwindTo_push, List.foldl_cons, List.foldl_nil]

/-- Both machines end the innermost activation. -/
theorem Alike.unwound (hd : d.Careful) (hd' : d'.Careful)
    (h : (sharing d.tracks d'.tracks good').Alike w' m n) (hpast : (w.run id).Past good w' good')
    (also : List Reference) :
    Renewed d.tracks d'.tracks good' (w'.leave w) also (m.unwindBy d also w.calls.depth)
      (n.unwindBy d' also w.calls.depth) := by
  have hactive : w'.active = (w.enter id).active := hpast.active
  have hcalls : m.callStack = w.calls.push id := h.calls.trans hpast.calls
  have hcalls' : n.callStack = w.calls.push id := h.symm_sharing.calls.trans hpast.calls
  have hid : 0 < w'.active id := by
    rw [hactive]
    exact Knowledge.active_enter_pos
  rw [unwindBy_of_push hcalls, unwindBy_of_push hcalls']
  exact h.finished hd hd' hid hactive also

/-- The activation becomes the innermost one. -/
theorem Alike.pushed (h : (sharing left right good).Alike (w.enter id) m n) :
    (sharing left right good).Alike (w.run id) { m with callStack := m.callStack.push id }
      { n with callStack := n.callStack.push id } := by
  obtain ⟨b, rfl, hb⟩ := h.other
  exact h.reshare { m with callStack := m.callStack.push id } (hb.known rfl rfl rfl rfl)
    (Knowledge.keeps_of_eq rfl rfl) rfl rfl (congrArg (CallStack.push · id) h.calls) h.root h.held

/-- A body that is run as an activation of a frame that lies in another one. -/
theorem leaving_activationBy {x y : Run (Value × Cursor)} (hd : d.Careful) (hd' : d'.Careful)
    (hinner : w.inner id)
    (h : (Fading.sharing d.tracks d'.tracks).Later (s := good) (w.run id) x y fun good r => good r.1) :
    Leaving d.tracks d'.tracks good w id (Run.activationBy d id x) (Run.activationBy d' id y)
      fun good r => good r.1 := by
  intro m n hmn
  have hadmits := hd.admits hmn Knowledge.active_enter_pos hinner
  have hadmits' := hd'.admits hmn.symm_sharing Knowledge.active_enter_pos hinner
  have hcalls : m.callStack = w.calls := hmn.calls
  have hcalls' : n.callStack = w.calls := hmn.symm_sharing.calls
  have hdepth : m.depth = w.calls.depth := congrArg CallStack.depth hcalls
  have hdepth' : n.depth = w.calls.depth := congrArg CallStack.depth hcalls'
  have hlimit : n.config.maxCallDepth = m.config.maxCallDepth := by
    obtain ⟨b, rfl, -⟩ := hmn.other
    rfl
  unfold Run.activationBy
  simp only [hdepth, hdepth', hadmits, hadmits', hlimit, Bool.true_eq_false, if_false]
  split
  · have hfinished := hmn.finished hd hd' Knowledge.active_enter_pos rfl []
    obtain ⟨b, rfl, -⟩ := hmn.other
    rw [← hcalls] at hfinished
    exact Renewed.ends_failed (f := .of (.callDepthExceeded m.config.maxCallDepth)) hfinished
      ⟨nofun, rfl⟩
  · refine (h _ _ hmn.pushed).byEnds (fun _ _ _ => trivial) ?_ ?_
    · intro r k l good' w' hpast hr halike
      refine ((halike.unwound hd hd' hpast [.value r.1]).ends_ok fun good'' hknown => ?_).mono
        (Knowledge.past_leave hpast) fun _ _ h => h
      exact hknown r.1 (List.mem_singleton.2 rfl) hr
    · intro f k l good' w' hpast hadmits halike
      exact ((halike.unwound hd hd' hpast f.cause.references).ends_failed hadmits).mono
        (Knowledge.past_leave hpast) fun _ _ h => h

/-! ## Engines -/

/-- Engines that run code alike in a frame that has a new activation and lies in another one. -/
structure EntersSharing (left right : Bool) (e e' : Engine) : Prop where
  tracks : e.tracks = left
  tracks' : e'.tracks = right
  enter : ∀ {good : Value → Prop} {w : Knowledge} {id : FrameId} (c : Cursor), w.inner id →
    Leaving left right good w id (e.enter id c) (e'.enter id c) fun good r => good r.1

theorem EntersSharing.runIn (h : EntersSharing left right e e') {object : Option Value}
    (bindsObject : Bool) {self : Value} {operands : List Value} (body : View)
    (hs : w.kept s ∨ 0 < w.active s) (hobject : ∀ v ∈ object, good v) (hself : good self)
    (hoperands : ∀ v ∈ operands, good v) :
    (Fading.sharing left right).Later (s := good) w (e.runIn s object bindsObject self operands body)
      (e'.runIn s object bindsObject self operands body) fun good v => good v := by
  refine later_newFrame_bind bindsObject h.tracks h.tracks' hs (.head _)
    (fun v hv => ⟨hobject v hv, by simp [Option.mem_def.1 hv]⟩) fun good' w₁ id hknown hinner => ?_
  have hself' : good' self := hknown (.value self) (by simp) hself
  have hoperands' : ∀ v ∈ operands, good' v := fun v hv =>
    hknown (.value v) (by simp [hv]) (hoperands v hv)
  refine (agree_define_sharing Knowledge.active_enter_pos selfName hself').bind_leaving
    fun w₂ _ hw₂ _ => ?_
  refine (agree_pushAll_sharing Knowledge.active_enter_pos hoperands').bind_leaving
    fun w₃ _ hw₃ _ => ?_
  exact (h.enter _ (hw₃.inner id (hw₂.inner id hinner))).map fun _ _ hr => hr

theorem EntersSharing.runOperation (h : EntersSharing left right e e') {g : Value} {state : Generator}
    {values : List Value} (hg : good g)
    (hstate : (sharing left right good).SoundKind w (.generator state))
      (hvalues : ∀ v ∈ values, good v) :
    (Fading.sharing left right).Later (s := good) w (e.runOperation g state values)
      (e'.runOperation g state values) fun good r => good r.1 := by
  have hrest : ∀ {good : Value → Prop} {w : Knowledge} {id}, w.inner id → (∀ v ∈ values, good v) →
      Leaving left right good w id
        (do Run.pushAll id values; e.enter id (Engine.startOf state))
        (do Run.pushAll id values; e'.enter id (Engine.startOf state)) fun good r => good r.1 :=
    fun hinner hvalues => (agree_pushAll_sharing Knowledge.active_enter_pos hvalues).bind_leaving
      fun _ _ hw _ => h.enter _ (hw.inner _ hinner)
  cases hframe : state.frame with
  | some id =>
    simp only [Engine.runOperation, Engine.generatorFrame, hframe, bind_assoc, pure_bind]
    obtain ⟨hkept, hinner⟩ := hstate.1.2 id hframe
    exact later_activate_bind hkept (hrest hinner hvalues)
  | none =>
    simp only [Engine.runOperation, Engine.generatorFrame, hframe, bind_assoc, pure_bind]
    refine later_newFrame_bind false h.tracks h.tracks' (.inl hstate.1.1) ?_
      (fun _ hv => absurd hv (Option.not_mem_none _)) fun good' w₁ id hknown hinner => ?_
    · exact .tail _ (List.mem_append_left _ (by simp [Generator.references]))
    have hg' : good' g := hknown (.value g) (.head _) hg
    have hvalues' : ∀ v ∈ values, good' v := fun v hv =>
      hknown (.value v) (.tail _ (List.mem_append_right _ (List.mem_map_of_mem hv))) (hvalues v hv)
    refine (agree_retain_sharing Knowledge.active_enter_pos).bind_leaving fun w₂ scope hw₂ hscope => ?_
    obtain ⟨rfl, hkept⟩ := hscope
    have hinner₂ := hw₂.inner _ hinner
    refine (agree_modifyHeap fun m n hmn => ?_).bind_leaving
      fun w₃ _ hw₃ _ => hrest (hw₃.inner _ hinner₂) hvalues'
    refine hmn.changeGenerator hg' (fun state _ hsound => ⟨⟨hsound.1.1, ?_⟩, hsound.2⟩)
      fun _ => .ofGenerator ⟨rfl, rfl, rfl, rfl⟩
    rintro other ⟨⟩
    exact ⟨hkept, hinner₂⟩

/-- Calls are made, and fail, as they may. -/
theorem later_guarded (hd : d.Careful) (hd' : d'.Careful)
    (h : (Fading.sharing d.tracks d'.tracks).Later (s := good) w x y post) :
    (Fading.sharing d.tracks d'.tracks).Later (s := good) w (Run.guarded d x) (Run.guarded d' y)
      post := by
  intro m n hmn
  have hallows := hd.allows hmn
  have hallows' := hd'.allows hmn.symm_sharing
  unfold Run.guarded
  simp only [hallows, hallows', Bool.true_eq_false, if_false]
  refine (h m n hmn).byEnds (fun _ _ _ => trivial) ?_ ?_
  · intro a k l good' w' hpast ha halike
    exact ⟨rfl, good', w', hpast, ha, halike⟩
  · intro f k l good' w' hpast hadmits halike
    have hpasses := hd.passes hadmits.2
    have hpasses' := hd'.passes hadmits.2
    simp only [hpasses, hpasses', Bool.true_eq_false, if_false]
    exact ⟨rfl, good', w', hpast, hadmits, halike⟩

/-- Engines that dispose of frames carefully run all code alike. -/
theorem sharing_knot (hd : d.Careful) (hd' : d'.Careful) (digests : Digests) (fuel : Nat) :
    Fading.Knot (sharingFading d.tracks d'.tracks) (.disposing d digests fuel)
      (.disposing d' digests fuel) := by
  induction fuel with
  | zero =>
    have h : EntersSharing d.tracks d'.tracks (.disposing d digests 0) (.disposing d' digests 0) :=
      ⟨rfl, rfl, fun _ _ _ _ _ => trivial⟩
    exact ⟨⟨Nat.le_refl _, rfl, later_keep rfl rfl, fun _ _ => .giveUp⟩,
      fun bindsObject _ _ body => h.runIn bindsObject body, h.runOperation⟩
  | succ fuel ih =>
    have h : EntersSharing d.tracks d'.tracks (.disposing d digests (fuel + 1))
        (.disposing d' digests (fuel + 1)) := by
      refine ⟨rfl, rfl, fun {good w id} c hinner => leaving_activationBy hd hd' hinner ?_⟩
      have hruns : (sharingFading d.tracks d'.tracks).Runs (s := good) (w.run id) id :=
        Knowledge.active_enter_pos
      exact ih.run hruns c
    exact ⟨⟨Nat.le_refl _, rfl, later_keep rfl rfl, fun hc hargs =>
        later_guarded hd hd' (ih.bodies.callValue hc hargs)⟩,
      fun bindsObject _ _ body => h.runIn bindsObject body, h.runOperation⟩

end run

/-! ## Machines that are compared with themselves -/

/-- A machine that lets go of its frames runs all code in agreement with itself, along a likeness that
asks nothing of values, if it runs the bodies of functions and generators so. That is to follow from
how it enters a frame. -/
theorem releasing_knot {L : Likeness} {F : Frames L} {digests : Digests} (Enters : Engine → Prop)
    (hgood : ∀ v, L.good v)
    (hkeep : ∀ {e : Engine} {α : Type} {w : L.World} {refs : List Reference} {x y : Run α}
      {p : L.World → α → Prop}, L.Agree w x y p → L.Agree w (e.keep refs x) (e.keep refs y) p)
    (hrunIn : ∀ {e : Engine} {w : L.World}, Enters e → ∀ scope object bindsObject self operands body,
      L.Agree w (e.runIn scope object bindsObject self operands body)
        (e.runIn scope object bindsObject self operands body) fun _ _ => True)
    (hrunOperation : ∀ {e : Engine} {w : L.World}, Enters e → ∀ g {state}, L.generator w state →
      ∀ values, L.Agree w (e.runOperation g state values) (e.runOperation g state values)
        fun _ _ => True)
    (hfirst : Enters (.disposing .releasing digests 0))
    (hnext : ∀ fuel, (∀ {w : L.World} {id} c, F.runs w id →
      L.Agree w ((Engine.disposing .releasing digests fuel).run id c)
        ((Engine.disposing .releasing digests fuel).run id c) fun _ _ => True) →
      Enters (.disposing .releasing digests (fuel + 1))) (fuel : Nat) :
    Fading.Knot F.steady (.disposing .releasing digests fuel) (.disposing .releasing digests fuel) := by
  have hkept : ∀ {e : Engine} {α : Type} {s : Unit} {w : L.World} {refs : List Reference} {x y : Run α}
      {post : Unit → α → Prop}, (Fading.steady L).Later (s := s) w x y post →
      (Fading.steady L).Later (s := s) w (e.keep refs x) (e.keep refs y)
        fun s' a => post s' a ∧ ∀ v, .value v ∈ refs → (Fading.steady L).Good s' v :=
    fun h => (later_steady.2 (hkeep (later_steady.1 h))).mono fun _ _ ha => ⟨ha, fun v _ => hgood v⟩
  have hknot : ∀ e : Engine, Enters e → (∀ {w : L.World} callee args,
      L.Agree w (e.call callee args) (e.call callee args) fun _ v => L.good v) →
      Fading.Knot F.steady e e := by
    intro e he hcall
    refine ⟨⟨Nat.le_refl _, rfl, fun _ => hkept, fun _ _ => later_steady.2 (hcall _ _)⟩, ?_, ?_⟩
    · exact fun _ _ _ _ _ _ _ _ => later_steady.2
        ((hrunIn he _ _ _ _ _ _).mono fun _ _ _ _ => hgood _)
    · exact fun _ hstate _ => later_steady.2
        ((hrunOperation he _ hstate.1 _).mono fun _ _ _ _ => hgood _)
  induction fuel with
  | zero => exact hknot _ hfirst fun _ _ => .giveUp
  | succ fuel ih =>
    refine hknot _ (hnext fuel fun {w id} c hid => ?_) fun {w} callee args => ?_
    · have hrun : L.Agree w ((Engine.disposing .releasing digests fuel).run id c)
          ((Engine.disposing .releasing digests fuel).run id c) fun _ r => L.good r.1 :=
        later_steady.1 (ih.run hid c)
      exact hrun.mono fun _ _ _ _ => trivial
    · simp only [Engine.disposing, Run.guarded_releasing]
      exact later_steady.1 (ih.bodies.callValue (hgood callee) fun v _ => hgood v)

end Likeness
end ScriptVM
