import ScriptVM.Machine.Disposal
import ScriptVM.Proofs.Disposal.Arena
import ScriptVM.Proofs.Frame.Effect
import ScriptVM.Proofs.Likeness.Steady

/-!
# Machines that dispose of different frames

Two machines that hold the same objects and differ in their arenas only, which share what is kept or
active. All computations on a running frame agree on them: what they read is in both frames, names
mean the same along the chains of both, and what closes over the frame keeps it in both.
-/
namespace ScriptVM

/-! ## Chains of frames -/

namespace Arena

variable {good : Value → Prop} {w : Knowledge} {a b : Arena} {id : FrameId} {f g : Frame}

/-- A frame and the frames around it are the same in both arenas. -/
theorem Shares.chain_go (h : a.Shares good w b) (steps : Nat) (hid : w.near id)
    (hf : a.get? id = some f) (hg : b.get? id = some g) :
    (chain.go b steps id).map Frame.view = (chain.go a steps id).map Frame.view ∧
      ∀ k ∈ chain.go a steps id, k.Good good := by
  induction steps generalizing id f g with
  | zero => exact ⟨rfl, nofun⟩
  | succ steps ih =>
    have hview := h.same id f g hf hg
    have hgood := (h.mindsLeft id f hid hf).1
    have hparent : g.parent = f.parent := Frame.eq_of_view hview Frame.parent fun _ => rfl
    unfold chain.go
    rw [hf, hg]
    dsimp only
    rw [hparent, List.map_cons, List.map_cons, hview]
    cases hp : f.parent with
    | none => exact ⟨rfl, fun k hk => List.mem_singleton.1 hk ▸ hgood⟩
    | some p =>
      obtain ⟨hnear, f', g', hf', hg'⟩ := h.parent hid hf hg hp
      obtain ⟨hmap, hrest⟩ := ih hnear hf' hg'
      refine ⟨congrArg (f.view :: ·) hmap, fun k hk => ?_⟩
      rcases List.mem_cons.1 hk with rfl | hk
      · exact hgood
      · exact hrest k hk

theorem Shares.chain (h : a.Shares good w b) (hid : w.near id) (hf : a.get? id = some f)
    (hg : b.get? id = some g) : (b.chain id).map Frame.view = (a.chain id).map Frame.view ∧
      ∀ k ∈ a.chain id, k.Good good :=
  h.chain_go _ hid hf hg

/-- What a name means is told by the views of the frames. -/
theorem lookup?_eq (a : Arena) (heap : Heap) (id : FrameId) (name : String) :
    a.lookup? heap id name =
      ((a.chain id).map Frame.view).findSome? fun f => f.resolve? heap name := by
  rw [List.findSome?_map]
  rfl

/-- A name means the same in both arenas. -/
theorem Shares.lookup? (h : a.Shares good w b) (hid : w.near id) (hf : a.get? id = some f)
    (hg : b.get? id = some g) (heap : Heap) (name : String) :
    b.lookup? heap id name = a.lookup? heap id name := by
  rw [lookup?_eq, lookup?_eq, (h.chain hid hf hg).1]

end Arena

/-! ## Machines -/

/-- What a machine holds on to, if it keeps track of that. -/
def Knowledge.holds (w : Knowledge) (tracks : Bool) : List Reference := if tracks then w.held else []

/-- Machines with the same objects whose arenas share what is kept or active. Each of them may keep
track of what it holds on to. -/
def Likeness.sharing (left right : Bool) (good : Value → Prop) : Likeness where
  World := Knowledge
  le := Knowledge.Le
  refl := Knowledge.Le.refl
  trans := Knowledge.Le.trans
  good := good
  function w f := w.kept f.scope
  classDef w c := w.kept c.scope
  generator w g := w.kept g.scope ∧ ∀ id ∈ g.frame, w.kept id ∧ w.inner id
  function_mono hw h := hw.kept _ h
  classDef_mono hw h := hw.kept _ h
  generator_mono hw h := ⟨hw.kept _ h.1, fun id hid =>
    ⟨hw.kept id (h.2 id hid).1, hw.inner id (h.2 id hid).2⟩⟩
  generator_exhaust h := h
  generator_buffer _ h := h
  table _ := True
  table_empty := trivial
  table_put _ _ _ _ _ := trivial
  admits c := (∀ v, c = .raised v → good v) ∧ c.isMissingFrame = false
  admits_ordinary {c} hc := by
    cases c with
    | raised v => cases hc
    | frameNotFound n => cases hc
    | _ => exact ⟨nofun, rfl⟩
  rest w m n := m.callStack = w.calls ∧ m.globals = w.root ∧ m.held = w.holds left ∧
    n = { m with arena := n.arena, held := w.holds right } ∧ m.arena.Shares good w n.arena
  rest_heap := by
    rintro w m n h - ⟨hcalls, hroot, hheld, he, hb⟩
    refine ⟨hcalls, hroot, hheld, ?_, hb⟩
    rw [he]

namespace Likeness

section sharing

variable {left right : Bool} {good : Value → Prop} {α β : Type} {w w' : Knowledge} {m n : Machine}
  {b b' : Arena} {id : FrameId} {f g : Frame} {p : Knowledge → α → Prop}

@[simp] theorem good_sharing : (sharing left right good).good = good := rfl

@[simp] theorem function_sharing (f : CodeFunction) :
    (sharing left right good).function w f ↔ w.kept f.scope := .rfl

@[simp] theorem classDef_sharing (c : ClassDef) :
    (sharing left right good).classDef w c ↔ w.kept c.scope := .rfl

@[simp] theorem generator_sharing (g : Generator) : (sharing left right good).generator w g ↔
    w.kept g.scope ∧ ∀ id ∈ g.frame, w.kept id ∧ w.inner id := .rfl

@[simp] theorem table_sharing (t : Table) : (sharing left right good).table t := trivial

namespace Alike

variable (h : (sharing left right good).Alike w m n)

include h

theorem calls : m.callStack = w.calls := h.rest.1

theorem root : m.globals = w.root := h.rest.2.1

theorem held : m.held = w.holds left := h.rest.2.2.1

theorem shares : m.arena.Shares good w n.arena := h.rest.2.2.2.2

/-- The other machine differs in the frames, and in what it keeps track of. -/
theorem other : ∃ b, n = { m with arena := b, held := w.holds right } ∧ m.arena.Shares good w b :=
  ⟨n.arena, h.rest.2.2.2⟩

end Alike

/-- Objects are sound as long as the same frames are kept. -/
theorem SoundObject.of_keeps (hkeeps : w.Keeps w') {o : Object}
    (h : (sharing left right good).SoundObject w o) : (sharing left right good).SoundObject w' o := by
  have hle : w.Le { w with kept := w'.kept, inner := w'.inner } :=
    ⟨rfl, hkeeps.kept, fun _ h => h, hkeeps.inner⟩
  have hmono := h.mono (L := sharing left right good) hle
  exact ⟨hmono.kind, hmono.member⟩

/-- Other machines with the same objects, with arenas that share what is then known. -/
theorem Alike.reshare (h : (sharing left right good).Alike w m n) (m' : Machine)
    (hshares : m'.arena.Shares good w' b) (hkeeps : w.Keeps w')
    (hheap : m'.heap = m.heap) (htypes : m'.types = m.types) (hcalls : m'.callStack = w'.calls)
    (hroot : m'.globals = w'.root) (hheld : m'.held = w'.holds left) :
    (sharing left right good).Alike w' m' { m' with arena := b, held := w'.holds right } where
  heap := rfl
  types := rfl
  sound v hv := by
    rw [hheap]
    exact (h.sound v hv).of_keeps hkeeps
  fresh v hv := h.fresh v (hheap ▸ hv)
  goodTypes name v hv := h.goodTypes name v (htypes ▸ hv)
  rest := ⟨hcalls, hroot, hheld, rfl, hshares⟩

/-- Other arenas only. -/
theorem Alike.reshare_arena (h : (sharing left right good).Alike w m n) {a : Arena}
    (hshares : a.Shares good w' b) (hkeeps : w.Keeps w') (hcalls : w'.calls = w.calls)
    (hroot : w'.root = w.root) (hheld : w'.held = w.held) :
    (sharing left right good).Alike w' { m with arena := a } { n with arena := b } := by
  have hholds : ∀ tracks, w'.holds tracks = w.holds tracks := fun tracks => by
    rw [Knowledge.holds, Knowledge.holds, hheld]
  obtain ⟨b', rfl, -⟩ := h.other
  dsimp only
  rw [← hholds right]
  exact h.reshare { m with arena := a } hshares hkeeps rfl rfl (h.calls.trans hcalls.symm)
    (h.root.trans hroot.symm) (h.held.trans (hholds left).symm)

/-- What objects may refer to does not depend on what the machines keep track of. -/
theorem SoundObject.of_sharing {left' right' : Bool} {o : Object}
    (h : (sharing left right good).SoundObject w o) : (sharing left' right' good).SoundObject w o :=
  ⟨h.kind, h.member⟩

/-- Each of two machines is alike to the other one. -/
theorem Alike.symm_sharing (h : (sharing left right good).Alike w m n) :
    (sharing right left good).Alike w n m := by
  obtain ⟨b, rfl, hb⟩ := h.other
  exact ⟨rfl, rfl, fun v hv => (h.sound v hv).of_sharing, h.fresh, h.goodTypes, h.calls, h.root, rfl,
    by rw [← h.held], hb.symm⟩

/-! ## Computations on running frames -/

/-- A computation on a frame that runs, which is live and the same in both machines. -/
theorem Agree.running {x y : Run α} (hid : 0 < w.active id)
    (h : ∀ m n f g, (sharing left right good).Alike w m n → m.arena.Shares good w n.arena →
      m.arena.get? id = some f → n.arena.get? id = some g → g.view = f.view → f.Good good →
      (sharing left right good).Matches w p (x m) (y n)) :
    (sharing left right good).Agree w x y p := by
  intro m n hmn
  obtain ⟨f, g, hf, hg, hview, hgood⟩ := hmn.shares.active hid
  exact h m n f g hmn hmn.shares hf hg hview hgood

/-- A change of a frame that lets go of nothing and puts good values into it. -/
theorem Alike.modifyFrame_sharing (h : (sharing left right good).Alike w m n) (id : FrameId)
    {change : Frame → Frame}
    (hkeeps : ∀ f, (change f).parent = f.parent ∧ (change f).children = f.children ∧
      (change f).holders = f.holders ∧ (change f).active = f.active ∧
      (change f).slot = f.slot)
    (hview : ∀ f : Frame, (change f).view = change f.view)
    (hgood : ∀ f : Frame, f.Good good → (change f).Good good) :
    (sharing left right good).Alike w (m.modifyFrame id change)
      (n.modifyFrame id change) := by
  exact h.reshare_arena (h.shares.modify id hkeeps hview hgood) (Knowledge.keeps_of_eq rfl rfl) rfl rfl
    rfl

theorem agree_modifyFrame_sharing (hid : 0 < w.active id) {change : Frame → Frame}
    (hkeeps : ∀ f, (change f).parent = f.parent ∧ (change f).children = f.children ∧
      (change f).holders = f.holders ∧ (change f).active = f.active ∧
      (change f).slot = f.slot)
    (hview : ∀ f : Frame, (change f).view = change f.view)
    (hgood : ∀ f : Frame, f.Good good → (change f).Good good) :
    (sharing left right good).Agree w (Run.modifyFrame id change) (Run.modifyFrame id change)
      fun _ _ => True := by
  refine .running hid fun m n f g h _ hf hg _ _ => ?_
  rw [Run.modifyFrame_of_live hf, Run.modifyFrame_of_live hg]
  exact ⟨rfl, w, .refl w, trivial, h.modifyFrame_sharing id hkeeps hview hgood⟩

theorem agree_define_sharing (hid : 0 < w.active id) (name : String) {v : Value} (hv : good v) :
    (sharing left right good).Agree w (Run.define id name v) (Run.define id name v) fun _ _ => True :=
  agree_modifyFrame_sharing hid (fun _ => ⟨rfl, rfl, rfl, rfl, rfl⟩) (fun _ => rfl)
    fun _ hf => hf.define name hv

theorem agree_pushAll_sharing (hid : 0 < w.active id) {vs : List Value} (hvs : ∀ v ∈ vs, good v) :
    (sharing left right good).Agree w (Run.pushAll id vs) (Run.pushAll id vs) fun _ _ => True := by
  refine agree_modifyFrame_sharing hid (fun _ => ⟨rfl, rfl, rfl, rfl, rfl⟩)
    (fun _ => rfl) fun f hf => ?_
  refine ⟨hf.vars, hf.object, fun v hv => ?_, hf.last⟩
  exact (List.mem_append.1 hv).elim (hvs v) (hf.stack v)

theorem agree_setLast_sharing (hid : 0 < w.active id) {v : Value} (hv : good v) :
    (sharing left right good).Agree w (Run.setLast id v) (Run.setLast id v) fun _ _ => True := by
  refine agree_modifyFrame_sharing hid (fun _ => ⟨rfl, rfl, rfl, rfl, rfl⟩)
    (fun _ => rfl) fun f hf => ?_
  refine ⟨hf.vars, hf.object, hf.stack, ?_⟩
  rintro u ⟨⟩
  exact hv

/-- Operands that are left are good. -/
theorem Alike.setStack_sharing (h : (sharing left right good).Alike w m n) (id : FrameId)
    {rest : List Value} (hrest : ∀ v ∈ rest, good v) :
    (sharing left right good).Alike w (m.modifyFrame id fun f => { f with stack := rest })
      (n.modifyFrame id fun f => { f with stack := rest }) :=
  h.modifyFrame_sharing id (fun _ => ⟨rfl, rfl, rfl, rfl, rfl⟩) (fun _ => rfl)
    fun _ hf => ⟨hf.vars, hf.object, hrest, hf.last⟩

theorem agree_pop_sharing (hid : 0 < w.active id) :
    (sharing left right good).Agree w (Run.pop id) (Run.pop id) fun _ v => good v := by
  refine .running hid fun m n f g h _ hf hg hview hgood => ?_
  have hstack : g.stack = f.stack := Frame.eq_of_view hview Frame.stack fun _ => rfl
  cases hs : f.stack with
  | nil =>
    rw [Run.pop_of_nil hf hs, Run.pop_of_nil hg (hstack.trans hs)]
    exact ⟨rfl, ⟨nofun, rfl⟩, w, .refl w, h⟩
  | cons v rest =>
    rw [Run.pop_of_cons hf hs, Run.pop_of_cons hg (hstack.trans hs)]
    have hall : ∀ u ∈ v :: rest, good u := hs ▸ hgood.stack
    exact ⟨rfl, w, .refl w, hall v List.mem_cons_self,
      h.setStack_sharing id fun u hu => hall u (List.mem_cons_of_mem _ hu)⟩

theorem agree_popMany_sharing (hid : 0 < w.active id) (count : Nat) :
    (sharing left right good).Agree w (Run.popMany id count) (Run.popMany id count)
      fun _ vs => ∀ v ∈ vs, good v := by
  refine .running hid fun m n f g h _ hf hg hview hgood => ?_
  have hstack : g.stack = f.stack := Frame.eq_of_view hview Frame.stack fun _ => rfl
  rcases Nat.lt_or_ge f.stack.length count with hlt | hle
  · rw [Run.popMany_of_lt hf hlt,
      Run.popMany_of_lt hg (hstack.symm ▸ hlt)]
    exact ⟨rfl, ⟨nofun, rfl⟩, w, .refl w, h⟩
  · rw [Run.popMany_of_le hf hle,
      Run.popMany_of_le hg (hstack.symm ▸ hle), hstack]
    exact ⟨rfl, w, .refl w, fun v hv => hgood.stack v (List.mem_of_mem_take hv),
      h.setStack_sharing id fun v hv => hgood.stack v (List.mem_of_mem_drop hv)⟩

theorem agree_top_sharing (hid : 0 < w.active id) :
    (sharing left right good).Agree w (Run.top id) (Run.top id) fun _ v => good v := by
  refine .running hid fun m n f g h _ hf hg hview hgood => ?_
  have hstack : g.stack = f.stack := Frame.eq_of_view hview Frame.stack fun _ => rfl
  cases hs : f.stack with
  | nil =>
    rw [Run.top_of_nil hf hs, Run.top_of_nil hg (hstack.trans hs)]
    exact ⟨rfl, ⟨nofun, rfl⟩, w, .refl w, h⟩
  | cons v rest =>
    rw [Run.top_of_cons hf hs, Run.top_of_cons hg (hstack.trans hs)]
    exact ⟨rfl, w, .refl w, hgood.stack v (hs ▸ List.mem_cons_self), h⟩

theorem agree_last_sharing (hid : 0 < w.active id) :
    (sharing left right good).Agree w (Run.last id) (Run.last id) fun _ r => ∀ v ∈ r, good v := by
  refine .running hid fun m n f g h _ hf hg hview hgood => ?_
  have hlast : g.last = f.last := Frame.eq_of_view hview Frame.last fun _ => rfl
  rw [Run.last_of_live hf, Run.last_of_live hg, hlast]
  exact ⟨rfl, w, .refl w, hgood.last, h⟩

/-! ### Names -/

theorem agree_assign_sharing (hid : 0 < w.active id) (name : String) {v : Value} (hv : good v) :
    (sharing left right good).Agree w (Run.assign id name v) (Run.assign id name v) fun _ _ =>
      True := by
  refine .running hid fun m n f g h _ hf hg hview hgood => ?_
  have hbinds : g.bindsObject = f.bindsObject :=
    Frame.eq_of_view hview Frame.bindsObject fun _ => rfl
  have hobject : g.object = f.object := Frame.eq_of_view hview Frame.object fun _ => rfl
  rw [Run.assign_of_live hf, Run.assign_of_live hg]
  refine ⟨rfl, w, .refl w, trivial, ?_⟩
  simp only [Arena.assign, hf, hg, Option.bind_some, hbinds, hobject]
  cases if f.bindsObject = true then f.object else none with
  | some object =>
    dsimp only
    rw [h.heap]
    exact h.modify object (.refl _) fun _ ho => ho.setMember name (m := .value v) hv
  | none =>
    exact h.modifyFrame_sharing id (fun _ => ⟨rfl, rfl, rfl, rfl, rfl⟩) (fun _ => rfl)
      fun _ hf => hf.define name hv

theorem agree_resolve_sharing (hid : 0 < w.active id) (name : String) :
    (sharing left right good).Agree w (Run.resolve id name) (Run.resolve id name)
      fun _ r => ∀ v ∈ r, good v := by
  refine .running hid fun m n f g h hb hf hg _ _ => ?_
  have hnear := hb.near_of_active id hid
  simp only [Run.resolve, Run.modifyGet_apply, h.heap, hb.lookup? hnear hf hg]
  cases hfound : m.arena.lookup? m.heap id name with
  | none => exact ⟨rfl, w, .refl w, nofun, h⟩
  | some found =>
    obtain ⟨k, hk, hresolve⟩ := List.exists_of_findSome?_eq_some hfound
    have hk : k.Good good := (hb.chain hnear hf hg).2 k hk
    obtain ⟨hgood, halike⟩ := h.resolve? (hk.vars name) hk.object hresolve
    refine ⟨rfl, w, .refl w, ?_, halike⟩
    rintro u ⟨⟩
    exact hgood

/-! ### Scopes -/

/-- Something closes over a frame that is near and live in both machines. -/
theorem matches_retain_sharing (h : (sharing left right good).Alike w m n) (hid : w.near id)
    (hf : m.arena.get? id = some f) (hg : n.arena.get? id = some g) :
    (sharing left right good).Matches w (fun w' scope => scope = id ∧ w'.kept id) (Run.retain id m)
      (Run.retain id n) := by
  rw [Run.retain_of_live hf, Run.retain_of_live hg]
  refine ⟨rfl, { w with kept := fun other => w.kept other ∨ other = id },
    ⟨rfl, fun _ => .inl, fun _ h => h, fun _ h => h⟩, ⟨rfl, .inr rfl⟩, ?_⟩
  exact h.reshare_arena (h.shares.retain hid hf hg) ⟨fun _ => .inl, fun _ h => h⟩ rfl rfl rfl

theorem agree_retain_sharing (hid : 0 < w.active id) :
    (sharing left right good).Agree w (Run.retain id) (Run.retain id)
      fun w' scope => scope = id ∧ w'.kept id :=
  .running hid fun _ _ _ _ h hb hf hg _ _ =>
    matches_retain_sharing h (hb.near_of_active id hid) hf hg

/-- Methods close over the running frame or its parent, which is live in both machines, too. -/
theorem agree_retainMethodScope_sharing (hid : 0 < w.active id) :
    (sharing left right good).Agree w (Run.methodScope id >>= Run.retain)
      (Run.methodScope id >>= Run.retain)
      fun w' scope => w'.kept scope := by
  refine .running hid fun m n f g h hb hf hg hview _ => ?_
  have hnear := hb.near_of_active id hid
  have hscope : Run.methodScopeOf id g = Run.methodScopeOf id f :=
    Frame.eq_of_view hview (Run.methodScopeOf id) fun _ => rfl
  have hlive : w.near (Run.methodScopeOf id f) ∧ ∃ f' g',
      m.arena.get? (Run.methodScopeOf id f) = some f' ∧
      n.arena.get? (Run.methodScopeOf id f) = some g' := by
    unfold Run.methodScopeOf
    split
    · cases hparent : f.parent with
      | none => exact ⟨hnear, f, g, hf, hg⟩
      | some parent => exact hb.parent hnear hf hg hparent
    · exact ⟨hnear, f, g, hf, hg⟩
  obtain ⟨hnear', f', g', hf', hg'⟩ := hlive
  simp only [Bind.bind, EStateM.bind, Run.methodScope_of_live hf,
    Run.methodScope_of_live hg, hscope]
  exact (matches_retain_sharing h hnear' hf' hg').mono ((sharing left right good).refl w)
    fun _ _ _ hkept => hkept.1 ▸ hkept.2

theorem agree_trace_sharing (position : Nat) (i : Instruction) :
    (sharing left right good).Agree w (Run.trace position i) (Run.trace position i) fun _ _ =>
      True := by
  intro m n h
  obtain ⟨b, rfl, hb⟩ := h.other
  refine ⟨rfl, w, .refl w, trivial, ?_⟩
  dsimp only
  split
  · exact h.reshare { m with log := ⟨m.depth, position, i⟩ :: m.log } hb (Knowledge.keeps_of_eq rfl rfl)
      rfl rfl h.calls h.root h.held
  · exact h

/-- Frames in which activations run. -/
def sharingFrames (good : Value → Prop) : Frames (sharing left right good) where
  runs w id := 0 < w.active id
  scope w id := w.kept id
  runs_mono hw h := hw.active_eq ▸ h
  scope_of_function h := h
  function_of_scope h := h
  scope_of_classDef h := h
  classDef_of_scope h := h
  generator_of_scope h hframe := ⟨h, fun id hid => by
    rw [hframe] at hid
    cases hid⟩
  generator_suspend _ h := h
  admits_frame hc := by
    rcases hc with rfl | rfl | rfl | ⟨u, rfl, hu⟩
    · exact ⟨nofun, rfl⟩
    · exact ⟨nofun, rfl⟩
    · exact ⟨nofun, rfl⟩
    · refine ⟨?_, rfl⟩
      rintro v ⟨⟩
      exact hu
  define name _ hid hv := agree_define_sharing hid name hv
  push hid hv := agree_pushAll_sharing hid (List.forall_mem_singleton.2 hv)
  pop hid := agree_pop_sharing hid
  popMany count hid := agree_popMany_sharing hid count
  top hid := agree_top_sharing hid
  last hid := agree_last_sharing hid
  setLast hid hv := agree_setLast_sharing hid hv
  assign name _ hid hv := agree_assign_sharing hid name hv
  resolve name hid := agree_resolve_sharing hid name
  retain hid := (agree_retain_sharing hid).mono fun _ _ _ hkept => hkept.1 ▸ hkept.2
  retainMethodScope hid := agree_retainMethodScope_sharing hid
  trace position i := agree_trace_sharing position i

end sharing
end Likeness
end ScriptVM
