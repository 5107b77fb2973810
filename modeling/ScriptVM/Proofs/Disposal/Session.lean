import ScriptVM.Proofs.Disposal.Run
import ScriptVM.Proofs.Session.Turn

/-!
# Sessions with machines that dispose of different frames

Between requests only the global frame is known to be active, and nothing is held on to. Two machines
that are alike then stay alike through every request, collections included. The host of a machine that
frees frames sees what the host of a machine sees that never frees one, turn by turn, whatever they ask
for and whatever fails. What they and their programs can come across
afterwards stands in scopes that are live in both machines, with the same variables.
-/
namespace ScriptVM

/-! ## Requests -/

/-- The machine with some fuel for each request. -/
def Service.disposing (d : Disposal) (digests : Digests) (fuel : Nat) : Service where
  engine := .disposing d digests fuel
  execute := (Engine.disposing d digests fuel).executeBy d
  reset m := m.resetBy d []
  collect := d.collect

/-- A machine that frees frames as it does is the machine. -/
theorem Service.disposing_freeing (digests : Digests) (fuel : Nat) :
    disposing .freeing digests fuel = withFuel fuel digests := by
  have hreset : (fun m : Machine => m.resetBy .freeing []) = Machine.reset := by
    funext m
    simp only [Machine.resetBy, Machine.reset, Machine.unwindBy_freeing]
  unfold disposing withFuel
  rw [Engine.disposing_freeing, hreset]
  congr
  funext code
  exact Engine.executeBy_freeing _ code

/-- Only the global frame runs. -/
def Knowledge.Resting (w : Knowledge) : Prop := w.calls = .single w.root

namespace Knowledge.Resting

variable {w w' : Knowledge} {good good' : Value → Prop}

theorem past (h : w.Resting) (hw : w.Past good w' good') : w'.Resting := by
  rw [Resting, hw.calls, hw.root]
  exact h

theorem le (h : w.Resting) (hw : w.Le w') : w'.Resting := by
  rw [Resting, hw.same]
  exact h

theorem active (h : w.Resting) : 0 < w.active w.root := by
  refine w.attended w.root ?_
  rw [h]
  exact List.mem_singleton.2 rfl

end Knowledge.Resting

theorem Machine.resetBy_of_single (d : Disposal) {m : Machine} {root : FrameId}
    (h : m.callStack = .single root) (also : List Reference) :
    m.resetBy d also = m.modifyFrame m.globals fun f => { f with stack := [], last := none } := by
  have hunwind : m.unwindBy d also 1 = m := by
    simp only [unwindBy, h, CallStack.unwindTo_single, List.foldl_nil]
    rw [← h]
  rw [Machine.resetBy, hunwind]

namespace Likeness

section service

variable {left right : Bool} {good : Value → Prop} {w : Knowledge} {m n : Machine}
  {d d' : Disposal} {digests : Digests} {fuel : Nat} {r : Request Value}

theorem agree_global_sharing (hw : w.Resting) (name : String) :
    (sharing left right good).Agree w (Engine.global? name) (Engine.global? name)
      fun _ r => ∀ v ∈ r, good v := by
  intro m n hmn
  have hroot : n.globals = m.globals := hmn.symm_sharing.root.trans hmn.root.symm
  have hid : 0 < w.active m.globals := hmn.root ▸ hw.active
  unfold Engine.global?
  rw [hroot]
  exact agree_resolve_sharing hid name m n hmn

theorem Alike.defineGlobal_sharing (h : (sharing left right good).Alike w m n) (name : String)
    {v : Value} (hv : good v) :
    (sharing left right good).Alike w (m.defineGlobal name v) (n.defineGlobal name v) := by
  obtain ⟨b, rfl, -⟩ := h.other
  exact h.modifyFrame_sharing m.globals (fun _ => ⟨rfl, rfl, rfl, rfl, rfl⟩) (fun _ => rfl)
    fun _ hf => hf.define name hv

theorem Alike.reset_sharing (h : (sharing left right good).Alike w m n) (hw : w.Resting)
    (also : List Reference) :
    (sharing left right good).Alike w (m.resetBy d also) (n.resetBy d' also) := by
  have hsingle : m.callStack = .single w.root := h.calls.trans hw
  obtain ⟨b, rfl, -⟩ := h.other
  rw [Machine.resetBy_of_single d hsingle,
    Machine.resetBy_of_single (m := { m with arena := b, held := w.holds right }) d' hsingle]
  exact h.modifyFrame_sharing m.globals (fun _ => ⟨rfl, rfl, rfl, rfl, rfl⟩) (fun _ => rfl)
    fun _ hf => ⟨hf.vars, hf.object, nofun, nofun⟩

theorem later_execute_sharing (hd : d.Careful) (hd' : d'.Careful) (hw : w.Resting) (code : Cursor) :
    (Fading.sharing d.tracks d'.tracks).Later (s := good) w
      ((Engine.disposing d digests fuel).executeBy d code)
      ((Engine.disposing d' digests fuel).executeBy d' code) fun good v => good v := by
  intro m n hmn
  have hroot : n.globals = m.globals := hmn.symm_sharing.root.trans hmn.root.symm
  have hruns : (sharingFading d.tracks d'.tracks).Runs (s := good) w m.globals := by
    rw [hmn.root]
    exact hw.active
  unfold Engine.executeBy
  rw [hroot]
  refine ((sharing_knot hd hd' digests fuel).run hruns code m n hmn).byEnds
    (fun _ _ _ => trivial) ?_ ?_
  · intro r k l good' w' hpast hv halike
    exact ⟨rfl, good', w', hpast, hv, halike⟩
  · intro f k l good' w' hpast hadmits halike
    exact ⟨rfl, good', w', hpast, hadmits, halike.reset_sharing (hw.past hpast) _⟩

/-- Collections free nothing that can be reached. -/
theorem later_collect_sharing (hd : d.Careful) (hd' : d'.Careful) (hheld : w.held = []) :
    (Fading.sharing d.tracks d'.tracks).Later (s := good) w (modify d.collect) (modify d'.collect)
      fun _ _ => True := by
  intro m n hmn
  have hrenewed : Renewed d.tracks d'.tracks good w [] (d.collect m) (d'.collect n) :=
    (hd.collect hheld hmn).bind fun _ _ h hheld' =>
      (hd'.collect (hheld'.trans hheld) h.symm_sharing).symm
  exact hrenewed.ends_ok fun _ _ => trivial

/-- Every request is served alike. -/
theorem later_serve_sharing (hd : d.Careful) (hd' : d'.Careful) (hw : w.Resting)
    (hr : ∀ v ∈ r.values, good v) (hborrowed : ∀ v ∈ r.borrowed, .value v ∈ w.held)
    (hcollect : r = .collect → w.held = []) :
    (Fading.sharing d.tracks d'.tracks).Later (s := good) w
      ((Service.disposing d digests fuel).serve r) ((Service.disposing d' digests fuel).serve r)
      fun good a => ∀ v ∈ a.values, good v := by
  have K : Fading.Knot (sharingFading d.tracks d'.tracks) (Service.disposing d digests fuel).engine
      (Service.disposing d' digests fuel).engine := sharing_knot hd hd' digests fuel
  refine K.serve hr (fun v hv => ⟨hborrowed v hv, hr v (mem_values_of_mem_borrowed hv)⟩)
    (fun code _ => later_execute_sharing hd hd' hw code)
    (fun name _ => (agree_global_sharing hw name).later)
    (fun name v he => Agree.later (.modify fun m n hmn => ?_))
    (fun _ => Agree.later (.modify fun m n hmn => hmn.reset_sharing hw []))
    fun he => later_collect_sharing hd hd' (hcollect he)
  refine hmn.defineGlobal_sharing name (hr v ?_)
  rw [he]
  exact List.mem_cons_self

end service
end Likeness
section session

variable {left right : Bool} {good : Value → Prop} {w : Knowledge} {m n m' : Machine}
  {d d' : Disposal} {fuel : Nat} {t : Turn} {digests : Digests}

/-! ## Turns -/

namespace Likeness

/-- What a host asks in a turn. -/
theorem later_ask (digests : Digests) (fuel : Nat) (hd : d.Careful) (hd' : d'.Careful)
    (hw : w.Resting) (hheld : w.held = []) (t : Turn) :
    (Fading.sharing d.tracks d'.tracks).Later (s := good) w (t.ask (.disposing d digests fuel))
      (t.ask (.disposing d' digests fuel)) fun good a => ∀ v ∈ a.values, good v := by
  have hfetched : (sharing d.tracks d'.tracks good).Agree w (Run.fetch t.request.values)
      (Run.fetch t.request.values) fun _ value => ∀ name ∈ t.request.values, good (value name) :=
    agree_fetch (fun w' name hw' => agree_global_sharing (hw.le hw') name) _
  refine hfetched.bindLater fun w' value hw' hvalue => ?_
  have hpast : w.Past good w' good := Knowledge.Le.past hw'
  have hw₁ : Knowledge.Resting w' := hw.past hpast
  have hr : ∀ v ∈ (t.request.map value).values, good v := by
    intro v hv
    rw [Request.values_map] at hv
    obtain ⟨name, hname, rfl⟩ := List.mem_map.1 hv
    exact hvalue name hname
  generalize t.request.map value = r at hr
  have hlent : ∀ ref ∈ r.borrowed.map Reference.value, Knowledge.Knows w' good ref.target := by
    intro ref href
    obtain ⟨v, hv, rfl⟩ := List.mem_map.1 href
    exact hr v (mem_values_of_mem_borrowed hv)
  have hheld' : ∀ v ∈ r.borrowed, .value v ∈ r.borrowed.map Reference.value ++ Knowledge.held w' :=
    fun v hv => List.mem_append_left _ (List.mem_map_of_mem hv)
  have hcollect : r = .collect → r.borrowed.map Reference.value ++ Knowledge.held w' = [] := by
    rintro rfl
    exact hpast.held.trans hheld
  exact (later_keep (Engine.tracks_disposing d fuel) (Engine.tracks_disposing d' fuel) hlent
    (later_serve_sharing hd hd' hw₁ hr hheld' hcollect)).mono fun _ _ h => h.1

/-- A host sees the same of both machines. -/
theorem Alike.seen (h : (sharing left right good).Alike w m n) (hw : w.Resting) (hheld : w.held = [])
    (reply : Except Failure Answer) : n.seen reply = m.seen reply := by
  obtain ⟨f, g, hf, hg, hview, -⟩ := h.shares.active hw.active
  have hvars : g.vars = f.vars := Frame.eq_of_view hview Frame.vars fun _ => rfl
  have hglobals : m.globals = w.root := h.root
  have hempty : ∀ tracks, w.holds tracks = [] := fun tracks => by
    cases tracks
    · rfl
    · exact hheld
  have hm := h.held
  obtain ⟨b, rfl, -⟩ := h.other
  unfold Machine.seen
  simp only [hglobals, hf, hg, Option.map_some, hvars, hm, hempty]

end Likeness

/-! ## Machines that go together -/

/-- Two machines between requests that are alike. -/
def Machine.Parallel (left right : Bool) (m n : Machine) : Prop :=
  ∃ good w, (Likeness.sharing left right good).Alike w m n ∧ w.Resting ∧ w.held = []

/-- What a host sees of a machine that no scope is gone from. -/
def Seen.Sound (s : Seen) : Prop := ∀ f, s.reply = .error f → f.cause.isMissingFrame = false

namespace Machine

theorem Parallel.symm (h : m.Parallel left right n) : n.Parallel right left m := by
  obtain ⟨good, w, h, hw, hheld⟩ := h
  exact ⟨good, w, h.symm_sharing, hw, hheld⟩

/-- A turn shows both hosts the same and leaves machines that go together. -/
theorem Parallel.take (h : m.Parallel d.tracks d'.tracks n) (hd : d.Careful) (hd' : d'.Careful)
    {seen : Seen} (ht : (Service.disposing d digests fuel).take t m = some (seen, m')) :
    seen.Sound ∧ ∃ n', (Service.disposing d' digests fuel).take t n = some (seen, n') ∧
      m'.Parallel d.tracks d'.tracks n' := by
  obtain ⟨good, w, halike, hw, hheld⟩ := h
  have hends := Likeness.later_ask digests fuel hd hd' hw hheld t m n halike
  unfold Service.take at ht ⊢
  generalize t.ask (.disposing d digests fuel) m = x at hends ht
  generalize t.ask (.disposing d' digests fuel) n = y at hends ⊢
  revert ht
  refine hends.byEnds ?_ ?_ ?_
  · intro why k r ht
    cases ht
  · intro a k l good' w' hpast ha halike ht
    have hkept := halike.keep (fun name _ h => h.defineGlobal_sharing name) t.keep fun u hu =>
      ha u (Answer.mem_values_of_value? hu)
    have hheld' : w'.held = [] := hpast.held.trans hheld
    cases ht
    refine ⟨nofun, l.keep t.keep a.value?, ?_, good', w', hkept, hw.past hpast, hheld'⟩
    dsimp only
    rw [hkept.seen (hw.past hpast) hheld']
  · intro f k l good' w' hpast hadmits halike ht
    have hkept := halike.keepFailure (fun name _ h => h.defineGlobal_sharing name) t.caught hadmits.1
    have hheld' : w'.held = [] := hpast.held.trans hheld
    cases ht
    refine ⟨?_, l.keepFailure t.caught f, ?_, good', w', hkept, hw.past hpast, hheld'⟩
    · rintro _ ⟨⟩
      exact hadmits.2
    · dsimp only
      rw [hkept.seen (hw.past hpast) hheld']

/-- A session shows both hosts the same and leaves machines that go together. -/
theorem Parallel.session (hd : d.Careful) (hd' : d'.Careful) (turns : List Turn) {seen : List Seen}
    (h : m.Parallel d.tracks d'.tracks n)
    (hs : (Service.disposing d digests fuel).session turns m = some (seen, m')) :
    (∀ s ∈ seen, s.Sound) ∧ ∃ n', (Service.disposing d' digests fuel).session turns n =
      some (seen, n') ∧ m'.Parallel d.tracks d'.tracks n' := by
  induction turns generalizing m n seen with
  | nil =>
    cases hs
    exact ⟨nofun, n, rfl, h⟩
  | cons t rest ih =>
    obtain ⟨⟨first, m₁⟩, htake, hs⟩ := Option.bind_eq_some_iff.1 hs
    obtain ⟨⟨later, m₂⟩, hrest, hs⟩ := Option.bind_eq_some_iff.1 hs
    cases hs
    obtain ⟨hfirst, n₁, htake', h₁⟩ := h.take hd hd' htake
    obtain ⟨hlater, n₂, hrest', h₂⟩ := ih h₁ hrest
    refine ⟨List.forall_mem_cons.2 ⟨hfirst, hlater⟩, n₂, ?_, h₂⟩
    simp only [Service.session, htake', hrest', Option.bind_eq_bind, Option.bind_some]
    rfl

/-- Both hosts see the same, whether their sessions come to an end or not. -/
theorem Parallel.seen_session (h : m.Parallel d.tracks d'.tracks n) (hd : d.Careful) (hd' : d'.Careful)
    (turns : List Turn) :
    ((Service.disposing d digests fuel).session turns m).map Prod.fst =
      ((Service.disposing d' digests fuel).session turns n).map Prod.fst := by
  cases hs : (Service.disposing d digests fuel).session turns m with
  | some ended =>
    obtain ⟨-, n', hn, -⟩ := h.session hd hd' turns hs
    rw [hn]
    rfl
  | none =>
    cases hs' : (Service.disposing d' digests fuel).session turns n with
    | none => rfl
    | some ended =>
      obtain ⟨-, m', hm, -⟩ := h.symm.session hd' hd turns hs'
      rw [hm] at hs
      cases hs

/-! ## New machines -/

/-- What is known when the global frame is the only one. -/
theorem alike_bare (left right : Bool) (config : Config) : ∃ w : Knowledge, w.Resting ∧ w.held = [] ∧
    (Likeness.sharing left right fun _ => True).Alike w
      ⟨config, .empty, (Arena.empty.alloc none none false).2, ⟨0⟩, .single ⟨0⟩, .empty, [], []⟩
      ⟨config, .empty, (Arena.empty.alloc none none false).2, ⟨0⟩, .single ⟨0⟩, .empty, [], []⟩ := by
  have hnew := Arena.shares_empty.alloc none none false nofun nofun nofun
  have hempty : ∀ tracks, Knowledge.nothing.holds tracks = [] := fun tracks => by cases tracks <;> rfl
  refine ⟨(Knowledge.nothing.meet ⟨0⟩ ((none : Option FrameId).isSome = true)).run ⟨0⟩, rfl, rfl, rfl,
    rfl, fun v _ => ⟨trivial, fun name member hmember => by cases hmember⟩, fun _ _ => trivial,
    fun _ _ _ => trivial, rfl, rfl, (hempty left).symm, ?_, hnew.known rfl rfl rfl rfl⟩
  exact congrArg (Machine.mk config .empty (Arena.empty.alloc none none false).2 ⟨0⟩ (.single ⟨0⟩)
    .empty []) (hempty right).symm

theorem alike_addType (h : (Likeness.sharing left right fun _ => True).Alike w m m) (tag : TypeTag) :
    (Likeness.sharing left right fun _ => True).Alike w (m.addType tag) (m.addType tag) := by
  have halloc := h.alloc (k := .type (.builtin tag)) trivial
  have htyped : (Likeness.sharing left right fun _ => True).Alike w
      { m with heap := (m.heap.alloc (.type (.builtin tag))).2
               types := m.types.insert tag.name (m.heap.alloc (.type (.builtin tag))).1 }
      { m with heap := (m.heap.alloc (.type (.builtin tag))).2
               types := m.types.insert tag.name (m.heap.alloc (.type (.builtin tag))).1 } :=
    ⟨rfl, rfl, halloc.sound, halloc.fresh, fun _ _ _ => trivial, halloc.calls, halloc.root, halloc.held,
      by rw [← h.symm_sharing.held], halloc.shares⟩
  exact htyped.defineGlobal_sharing tag.name trivial

/-- New machines go together. -/
theorem parallel_new (config : Config) : (new config).Parallel left right (new config) := by
  obtain ⟨w, hw, hheld, hbare⟩ := alike_bare left right config
  have hnew : (Likeness.sharing left right fun _ => True).Alike w (new config) (new config) :=
    new_induction (P := fun m => (Likeness.sharing left right fun _ => True).Alike w m m) config hbare
      fun _ tag h => alike_addType h tag
  exact ⟨_, w, hnew, hw, hheld⟩

/-! ## What can be come across -/

/-- What a host and its programs can come across between requests: the global frame and the types,
what objects are made of and have as members, and what frames hold and lie in. -/
inductive Visible (m : Machine) : Target → Prop
  | root : Visible m (.frame m.globals)
  | type {name : String} {v : Value} (h : m.types.get? name = some v) : Visible m (.object v)
  | part {v : Value} {r : Reference} (hv : Visible m (.object v))
    (hr : r ∈ (m.heap.get v).kind.references) : Visible m r.target
  | member {v : Value} {name : String} {member : Member} {r : Reference}
    (hv : Visible m (.object v)) (h : (m.heap.get v).members.get? name = some member)
    (hr : r ∈ member.references) : Visible m r.target
  | var {id : FrameId} {f : Frame} {name : String} {v : Value} (hid : Visible m (.frame id))
    (hf : m.arena.get? id = some f) (h : f.vars.get? name = some v) : Visible m (.object v)
  | operand {id : FrameId} {f : Frame} {v : Value} (hid : Visible m (.frame id))
    (hf : m.arena.get? id = some f) (h : v ∈ f.stack ++ f.last.toList ++ f.object.toList) :
    Visible m (.object v)
  | parent {id p : FrameId} {f : Frame} (hid : Visible m (.frame id))
    (hf : m.arena.get? id = some f) (h : f.parent = some p) : Visible m (.frame p)

end Machine

namespace Likeness

/-- A good value, or a frame that is near and live in both arenas. -/
def Reached (good : Value → Prop) (w : Knowledge) (a b : Arena) : Target → Prop
  | .object v => good v
  | .frame id => w.near id ∧ a.isLive id = true ∧ b.isLive id = true

/-- What can be come across is good, or live in both machines. -/
theorem Alike.visible (h : (sharing left right good).Alike w m n) (hw : w.Resting) {x : Target}
    (hx : m.Visible x) : Reached good w m.arena n.arena x := by
  have hb := h.shares
  have hknown : ∀ {r : Reference}, w.Knows good r.target →
      Reached good w m.arena n.arena r.target := by
    intro r hr
    cases r with
    | value v => exact hr
    | code scope => exact hb.reaches (.inl hr)
    | frame id => exact hb.reaches (.inl hr)
  have hcontents : ∀ {id f}, w.near id → m.arena.get? id = some f → f.Good good :=
    fun hnear hf => (hb.mindsLeft _ _ hnear hf).1
  induction hx with
  | root =>
    rw [h.root]
    exact hb.reaches (.inr hw.active)
  | type htype => exact h.goodTypes _ _ htype
  | part hv hr ih => exact hknown ((soundKind_iff.1 (h.sound _ ih).kind).1 _ hr)
  | member hv hmember hr ih => exact hknown (soundMember_iff.1 ((h.sound _ ih).member _ _ hmember) _ hr)
  | var hid hf hvar ih => exact (hcontents ih.1 hf).vars _ _ hvar
  | operand hid hf hv ih =>
    have hgood := hcontents ih.1 hf
    rcases List.mem_append.1 hv with hv | hv
    · rcases List.mem_append.1 hv with hv | hv
      · exact hgood.stack _ hv
      · exact hgood.last _ (Option.mem_toList.1 hv)
    · exact hgood.object _ (Option.mem_toList.1 hv)
  | parent hid hf hp ih =>
    obtain ⟨g, hg⟩ := Option.isSome_iff_exists.1 ih.2.2
    obtain ⟨hnear, f', g', hf', hg'⟩ := hb.parent ih.1 hf hg hp
    exact ⟨hnear, Arena.isLive_of_get? hf', Arena.isLive_of_get? hg'⟩

end Likeness

/-- A scope that can be come across is live in both machines, in a slot of its own, and the same but
for what holds it. -/
theorem Machine.Parallel.scope (h : m.Parallel left right n) {id : FrameId}
    (hid : m.Visible (.frame id)) :
    ∃ f g, m.arena.get? id = some f ∧ n.arena.get? id = some g ∧ g.view = f.view ∧
      m.arena.idInSlot? f.slot = some id := by
  obtain ⟨good, w, h, hw, -⟩ := h
  obtain ⟨-, hleft, hright⟩ := h.visible hw hid
  obtain ⟨f, hf⟩ := Option.isSome_iff_exists.1 hleft
  obtain ⟨g, hg⟩ := Option.isSome_iff_exists.1 hright
  exact ⟨f, g, hf, hg, h.shares.same id f g hf hg, h.shares.slotsLeft.home id f hf⟩

end session

variable {digests : Digests}

/-- No session can tell that frames are freed. A host sees the same of a machine that never frees one,
of one that frees a frame as soon as nothing holds it, and of one that frees all that it can whenever an
activation ends or a new one starts: frames that lost their last holder, their parents, and the garbage
that an idle frame can reach. It also sees the same of a machine that frees as much and would never end
rather than call something while a frame on the call stack is gone or has lost its slot, run a body
outside of its scope, or let a call fail because a frame is missing. No request fails for that reason.
Every scope that can be come across after a session is live, in a slot that it still has to itself, and
what it was for a machine that never frees a frame. It does not matter whether references are counted
afresh: nothing that can be reached is freed when the references are counted one by one as they come and
go. -/
theorem Service.session_unobservable (config : Config) (fuel : Nat) (turns : List Turn) :
    ((disposing .releasing digests fuel).session turns (.new config)).map Prod.fst =
      ((disposing .hoarding digests fuel).session turns (.new config)).map Prod.fst ∧
    ((disposing .releasing digests fuel).session turns (.new config)).map Prod.fst =
      ((disposing .wary digests fuel).session turns (.new config)).map Prod.fst ∧
    ((disposing .releasing digests fuel).session turns (.new config)).map Prod.fst =
      ((withFuel fuel digests).session turns (.new config)).map Prod.fst ∧
    (∀ seen m seen' n, (disposing .releasing digests fuel).session turns (.new config) =
      some (seen, m) →
      (disposing .hoarding digests fuel).session turns (.new config) = some (seen', n) →
      (∀ s ∈ seen, s.Sound) ∧
      ∀ id, m.Visible (.frame id) → ∃ f g, m.arena.get? id = some f ∧ n.arena.get? id = some g ∧
        g.view = f.view ∧ m.arena.idInSlot? f.slot = some id) ∧
    ∀ s : Holding, s.Sound → s.Shrinks s.settleDropped ∧ s.Shrinks s.collect ∧
      ∀ id f, s.arena.get? id = some f → (s.ended id).Shrinks (s.release id) := by
  have hnew : ∀ {left right : Bool}, (Machine.new config).Parallel left right (.new config) :=
    Machine.parallel_new config
  rw [← disposing_freeing]
  refine ⟨hnew.seen_session Disposal.careful_releasing Disposal.careful_hoarding turns,
    hnew.seen_session Disposal.careful_releasing Disposal.careful_wary turns,
    hnew.seen_session Disposal.careful_releasing Disposal.careful_freeing turns,
    fun seen m seen' n hs hs' => ?_, fun s hsound =>
      ⟨Holding.shrinks_settleDropped hsound, Holding.shrinks_collect hsound,
        fun id f hf => Holding.shrinks_release hsound hf⟩⟩
  obtain ⟨hsound, n', hn, hparallel⟩ :=
    hnew.session Disposal.careful_releasing Disposal.careful_hoarding turns hs
  rw [hn] at hs'
  cases hs'
  exact ⟨hsound, fun id hid => hparallel.scope hid⟩

/-- A call of a function that defines another one inside. Its frame then holds itself by what is bound in
it, and a machine that hoards frames keeps it. -/
theorem Service.session_unobservable_call :
    ∃ turns seen m n, (disposing .releasing .standard 20).session turns (.new .standard) =
      some (seen, m) ∧
      (disposing .hoarding .standard 20).session turns (.new .standard) = some (seen, n) ∧
      n.liveFrames = 2 ∧ (∀ s ∈ seen, s.Sound) ∧
      (∃ f, m.arena.get? m.globals = some f ∧ m.arena.idInSlot? f.slot = some m.globals) ∧
      (m.holding []).Sound ∧ (m.holding []).Shrinks (m.holding []).collect := by
  let program : Program := .ofBody [
    .function .unknown ⟨"f", [], [.function .unknown ⟨"g", [], [.exit .unknown []]⟩]⟩,
    .expr (.call .unknown (.identifier .unknown "f") [])]
  let code : Cursor := (program.compile.toOption).getD (.ofList [])
  let turns : List Turn := [⟨.execute code, none, none⟩]
  have hhoarding : ((disposing .hoarding .standard 20).session turns (.new .standard)).map
      (fun ended => ended.2.liveFrames) = some 2 := by
    decide +kernel
  obtain ⟨⟨seen, n⟩, hs', hn⟩ := Option.map_eq_some_iff.1 hhoarding
  obtain ⟨hseen, -, -, hscope, hshrinks⟩ := session_unobservable .standard 20 turns
  rw [hs', Option.map_some] at hseen
  obtain ⟨⟨seen', m⟩, hs, rfl⟩ := Option.map_eq_some_iff.1 hseen
  obtain ⟨hsound, hvisible⟩ := hscope _ m _ n hs hs'
  obtain ⟨f, g, hf, -, -, hslot⟩ := hvisible m.globals .root
  have hcounts : (m.holding []).Sound := by
    obtain ⟨-, _, -, good, w, h, -⟩ :=
      (Machine.parallel_new .standard).session Disposal.careful_releasing Disposal.careful_releasing
        turns hs
    exact m.sound_holding h.shares.left.family []
  exact ⟨turns, _, m, n, hs, hs', hn, hsound, ⟨f, hf, hslot⟩, hcounts, (hshrinks _ hcounts).2.1⟩

end ScriptVM
