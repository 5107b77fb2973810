import ScriptVM.Proofs.Safety.Activation
import ScriptVM.Proofs.Safety.Step

/-!
# Bodies in guarded machines

Functions, classes and modules run their bodies in new frames, generators in a frame of their own that
is used again at every step, also while a step of the same generator is still running. All of them
keep the machine guarded, and so does every call, whatever the fuel.
-/

/-! ## Runs

Sound code runs from label to label until its end or an exit, so its body ends with the operands
that are left to it.
-/

namespace ScriptVM

open Run Engine

/-- How a run of some code ends: behind the code, or where the body may be left, and with so many
operands. -/
def Flow.Ends (mode : Mode) (code : Block) (stop n : Nat) : Flow → Prop
  | .next c => c = (Cursor.ofList code).skip code.length ∧ n = stop
  | .leave _ c => (∃ q, c = (Cursor.ofList code).skip q ∧ mode.exits.allow code.length q) ∧
      n = mode.base

section run

variable {e : Engine} {w : Watch} {id : FrameId} {outer : List Nat} {mode : Mode} {labels : Labels}
  {code : Block} {entry stop : Nat}

theorem Cursor.next?_end (code : Block) : ((ofList code).skip code.length).next? = none := by
  rw [next?_eq_none_iff]
  simp [ofList, ofView, Cursor.skip]

/-- From one label to the next, until the code ends or the body is left. -/
theorem Engine.Guarding.dispatch (he : e.Guarding) (hlength : code.length ≤ Text.maxCount)
    (hmode : mode.marked = false) (hfit : labels.Fit mode code.length 0 code)
    (hstop : labels code.length = some stop) (steps : Nat) {p n : Nat} (hp : p ≤ code.length)
    (hn : labels p = some n) {m : Machine} (hm : m.Guarded (w.set id (n :: outer))) :
    ∃ k, Arrives w id outer k (Flow.Ends mode code stop k)
      (e.dispatch steps id ((Cursor.ofList code).skip p) m) := by
  induction steps generalizing w m p n with
  | zero => exact ⟨0, trivial⟩
  | succ steps ih =>
    unfold Engine.dispatch
    rcases Nat.lt_or_eq_of_le hp with hlt | rfl
    · have hstands := Cursor.stands_ofList hlength
      have hi : code[p]? = some code[p] := List.getElem?_eq_getElem hlt
      rw [hstands.next? hi]
      obtain ⟨hfits, hinside, hbodies⟩ := hfit p code[p] n hi (by rwa [Nat.zero_add])
      rw [Nat.zero_add] at hfits
      have hsound : ∀ shape, code[p].op.body? = some shape →
          (View.ofList ((code.drop (p + 1)).take code[p].op.bodyLength)).IsSound shape.mode
            shape.entry := by
        intro shape hshape
        obtain ⟨ending, hbody⟩ := hbodies shape hshape
        have hsize : code[p].op.bodyLength = shape.length := by rw [Op.bodyLength, hshape]; rfl
        refine ⟨_, ending, rfl, ?_, hsize ▸ hbody⟩
        rw [List.length_take, List.length_drop]
        omega
      refine (moves_trace _ code[p]).bind_ends (fun w₁ _ _ _ m₁ hm₁ => ?_) hm
      have hstep : Moves w₁ id outer n _ _ _ :=
        (he.moves_step hfits (hstands.behind hfits hinside) hmode hsound).located code[p].span
      refine hstep.bind_ends (fun w₂ flow _ harrival m₂ hm₂ => ?_) hm₁
      cases flow with
      | next c =>
        obtain ⟨q, hq, rfl⟩ := harrival
        obtain ⟨hle, hlabel⟩ := hfits.targets q hq
        exact ih hle hlabel hm₂
      | leave v c =>
        obtain ⟨⟨count, hexit⟩, rfl⟩ := harrival
        obtain ⟨hdepth, hallow⟩ := hfits.exit count hexit
        refine ⟨_, ⟨⟨p + 1, rfl, hallow⟩, ?_⟩, w₂, .refl w₂, hm₂⟩
        rw [hexit, hdepth]
        exact Nat.add_sub_cancel ..
    · refine ⟨n, ?_⟩
      rw [Cursor.next?_end]
      cases hstop.symm.trans hn
      exact ⟨⟨rfl, rfl⟩, w, .refl w, hm⟩

/-- A run of sound code ends with the operands that are left at its end or at an exit. The operation
of a generator ends behind its last instruction. -/
theorem Engine.Guarding.run (he : e.Guarding) (hlength : code.length ≤ Text.maxCount)
    (hmode : mode.marked = false) (hs : Sound mode entry code stop) {m : Machine}
    (hm : m.Guarded (w.set id (entry :: outer))) :
    ∃ k, Arrives w id outer k (fun r => (k = stop ∨ k = mode.base) ∧
      (mode.exits = .last → code.length ≤ r.2.index)) (e.run id (.ofList code) m) := by
  obtain ⟨⟨labels, hstart, hstop, hfit⟩, -⟩ := Sound.iff_labels.1 hs
  obtain ⟨k, hk⟩ := he.dispatch hlength hmode hfit hstop e.fuel (Nat.zero_le _) hstart hm
  refine ⟨k, ?_⟩
  unfold Engine.run
  simp only [Bind.bind, EStateM.bind]
  change Arrives w id outer k _ (e.dispatch e.fuel id (.ofList code) m) at hk
  cases hr : e.dispatch e.fuel id (.ofList code) m with
  | error s m' =>
    rw [hr] at hk
    cases s with
    | gaveUp => trivial
    | failed f => exact hk
  | ok flow m' =>
    rw [hr] at hk
    obtain ⟨hends, w', hw, hm'⟩ := hk
    cases flow with
    | next c =>
      obtain ⟨rfl, rfl⟩ := hends
      have hnone : Moves w' id outer k k (do return (← newNone, (Cursor.ofList code).skip code.length))
          fun r => (k = k ∨ k = mode.base) ∧ (mode.exits = .last → code.length ≤ r.2.index) :=
        (moves_newObject .none fun _ => trivial).bind fun _ _ _ _ => .pure
          ⟨.inl rfl, fun _ => by simp [Cursor.ofList, Cursor.ofView, Cursor.skip]⟩
      exact (hnone m' hm').mono hw fun _ h => h
    | leave v c =>
      obtain ⟨⟨q, rfl, hallow⟩, rfl⟩ := hends
      refine ⟨⟨.inr rfl, fun hlast => ?_⟩, w', hw, hm'⟩
      rw [hlast] at hallow
      cases hallow
      simp [Cursor.ofList, Cursor.ofView, Cursor.skip]

end run
end ScriptVM

namespace ScriptVM

open Run Engine

variable {e : Engine} {w : Watch} {id : FrameId} {digests : Digests}

/-- An engine that runs sound code in any frame but the global one. -/
structure Engine.Enters (e : Engine) : Prop where
  plain : e.tracks = false
  enter : ∀ {w id mode entry stop code}, code.length ≤ Text.maxCount → mode.marked = false →
    Sound mode entry code stop → id ≠ w.root →
    Leaves w id entry (e.enter id (.ofList code))
      fun r => mode.exits = .last → code.length ≤ r.2.index

/-- A body with operands of its own in a frame with a new activation. -/
theorem Engine.Enters.pushed (he : e.Enters) {mode : Mode} {stop : Nat} {code : Block}
    {values : List Value} (hlength : code.length ≤ Text.maxCount) (hmode : mode.marked = false)
    (hs : Sound mode values.length code stop) (hid : id ≠ w.root) :
    Leaves w id 0 (do pushAll id values; e.enter id (.ofList code))
      fun r => mode.exits = .last → code.length ≤ r.2.index := by
  refine (moves_pushAll values).bind_leaves hid fun w' _ hw _ => ?_
  rw [Nat.zero_add]
  exact he.enter hlength hmode hs (hw.root_eq ▸ hid)

theorem Engine.Enters.runIn (he : e.Enters) {mode : Mode} {body : View} (scope : FrameId)
    (object : Option Value) (bindsObject : Bool) (self : Value) (operands : List Value)
    (hmode : mode.marked = false) (hbody : body.IsSound mode operands.length) :
    Likeness.guarding.Agree w (e.runIn scope object bindsObject self operands body)
      (e.runIn scope object bindsObject self operands body) fun _ _ => True := by
  obtain ⟨code, stop, rfl, hlength, hs⟩ := hbody
  intro m n hmn
  obtain ⟨rfl, hm⟩ := hmn.guarded
  obtain ⟨hroot, hdepths⟩ := hm.fresh
  have hleaves : Leaves w ⟨n.arena.frames.size⟩ 0 (do
      define ⟨n.arena.frames.size⟩ selfName self
      pushAll ⟨n.arena.frames.size⟩ operands
      return (← e.enter ⟨n.arena.frames.size⟩ (.ofList code)).1) fun _ => True := by
    refine (moves_define selfName self).bind_leaves hroot fun w' _ hw _ => ?_
    have hpushed := (he.pushed hlength hmode hs (hw.root_eq ▸ hroot)).map (q := fun _ => True)
      (f := Prod.fst) fun _ _ => trivial
    simpa only [bind_assoc] using hpushed
  rw [Engine.runIn_of_plain he.plain, newFrame_bind]
  refine hleaves _ ?_
  rw [hdepths]
  exact hm.alloc (some scope) object bindsObject

/-! ## Steps of generators -/

/-- A generator goes on at the start of its body. -/
theorem Generator.IsSound.startOf {state : Generator} (h : state.IsSound w) :
    Engine.startOf state = .ofView state.body := by
  unfold Engine.startOf
  split
  · rename_i i hi
    rw [if_neg (Nat.not_lt.2 (h.resumes i hi))]
  · rfl

theorem Engine.Enters.step (he : e.Enters) {state : Generator} (hstate : state.IsSound w)
    {values : List Value} (hvalues : values.length = state.receivers) (hid : id ≠ w.root) :
    Leaves w id 0 (do pushAll id values; e.enter id (Engine.startOf state))
      fun r => state.body.length ≤ r.2.index := by
  obtain ⟨code, stop, hcode, hlength, hs⟩ := hstate.body
  rw [hstate.startOf, hcode]
  rw [← hvalues] at hs
  intro m hm
  refine (he.pushed hlength rfl hs hid m hm).mono (Watch.Le.refl w) fun _ r _ hr => ?_
  rw [View.length_ofList]
  exact hr rfl

/-- The frame of a generator that has none yet. -/
theorem guarded_generatorFrame {m : Machine} (hm : m.Guarded w) (g : Value)
    (scope : FrameId) : ∃ w' m', w.Le w' ∧ w'.depths = w.depths ∧
      (∀ {α : Type} (k : FrameId → Run α), (do
        let id ← newFrame (some scope) none false
        let id ← retain id
        modifyHeap (changeGenerator g fun state => { state with frame := some id })
        k id) m = k ⟨m.arena.frames.size⟩ m') ∧
      m'.Guarded (w'.set ⟨m.arena.frames.size⟩ [0]) := by
  have hnew := hm.alloc (some scope) none false
  obtain ⟨f, hf⟩ := hnew.live
  have hretained := hnew.retain hf
  let w' : Watch := { w with kept := fun other => w.kept other ∨ other = ⟨m.arena.frames.size⟩ }
  have hgood : Likeness.guarding.good g := trivial
  have hframe : ∀ s, Likeness.guarding.SoundKind (w'.set ⟨m.arena.frames.size⟩ [0]) (.generator s) →
      Likeness.guarding.SoundKind (w'.set ⟨m.arena.frames.size⟩ [0])
        (.generator { s with frame := some ⟨m.arena.frames.size⟩ }) := by
    rintro s ⟨hs, hparts⟩
    refine ⟨⟨hs.body, ?_, hs.resumes⟩, hparts⟩
    rintro id ⟨⟩
    exact ⟨.inr rfl, hm.fresh.1⟩
  refine ⟨w', _, ⟨rfl, fun _ => .inl, fun _ _ h => h⟩, rfl, fun k => ?_,
    Likeness.Alike.changeGenerator hretained hgood (fun s _ => hframe s)
      fun _ => .ofGenerator ⟨rfl, rfl, rfl, rfl⟩⟩
  rw [newFrame_bind]
  simp only [bind, EStateM.bind, retain_of_live hf]
  rfl

theorem Engine.Enters.runOperation (he : e.Enters) (g : Value) {state : Generator}
    (hstate : state.IsSound w) {values : List Value} (hvalues : values.length = state.receivers) :
    Likeness.guarding.Agree w (e.runOperation g state values) (e.runOperation g state values)
      fun _ r => state.body.length ≤ r.2.index := by
  intro m n hmn
  obtain ⟨rfl, hm⟩ := hmn.guarded
  cases hframe : state.frame with
  | some id =>
    obtain ⟨hkept, hroot⟩ := hstate.frame id hframe
    obtain ⟨f, hf, -⟩ := hm.guards.supports.kept id hkept
    simp only [Engine.runOperation, generatorFrame, hframe, bind_assoc, pure_bind]
    simp only [bind, EStateM.bind, activate_of_live hf]
    exact he.step hstate hvalues hroot _ (hm.activate hf)
  | none =>
    obtain ⟨w', m', hw, hdepths, hrun, hm'⟩ := guarded_generatorFrame hm g state.scope
    simp only [Engine.runOperation, generatorFrame_of_plain he.plain, hframe, bind_assoc, pure_bind]
    rw [hrun]
    have hstate' : state.IsSound w' := Likeness.guarding.generator_mono hw hstate
    refine (he.step hstate' hvalues (hw.root_eq ▸ hm.fresh.1) _ ?_).mono hw fun _ _ _ h => h
    rwa [hdepths, hm.fresh.2]

/-- As many items as wanted are taken, or it fails. -/
theorem Engine.length_takeItems {e : Engine} {next : Value → Run (Option Value)} {iterator : Value}
    {wanted missing : Nat} {taken vs : List Value} {m m' : Machine}
    (h : e.takeItems next iterator wanted missing taken m = .ok vs m') :
    vs.length = missing + taken.length := by
  induction missing generalizing taken m with
  | zero =>
    cases h
    rw [List.length_reverse, Nat.zero_add]
  | succ missing ih =>
    unfold takeItems at h
    simp only [bind, EStateM.bind] at h
    split at h
    · rename_i r m₁ _
      cases r with
      | some item =>
        rw [ih h, List.length_cons]
        omega
      | none => cases h
    · cases h

theorem Engine.length_received {next : Value → Run (Option Value)} {item : Value} {receivers : Nat}
    {vs : List Value} {m m' : Machine} (h : e.received next item receivers m = .ok vs m') :
    vs.length = receivers := by
  unfold Engine.received at h
  split at h
  · rename_i hone
    cases h
    exact hone.symm
  · simp only [unpackWith, bind, EStateM.bind] at h
    split at h
    · exact length_takeItems h
    · cases h

/-- A generator that is looked at is known. -/
theorem agree_expectGenerator_known (g : Value) :
    Likeness.guarding.Agree w (expectGenerator g) (expectGenerator g)
      fun w' state => state.IsSound w' ∧ w'.generator g state.body := by
  refine Likeness.Agree.kindOf_bind trivial fun k hk => ?_
  split
  · rename_i state
    intro m n hmn hkind
    obtain ⟨rfl, hm⟩ := hmn.guarded
    let w' : Watch :=
      { w with generator := fun v body => w.generator v body ∨ v = g ∧ body = state.body }
    have hguards : Guards w' n := by
      refine ⟨hm.guards.calls, hm.guards.root, hm.guards.rooted, hm.guards.supports,
        hm.guards.operands, fun v body hv => ?_⟩
      rcases hv with hv | ⟨rfl, rfl⟩
      · exact hm.guards.generator v body hv
      · exact ⟨state, hkind, rfl⟩
    exact ⟨rfl, w', ⟨rfl, fun _ h => h, fun _ _ => .inl⟩,
      ⟨⟨hk.1.body, hk.1.frame, hk.1.resumes⟩, .inr ⟨rfl, rfl⟩⟩,
      hm.change hguards rfl (fun _ hkept => hkept) rfl⟩
  · exact (Likeness.agree_failType g _).on

theorem Engine.Guarding.applyBody (he : e.Guarding) {next next' : Value → Run (Option Value)}
    (hnext : Likeness.guarding.NextAgrees next next') (g item : Value) :
    Likeness.guarding.Agree w (e.applyBody next g item) (e.applyBody next' g item)
      fun _ _ => True := by
  rw [applyBody_of_plain he.plain, applyBody_of_plain he.plain]
  refine (agree_expectGenerator_known g).bind fun w₁ state _ hstate => ?_
  obtain ⟨hsound, hknown⟩ := hstate
  have hitem : Likeness.guarding.good item := trivial
  have hreceived := (he.calls.received hnext hitem state.receivers (w := w₁)).and_of_ok
    fun m vs m' h => length_received h
  refine hreceived.bind fun w₂ values hw₂ hvalues => ?_
  have hsound₂ : state.IsSound w₂ := Likeness.guarding.generator_mono hw₂ hsound
  refine (he.runOperation hsound₂ hvalues.2).bind fun w₃ r hw₃ hr => ?_
  obtain ⟨value, stop⟩ := r
  refine (Likeness.agree_modifyHeap fun m n hmn => ?_).bind fun _ _ _ _ => .pure trivial
  refine hmn.changeGenerator trivial (fun s hs hkind => ?_) fun _ => .ofGenerator ⟨rfl, rfl, rfl, rfl⟩
  refine ⟨⟨hkind.1.body, hkind.1.frame, ?_⟩, hkind.2⟩
  rintro i ⟨⟩
  obtain ⟨s', hs', hbody⟩ := hmn.guarded.2.guards.generator g state.body
    (hw₃.generator g _ (hw₂.generator g _ hknown))
  cases hs.symm.trans hs'
  rw [hbody]
  exact hr

/-! ## Calls -/

theorem Engine.Guarding.bodies (he : e.Guarding) : Likeness.guarding.Bodies e e where
  toCalls := he.calls
  body hnext _ _ := he.applyBody hnext _ _
  code := by
    intro w callee f receiver args _ hf _ _ hargs
    have hbody : f.body.IsSound .plain args.length := by
      rw [hargs]
      exact hf
    exact he.runIn f.scope receiver false (receiver.getD callee) args rfl hbody
  classBody := by
    intro w c object hc _
    have hbody : c.body.IsSound .classBody [object].length := hc
    exact (he.runIn c.scope (some object) true object [object] rfl hbody).discard

theorem Engine.Enters.guarding (he : e.Enters) (hcall : ∀ {w callee args},
    Likeness.guarding.Agree w (e.call callee args) (e.call callee args) fun _ _ => True) :
    e.Guarding :=
  ⟨he.plain, hcall, fun scope object bindsObject self operands =>
    he.runIn scope object bindsObject self operands, fun hstate => he.runOperation _ hstate⟩

/-- Whatever the fuel, calls and bodies keep machines guarded. -/
theorem Engine.guarding_withFuel (fuel : Nat) : (withFuel fuel digests).Guarding := by
  induction fuel with
  | zero =>
    have henters : (withFuel 0 digests).Enters := ⟨rfl, fun _ _ _ _ _ _ => trivial⟩
    exact henters.guarding .giveUp
  | succ fuel ih =>
    have henters : (withFuel (fuel + 1) digests).Enters := by
      refine ⟨rfl, fun hlength hmode hs hid => leaves_activation hid fun m hm => ?_⟩
      obtain ⟨k, hk⟩ := ih.run hlength hmode hs hm
      exact ⟨k, hk.mono (.refl _) fun _ h => h.2⟩
    exact henters.guarding (ih.bodies.callValue trivial fun _ _ => trivial)

end ScriptVM
