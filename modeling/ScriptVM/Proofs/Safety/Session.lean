import ScriptVM.Proofs.Code.Soundness
import ScriptVM.Proofs.Disposal.Session
import ScriptVM.Proofs.Safety.Body

/-!
# Programs that share a machine

A machine at rest runs nothing but the global frame, and that without operands of its own. A new
machine is at rest, and every execution of a compiled program brings a machine at rest back to rest.
So no execution ever fails for an internal cause, and those that succeed leave the operands of the
global frame as they were.
-/
namespace ScriptVM

open Engine

/-- The operands of the global frame, if it is live. -/
def Machine.globalOperands (m : Machine) : Option (List Value) :=
  (m.arena.get? m.globals).map Frame.stack

/-- A watch under which only the global frame is active, with no operands but those below. -/
structure Watch.Resting (w : Watch) : Prop where
  calls : w.calls = .single w.root
  depths : w.depths = fun id => if id = w.root then [0] else []

/-- A machine between executions. -/
def Machine.AtRest (m : Machine) : Prop := ∃ w : Watch, w.Resting ∧ m.Guarded w

section rest

variable {w w' : Watch} {m m' : Machine} {digests : Digests}

theorem Watch.Resting.depths_root (h : w.Resting) : w.depths w.root = [0] := by
  rw [h.depths]
  exact if_pos rfl

theorem Watch.Resting.mono (h : w.Resting) (hw : w.Le w') : w'.Resting := by
  rw [hw.same]
  exact ⟨h.calls, h.depths⟩

theorem Machine.Guarded.globalOperands (hm : m.Guarded w) (hw : w.Resting) :
    m.globalOperands = some w.below := by
  have hself : w.set w.root [0] = w := by
    rw [← hw.depths_root]
    exact Watch.set_self
  rw [← hself] at hm
  obtain ⟨f, hf⟩ := hm.live
  obtain ⟨top, htop, hstack⟩ : Over (some w.below) 0 f.stack := by
    have hover := hm.operands hf
    rwa [Watch.base, if_pos rfl] at hover
  have hglobals : m.globals = w.root := hm.guards.root
  rw [Machine.globalOperands, hglobals, hf, Option.map_some, hstack,
    List.eq_nil_of_length_eq_zero htop, List.nil_append]

/-! ## New machines -/

/-- What is known of a new machine. -/
def Watch.initial (root : FrameId) : Watch where
  kept _ := False
  depths id := if id = root then [0] else []
  calls := .single root
  root := root
  below := []
  generator _ _ := False

theorem guarded_bare (config : Config) :
    (⟨config, .empty, (Arena.empty.alloc none none false).2, ⟨0⟩, .single ⟨0⟩, .empty, [],
      []⟩ :
      Machine).Guarded (.initial ⟨0⟩) where
  heap := rfl
  types := rfl
  sound v _ := ⟨trivial, fun name member hmember => by cases hmember⟩
  fresh _ _ := trivial
  goodTypes _ _ _ := trivial
  rest := by
    have hnone : Arena.empty.Supports (fun _ => False) fun _ => 0 :=
      ⟨fun p hp => absurd hp (Nat.lt_irrefl 0), fun _ h => h.elim, fun _ h =>
        absurd h (Nat.lt_irrefl 0)⟩
    refine ⟨rfl, rfl, rfl, nofun, hnone.alloc none none false (Nat.le_refl 1) fun other hother => ?_,
      fun id f hf => ?_, fun _ _ h => h.elim⟩
    · exact congrArg List.length (if_neg hother)
    · have hsize := Arena.serial_lt_of_get? hf
      rw [Arena.size_frames_alloc] at hsize
      have hid : id = ⟨0⟩ := by
        cases id
        simp only [Arena.empty, FrameId.mk.injEq] at hsize ⊢
        exact Nat.lt_one_iff.1 hsize
      subst hid
      cases hf
      exact ⟨[], rfl, rfl⟩

theorem Machine.Guarded.addType (hm : m.Guarded (.initial m.globals)) (tag : TypeTag) :
    (m.addType tag).Guarded (.initial m.globals) := by
  have halloc : ({ m with heap := (m.heap.alloc (.type (.builtin tag))).2 } : Machine).Guarded
      (.initial m.globals) := Likeness.Alike.alloc hm trivial
  have hself : (Watch.initial m.globals).set m.globals [0] = .initial m.globals := by
    have hdepths : (Watch.initial m.globals).depths m.globals = [0] := if_pos rfl
    rw [← hdepths, Watch.set_self]
  have htyped : ({ m with
      heap := (m.heap.alloc (.type (.builtin tag))).2
      types := m.types.insert tag.name (m.heap.alloc (.type (.builtin tag))).1 } : Machine).Guarded
      (.initial m.globals) := by
    have hguards := halloc.guards
    exact halloc.change ⟨hguards.calls, hguards.root, hguards.rooted, hguards.supports,
      hguards.operands, hguards.generator⟩ rfl (fun _ h => h) rfl
  rw [← hself] at htyped
  rw [← hself]
  unfold Machine.addType
  refine htyped.modifyFrame ?_ ?_ ?_ ?_ fun _ _ hover => hover <;> exact fun _ => rfl

theorem Machine.globals_addType (m : Machine) (tag : TypeTag) :
    (m.addType tag).globals = m.globals := rfl

theorem Machine.atRest_new (config : Config) : (new config).AtRest := by
  have hnew : (new config).globals = ⟨0⟩ ∧ (new config).Guarded (.initial ⟨0⟩) := by
    refine new_induction (P := fun m => m.globals = ⟨0⟩ ∧ m.Guarded (.initial ⟨0⟩)) config
      ⟨rfl, guarded_bare config⟩ fun m tag ⟨hglobals, hm⟩ => ?_
    rw [← hglobals] at hm
    have htyped := hm.addType tag
    rw [hglobals] at htyped
    exact ⟨(m.globals_addType tag).trans hglobals, htyped⟩
  exact ⟨.initial ⟨0⟩, ⟨rfl, rfl⟩, hnew.2⟩

/-! ## Executions -/

/-- After a failure in the global frame the machine is brought back to rest. -/
theorem Machine.Guarded.reset {n : Nat} (hm : m.Guarded (w.set w.root [n]))
    (hcalls : w.calls = .single w.root) (hdepths : ∀ id, id ≠ w.root → w.depths id = []) :
    m.reset.AtRest := by
  have hguards := hm.guards
  have hglobals : m.globals = w.root := hguards.root
  have hunwind : m.unwindTo 1 = m := by
    have hstack : m.callStack = .single w.root := hguards.calls.trans hcalls
    simp only [unwindTo, hstack, CallStack.single, CallStack.unwindTo, Nat.sub_self, List.take_zero,
      List.drop_zero, List.foldl_nil, Nat.sub_zero]
    rw [← CallStack.single, ← hstack]
  let w₀ : Watch := { w with below := [], depths := fun id => if id = w.root then [0] else [] }
  have hroot : w₀.depths w.root = [0] := if_pos rfl
  have hidle : ∀ id, id ≠ w.root → w₀.depths id = [] := fun id hid => if_neg hid
  have hdepth : ∀ id, (w₀.depths id).length = ((w.set w.root [n]).depths id).length := by
    intro id
    by_cases hid : id = w.root
    · subst hid
      rw [Watch.depths_set_self, hroot]
      rfl
    · rw [Watch.depths_set_of_ne hid, hdepths id hid, hidle id hid]
  refine ⟨w₀, ⟨hcalls, rfl⟩, ?_⟩
  unfold Machine.reset
  rw [hunwind]
  refine hm.change ⟨hguards.calls, hguards.root, ?_, ?_, fun id f hf => ?_, hguards.generator⟩ rfl
    (fun _ h => h) rfl
  · change w₀.depths w.root ≠ []
    rw [hroot]
    exact List.cons_ne_nil _ _
  · refine (hguards.supports.mono (fun _ h => h) fun id => Nat.le_of_eq (hdepth id)).modify m.globals
      (fun _ => rfl) (fun _ => Nat.le_refl _) (fun _ => Nat.le_refl _) fun _ => Nat.le_refl _
  · change (m.arena.modify m.globals _).get? id = some f at hf
    rw [Arena.get?_modify, hglobals] at hf
    split at hf
    · subst id
      obtain ⟨g, hg, rfl⟩ := Option.map_eq_some_iff.1 hf
      have hbase : w₀.base w.root = some [] := if_pos rfl
      rw [hroot, hbase]
      exact ⟨[], rfl, rfl⟩
    · rename_i hid
      have hover := hguards.operands id f hf
      rw [Watch.depths_set_of_ne hid, hdepths id hid, Watch.base_set, Watch.base_of_ne hid] at hover
      have hbase : w₀.base id = none := if_neg hid
      rwa [hidle id hid, hbase]

/-- How an execution on a machine that is at rest, in some sense, ends. -/
inductive Machine.Serves (rests : Machine → Prop) (m : Machine) : Ending Value → Prop
  | ok {v : Value} {m' : Machine} (hrest : rests m')
    (hoperands : m'.globalOperands = m.globalOperands) : Serves rests m (.ok v m')
  | failed {f : Failure} {m' : Machine} (hrest : rests m') (hcause : f.cause.isInternal = false) :
    Serves rests m (.error (.failed f) m')
  | gaveUp {why : Cutoff} {m' : Machine} : Serves rests m (.error (.gaveUp why) m')

theorem Machine.AtRest.serves {p : Program} {c : Cursor} (hm : m.AtRest) (hp : p.compile = .ok c)
    (hfits : c.length ≤ Text.maxCount) (digests : Digests) (fuel : Nat) :
    m.Serves AtRest ((withFuel fuel digests).execute c m) := by
  obtain ⟨w, hw, hm⟩ := hm
  obtain ⟨code, hcode, rfl⟩ : ∃ code, p.code = .ok code ∧ Cursor.ofList code = c := by
    unfold Program.compile at hp
    cases hcode : p.code with
    | error e =>
      rw [hcode] at hp
      cases hp
    | ok code =>
      rw [hcode] at hp
      cases hp
      exact ⟨code, rfl, rfl⟩
  have hlength : code.length ≤ Text.maxCount := by
    simpa [Cursor.ofList, Cursor.ofView] using hfits
  have hset : ∀ {w' : Watch}, w'.Resting → w'.set w'.root [0] = w' := by
    intro w' hw'
    rw [← hw'.depths_root]
    exact Watch.set_self
  have hstart : m.Guarded (w.set w.root [0]) := by rwa [hset hw]
  obtain ⟨k, hk⟩ := (guarding_withFuel fuel).run hlength rfl (Program.sound hcode) hstart
  unfold Engine.execute
  rw [hm.guards.root]
  generalize (withFuel fuel digests).run w.root (Cursor.ofList code) m = r at hk
  cases r with
  | ok r m' =>
    obtain ⟨⟨hdepth, -⟩, w', hle, hm'⟩ := hk
    have hzero : k = 0 := hdepth.elim id id
    have hw' := hw.mono hle
    rw [hzero, ← hle.root_eq, hset hw'] at hm'
    refine .ok ⟨w', hw', hm'⟩ ?_
    rw [hm'.globalOperands hw', hm.globalOperands hw, hle.same]
  | error stop m' =>
    cases stop with
    | gaveUp => exact .gaveUp
    | failed f =>
      obtain ⟨hcause, w', j, hle, hm'⟩ := hk
      have hw' := hw.mono hle
      rw [← hle.root_eq] at hm'
      refine .failed (hm'.reset hw'.calls fun id hid => ?_) hcause
      rw [hw'.depths]
      exact if_neg hid

/-! ## Machines that release frames -/

/-- The machine goes together with one at rest that frees a frame as soon as nothing holds it. -/
def Machine.Rests (m : Machine) : Prop := ∃ k : Machine, k.AtRest ∧ m.Parallel true false k

theorem Machine.rests_new (config : Config) : (new config).Rests :=
  ⟨new config, atRest_new config, parallel_new config⟩

/-- Machines that go together have the same operands in the global frame. -/
theorem Machine.Parallel.globalOperands {left right : Bool} {k : Machine}
    (h : m.Parallel left right k) : m.globalOperands = k.globalOperands := by
  obtain ⟨good, w, h, hw, -⟩ := h
  obtain ⟨f, g, hf, hg, hview, -⟩ := h.shares.active hw.active
  have hstack : g.stack = f.stack := Frame.eq_of_view hview Frame.stack fun _ => rfl
  have hroot : m.globals = w.root := h.root
  have hroot' : k.globals = w.root := h.symm_sharing.root
  rw [Machine.globalOperands, Machine.globalOperands, hroot, hroot', hf, hg, Option.map_some,
    Option.map_some, hstack]

/-- An execution on such a machine ends as it would at rest, and leaves such a machine. -/
theorem Machine.Rests.serves {p : Program} {c : Cursor} (h : m.Rests) (hp : p.compile = .ok c)
    (hfits : c.length ≤ Text.maxCount) (digests : Digests) (fuel : Nat) :
    m.Serves Rests ((disposing .releasing digests fuel).executeBy .releasing c m) := by
  obtain ⟨k, hk, hmk⟩ := h
  have hserves := hk.serves hp hfits digests fuel
  rw [← executeBy_freeing, ← disposing_freeing] at hserves
  have hoperands := hmk.globalOperands
  obtain ⟨good, w, halike, hw, hheld⟩ := hmk
  have hends : (Fading.sharing true false).Ends (s := good) w (fun good v => good v)
      ((disposing .releasing digests fuel).executeBy .releasing c m)
      ((disposing .freeing digests fuel).executeBy .freeing c k) :=
    Likeness.later_execute_sharing Disposal.careful_releasing Disposal.careful_freeing hw c m k halike
  revert hserves
  refine hends.byEnds (fun _ _ _ _ => .gaveUp) ?_ ?_
  · intro v m' k' good' w' hpast _ halike' hserves
    have hparallel : m'.Parallel true false k' :=
      ⟨good', w', halike', hw.past hpast, hpast.held.trans hheld⟩
    cases hserves with
    | ok hrest hsame =>
      exact .ok ⟨k', hrest, hparallel⟩ (by rw [hparallel.globalOperands, hsame, hoperands])
  · intro f m' k' good' w' hpast _ halike' hserves
    cases hserves with
    | failed hrest hcause =>
      exact .failed ⟨k', hrest, good', w', halike', hw.past hpast, hpast.held.trans hheld⟩ hcause

/-! ## Sessions -/

/-- What is left of a new machine after some programs were executed on it, one after the other, each
with as much fuel as it needs. A program that failed is one of them. The buffer of a program holds at
most as many instructions as a machine word can count. Whenever an activation ends or a new one starts,
the machine frees all frames that it can. -/
inductive Machine.After (config : Config) (digests : Digests) : List Program → Machine → Prop
  | new : After config digests [] (.new config)
  | succeeded {programs : List Program} {p : Program} {c : Cursor} {m m' : Machine} {v : Value}
    {fuel : Nat} (h : After config digests programs m) (hp : p.compile = .ok c)
    (hfits : c.length ≤ Text.maxCount)
      (hend : (disposing .releasing digests fuel).executeBy .releasing c m = .ok v m') :
    After config digests (programs ++ [p]) m'
  | failed {programs : List Program} {p : Program} {c : Cursor} {m m' : Machine} {f : Failure}
    {fuel : Nat} (h : After config digests programs m) (hp : p.compile = .ok c)
    (hfits : c.length ≤ Text.maxCount)
      (hend : (disposing .releasing digests fuel).executeBy .releasing c m = .error (.failed f) m') :
    After config digests (programs ++ [p]) m'

theorem Machine.After.rests {config : Config} {programs : List Program}
    (h : After config digests programs m) : m.Rests := by
  induction h with
  | new => exact rests_new config
  | succeeded _ hp hfits hend ih =>
    have hserves := hend ▸ ih.serves hp hfits digests _
    cases hserves with
    | ok hrest _ => exact hrest
  | failed _ hp hfits hend ih =>
    have hserves := hend ▸ ih.serves hp hfits digests _
    cases hserves with
    | failed hrest _ => exact hrest

/-- Whatever programs a machine has executed, and whatever frames it has freed meanwhile, the next one
does not fail for an internal cause, and if it succeeds, the operands of the global frame are what they
were. -/
theorem Machine.After.execute {config : Config} {programs : List Program} {p : Program} {c : Cursor}
    (h : After config digests programs m) (hp : p.compile = .ok c) (hfits : c.length ≤ Text.maxCount)
    (fuel : Nat) :
    (∀ f m', (disposing .releasing digests fuel).executeBy .releasing c m = .error (.failed f) m' →
      f.cause.isInternal = false) ∧
      ∀ v m', (disposing .releasing digests fuel).executeBy .releasing c m = .ok v m' →
        ∃ operands, m.globalOperands = some operands ∧ m'.globalOperands = some operands := by
  have hserves := h.rests.serves hp hfits digests fuel
  obtain ⟨k, ⟨w, hw, hk⟩, hmk⟩ := h.rests
  refine ⟨fun f m' hend => ?_, fun v m' hend => ?_⟩
  · rw [hend] at hserves
    cases hserves with
    | failed _ hcause => exact hcause
  · rw [hend] at hserves
    cases hserves with
    | ok _ hoperands =>
      have hbelow := hmk.globalOperands.trans (hk.globalOperands hw)
      exact ⟨w.below, hbelow, hoperands.trans hbelow⟩

/-- What follows a computation that comes to an end comes to an end, too. -/
theorem Fading.Ends.hasEnded {F : Fading} {s : F.Stage} {w : (F.likeness s).World} {α : Type}
    {post : F.Stage → α → Prop} {r t : Ending α} (h : F.Ends w post r t)
    (hend : ScriptVM.hasEnded r = true) : ScriptVM.hasEnded t = true := by
  revert hend
  refine h.byEnds (fun _ _ _ hend => ?_) (fun _ _ _ _ _ _ _ _ _ => rfl) fun _ _ _ _ _ _ _ _ _ => rfl
  cases hend

/-- Executions of new machines come to an end together. -/
theorem Machine.hasEnded_releasing (config : Config) (digests : Digests) {fuel : Nat} {c : Cursor}
    (hend : hasEnded ((withFuel fuel digests).execute c (.new config)) = true) :
    hasEnded ((disposing .releasing digests fuel).executeBy .releasing c (.new config)) = true := by
  have hparallel : (new config).Parallel false true (new config) := parallel_new config
  obtain ⟨good, w, halike, hw, -⟩ := hparallel
  have hends : (Fading.sharing false true).Ends (s := good) w (fun good v => good v)
      ((disposing .freeing digests fuel).executeBy .freeing c (.new config))
      ((disposing .releasing digests fuel).executeBy .releasing c (.new config)) :=
    Likeness.later_execute_sharing Disposal.careful_freeing Disposal.careful_releasing hw c _ _ halike
  rw [← executeBy_freeing, ← disposing_freeing] at hend
  exact hends.hasEnded hend

/-- A program that calls a function with another one inside, whose frame is garbage then, and raises
`True`. After it one with a loop that is left by `break`. -/
theorem Machine.After.execute_raise_break :
    let first : Program := .ofBody [
      .function ⟨some 1⟩ ⟨"f", [], [.function ⟨some 2⟩ ⟨"g", [], [.exit ⟨some 3⟩ []]⟩]⟩,
      .expr (.call ⟨some 4⟩ (.identifier ⟨some 4⟩ "f") []), .raise ⟨some 5⟩ (.bool ⟨some 5⟩ true)]
    let second : Program :=
      .ofBody [.loop ⟨some 1⟩ false (.bool ⟨some 1⟩ true) [.breakLoop ⟨some 2⟩]]
    ∃ c m, second.compile = .ok c ∧ After .standard .standard [first] m ∧
      (∀ f m', (disposing .releasing .standard 20).executeBy .releasing c m = .error (.failed f) m' →
        f.cause.isInternal = false) ∧
        ∀ v m', (disposing .releasing .standard 20).executeBy .releasing c m = .ok v m' →
          ∃ operands, m.globalOperands = some operands ∧ m'.globalOperands = some operands := by
  intro first second
  let code : Cursor := (first.compile.toOption).getD (.ofList [])
  have hcode : first.compile = .ok code := rfl
  have hfreed : hasEnded ((withFuel 20 .standard).execute code (.new .standard)) = true := by
    decide +kernel
  have hended := hasEnded_releasing .standard .standard hfreed
  have hsecond : second.compile = .ok _ := rfl
  cases hend : (disposing .releasing .standard 20).executeBy .releasing code (.new .standard) with
  | ok v m =>
    have hafter : After .standard .standard [first] m := .succeeded .new hcode (by decide) hend
    exact ⟨_, m, hsecond, hafter, hafter.execute hsecond (by decide) 20⟩
  | error stop m =>
    cases stop with
    | gaveUp =>
      rw [hend] at hended
      cases hended
    | failed f =>
      have hafter : After .standard .standard [first] m := .failed .new hcode (by decide) hend
      exact ⟨_, m, hsecond, hafter, hafter.execute hsecond (by decide) 20⟩

end rest
end ScriptVM
