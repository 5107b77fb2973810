import ScriptVM.Proofs.Code.Course

/-!
# Confinement of code to its view

A view that is cut from another one, at any place and of any length, holds a slice of the
instructions of that one, so a chain of cuts holds nested slices. A run stays in the view it was
started in: nothing outside is dispatched, a jump past the end ends the run, and a jump to before
the start fails. What code does therefore depends on the instructions of its view alone, and a
machine that copies these out of their buffer before every run is the same machine.

## Main definitions

* `ViewCall` — the ways to get from one cursor to another without running anything.
* `Cursor.within` — the same position in another view.
* `Engine.Passes` — the cursors and machines that a run comes by.
* `Engine.secluded` — the machine that runs nothing in the buffer of other code.

## Main results

* `Cursor.foldl_call` — chains of cuts are nested slices.
* `Engine.step_within` — a step depends on the instructions of the view alone.
* `Engine.Passes.confined` — what holds at every place of a run.
* `Engine.secluded_eq` — the code around a body makes no difference.
* `Engine.views_confined` — all of this together.
-/
namespace ScriptVM

open Run

/-! ## Slices -/

/-- A call on a cursor that cuts its view or moves in it. -/
inductive ViewCall where
  /-- The view of so many instructions from an offset on. -/
  | view (offset length : Nat)
  /-- The view of the next so many instructions. -/
  | body (length : Nat)
  /-- The place behind the next so many instructions. -/
  | past (length : Nat)
  /-- Any other place. -/
  | seek (index : Nat)

/-- What a call on a cursor gives. A new view is entered at its start. -/
def Cursor.call (c : Cursor) : ViewCall → Cursor
  | .view offset length => .ofView (c.sub offset length)
  | .body length => .ofView (c.take length).1
  | .past length => (c.take length).2
  | .seek index => { c with index := index }

/-- What the same call gives on a list of instructions and a position in it. -/
def sliceCall (place : List Instruction × Nat) : ViewCall → List Instruction × Nat
  | .view offset length => ((place.1.drop offset).take length, 0)
  | .body length => ((place.1.drop place.2).take length, 0)
  | .past length => (place.1, min (place.2 + length) place.1.length)
  | .seek index => (place.1, index)

/-- The bounds of a view that is cut from another one, in machine words. -/
def View.wordBounds (v : View) (offset length : Nat) : Nat × Nat :=
  let start := min (saturatingAdd v.start offset) v.stop
  (start, min (saturatingAdd start length) v.stop)

namespace Cursor

/-- A call on a cursor is the call on the instructions of its view. -/
theorem call_eq (c : Cursor) (call : ViewCall) :
    ((c.call call).instructions, (c.call call).index) =
      sliceCall (c.instructions, c.index) call := by
  cases call with
  | view offset length => exact Prod.ext (View.instructions_sub _ _ _) rfl
  | body length => exact Prod.ext (View.instructions_sub _ _ _) rfl
  | past length =>
    refine Prod.ext rfl ?_
    show min (c.index + length) c.length = min (c.index + length) c.instructions.length
    rw [View.length_instructions]
  | seek index => rfl

/-- A chain of calls cuts nested slices. -/
theorem foldl_call (c : Cursor) (calls : List ViewCall) :
    ((calls.foldl call c).instructions, (calls.foldl call c).index) =
      calls.foldl sliceCall (c.instructions, c.index) := by
  induction calls generalizing c with
  | nil => rfl
  | cons first rest ih => rw [List.foldl_cons, List.foldl_cons, ih, call_eq]

/-- No call leads out of the view. -/
theorem stop_call_le (c : Cursor) (call : ViewCall) :
    c.start ≤ (c.call call).start ∧ (c.call call).stop ≤ c.stop := by
  have hle := c.start_le_stop
  cases call with
  | view offset length =>
    simp only [Cursor.call, ofView, View.sub]
    omega
  | body length =>
    simp only [Cursor.call, ofView, take, View.sub]
    omega
  | past length => exact ⟨Nat.le_refl _, Nat.le_refl _⟩
  | seek index => exact ⟨Nat.le_refl _, Nat.le_refl _⟩

theorem stop_foldl_call_le (c : Cursor) (calls : List ViewCall) :
    c.start ≤ (calls.foldl call c).start ∧ (calls.foldl call c).stop ≤ c.stop := by
  induction calls generalizing c with
  | nil => exact ⟨Nat.le_refl _, Nat.le_refl _⟩
  | cons first rest ih =>
    have hfirst := c.stop_call_le first
    have hrest := ih (c.call first)
    exact ⟨Nat.le_trans hfirst.1 hrest.1, Nat.le_trans hrest.2 hfirst.2⟩

end Cursor

theorem min_saturatingAdd {a b stop : Nat} (hstop : stop ≤ Text.maxCount) :
    min (saturatingAdd a b) stop = min (a + b) stop := by
  rw [saturatingAdd]
  omega

/-- The bounds in machine words are the exact ones, in a buffer that a machine word can measure. -/
theorem View.wordBounds_eq {v : View} (hstop : v.stop ≤ Text.maxCount) (offset length : Nat) :
    v.wordBounds offset length = ((v.sub offset length).start, (v.sub offset length).stop) := by
  simp only [wordBounds, min_saturatingAdd hstop, View.sub]

/-! ## The same code in another view -/

/-- The same position in another view. -/
def Cursor.within (v : View) (c : Cursor) : Cursor := { toView := v, index := c.index }

/-- The same way to go on in another view. -/
def Flow.within (v : View) : Flow → Flow
  | .next c => .next (c.within v)
  | .leave value c => .leave value (c.within v)

/-- A run gives the image of what another one gives, and does the same. -/
def Run.Images {α β : Type} (r : α → β) (x : Run α) (y : Run β) : Prop := y = r <$> x

namespace Run.Images

variable {α β γ : Type} {r : α → β}

theorem pure (a : α) : Images r (Pure.pure a) (Pure.pure (r a)) := by
  rw [Images, map_pure]

theorem fail (cause : Cause) : Images r (Run.fail cause) (Run.fail cause) := rfl

theorem giveUp : Images r Run.giveUp Run.giveUp := rfl

/-- What comes first is the same. -/
theorem bind {x : Run γ} {f : γ → Run α} {g : γ → Run β} (h : ∀ a, Images r (f a) (g a)) :
    Images r (x >>= f) (x >>= g) := by
  rw [Images, map_bind]
  exact bind_congr h

/-- What comes first is two images of one run, and the rest makes one of the other. -/
theorem bind_images {δ ε : Type} {p : γ → δ} {q : γ → ε} {z : Run γ} {x : Run δ} {y : Run ε}
    {f : δ → Run α} {g : ε → Run β} (hx : Images p z x) (hy : Images q z y)
    (h : ∀ a, Images r (f (p a)) (g (q a))) : Images r (x >>= f) (y >>= g) := by
  rw [Images] at hx hy ⊢
  rw [hx, hy, bind_map_left, bind_map_left, map_bind]
  exact bind_congr h

theorem refl (x : Run α) : Images id x x := (id_map x).symm

/-- What comes first is an image, and the rest makes one of it. -/
theorem bind_image {δ : Type} {q : γ → δ} {x : Run γ} {y : Run δ} {f : γ → Run α} {g : δ → Run β}
    (hx : Images q x y) (h : ∀ a, Images r (f a) (g (q a))) : Images r (x >>= f) (y >>= g) :=
  bind_images (refl x) hx h

theorem located {x : Run α} {y : Run β} (span : Span) (h : Images r x y) :
    Images r (Run.located span x) (Run.located span y) := by
  rw [Images] at h
  funext m
  rw [h]
  simp only [Run.located, Functor.map, EStateM.map]
  cases x m with
  | ok a k => rfl
  | error stop k => cases stop <;> rfl

end Run.Images

namespace Cursor

variable {c : Cursor} {v : View}

@[simp] theorem index_within : (c.within v).index = c.index := rfl

theorem length_eq (hv : v.instructions = c.instructions) : v.length = c.length := by
  rw [← View.length_instructions, hv, View.length_instructions]

/-- The same instruction stands under the cursor. -/
theorem next?_within (hv : v.instructions = c.instructions) :
    (c.within v).next? = c.next?.map fun next => (next.1, next.2.within v) := by
  rw [next?_eq, next?_eq, Option.map_map]
  show (v.instructions[c.index]?).map _ = _
  rw [hv]
  rfl

/-- What is under a cursor lies in its view. -/
theorem inside_of_next? {i : Instruction} {after : Cursor} (h : c.next? = some (i, after)) :
    c.index < c.length ∧ c.instructions[c.index]? = some i ∧
      after = { c with index := c.index + 1 } := by
  rw [next?_eq, Option.map_eq_some_iff] at h
  obtain ⟨j, hj, hnext⟩ := h
  cases hnext
  have hlt := (List.getElem?_eq_some_iff.mp hj).1
  rw [View.length_instructions] at hlt
  exact ⟨hlt, hj, rfl⟩

/-- The same body is cut off. -/
theorem cut_within (hv : v.instructions = c.instructions) (n : Nat) :
    (c.within v).cut n = ((c.cut n).1, (c.cut n).2.within v) := by
  refine Prod.ext ?_ ?_
  · show (v.sub c.index n).detached = (c.toView.sub c.index n).detached
    rw [View.detached_eq, View.detached_eq, View.instructions_sub, View.instructions_sub, hv]
  · show Cursor.mk v (min (c.index + n) v.length) = Cursor.mk v (min (c.index + n) c.length)
    rw [length_eq hv]

theorem jumpBack?_within (offset : Nat) :
    (c.within v).jumpBack? offset = (c.jumpBack? offset).map (within v) := by
  unfold jumpBack?
  rw [index_within]
  split <;> rfl

end Cursor

namespace Engine

variable {e : Engine} {id : FrameId} {c : Cursor} {v : View}

theorem goBack_within (offset : Nat) :
    Images (Flow.within v) (goBack c offset) (goBack (c.within v) offset) := by
  unfold goBack
  rw [Cursor.jumpBack?_within]
  cases c.jumpBack? offset with
  | none => exact .fail _
  | some d => exact .pure (Flow.next d)

/-- What runs before the body goes on behind it. -/
theorem next_within (x : Run Unit) :
    Images (Flow.within v) (do x; return Flow.next c) (do x; return Flow.next (c.within v)) :=
  .bind fun _ => .pure (Flow.next c)

theorem nextAt_within {x y : Run Cursor} (h : Images (Cursor.within v) x y) :
    Images (Flow.within v) (do return Flow.next (← x)) (do return Flow.next (← y)) :=
  .bind_image h fun d => .pure (Flow.next d)

theorem newFunction_within (hv : v.instructions = c.instructions) (info : FunctionInfo) :
    Images (fun r => (r.1, r.2.within v)) (newFunction id c info)
      (newFunction id (c.within v) info) := by
  unfold newFunction
  rw [Cursor.cut_within hv]
  exact .bind fun _ => .bind fun f => .pure (f, (c.cut info.bodyLength).2)

theorem newMethod_within (hv : v.instructions = c.instructions) (info : FunctionInfo) :
    Images (Cursor.within v) (newMethod id c info) (newMethod id (c.within v) info) := by
  unfold newMethod
  rw [Cursor.cut_within hv]
  exact .bind fun _ => .bind fun _ => .bind fun _ => .bind fun _ => .pure (c.cut info.bodyLength).2

theorem newGenerator_within (hv : v.instructions = c.instructions) (info : GeneratorInfo) :
    Images (Cursor.within v) (e.newGenerator id c info) (e.newGenerator id (c.within v) info) := by
  unfold newGenerator
  rw [Cursor.cut_within hv]
  exact .bind fun _ => .bind fun _ => .bind fun _ => .bind fun _ =>
    .pure (c.cut info.operationLength).2

theorem newClass_within (hv : v.instructions = c.instructions) (info : ClassInfo) :
    Images (Cursor.within v) (newClass id c info) (newClass id (c.within v) info) := by
  unfold newClass
  rw [Cursor.cut_within hv]
  exact .bind fun _ => .bind fun _ => .bind fun _ => .bind fun _ => .bind fun _ => .bind fun _ =>
    .pure (c.cut info.bodyLength).2

theorem newModule_within (hv : v.instructions = c.instructions) (info : ClassInfo) :
    Images (Cursor.within v) (e.newModule id c info) (e.newModule id (c.within v) info) := by
  unfold newModule
  rw [Cursor.cut_within hv]
  exact .bind fun _ => .bind fun _ => .bind fun _ => .bind fun _ => .pure (c.cut info.bodyLength).2

/-- A step depends on the instructions of the view alone: in another view that has the same ones it
does the same, makes the same and leads to the same position. -/
theorem step_within (hv : v.instructions = c.instructions) (op : Op) :
    Images (Flow.within v) (e.step id c op) (e.step id (c.within v) op) := by
  cases op with
  | newString | newBytes | newInteger | newFloat | getTrue | getFalse | getNone | loadArguments =>
    exact next_within _
  | newTuple | newArray | assignIdentifier => exact .bind fun _ => next_within _
  | newHash | unary | assignSelector => exact .bind fun _ => .bind fun _ => next_within _
  | binary | index | methodInvocation =>
    exact .bind fun _ => .bind fun _ => .bind fun _ => next_within _
  | assignIndex => exact .bind fun _ => .bind fun _ => .bind fun _ => next_within _
  | push =>
    refine .bind fun r => ?_
    cases r with
    | some value => exact next_within _
    | none => exact .bind fun _ => next_within _
  | getIdentifier name =>
    refine .bind fun r => ?_
    cases r with
    | some value => exact next_within _
    | none => exact .bind fun _ => .pure (Flow.next c)
  | selectName name =>
    refine .bind fun source => .bind fun r => ?_
    cases r with
    | some value => exact next_within _
    | none => exact .bind fun _ => .bind fun _ => .pure (Flow.next c)
  | nop => exact .pure (Flow.next c)
  | jump offset => exact .pure (Flow.next (c.jump offset))
  | jumpBack offset => exact goBack_within offset
  | ifJump offset =>
    refine .bind fun b => ?_
    cases b with
    | true => exact .pure (Flow.next c)
    | false => exact .pure (Flow.next (c.jump offset))
  | unlessJump offset =>
    refine .bind fun b => ?_
    cases b with
    | true => exact .pure (Flow.next (c.jump offset))
    | false => exact .pure (Flow.next c)
  | ifJumpBack offset =>
    refine .bind fun b => ?_
    cases b with
    | true => exact .pure (Flow.next c)
    | false => exact goBack_within offset
  | unlessJumpBack offset =>
    refine .bind fun b => ?_
    cases b with
    | true => exact goBack_within offset
    | false => exact .pure (Flow.next c)
  | redoMark | continueMark | breakMark => exact .fail _
  | newFunction info =>
    refine .bind_image (newFunction_within hv info) fun r => ?_
    cases info.name with
    | some name => exact .bind fun _ => .bind fun _ => .pure (Flow.next r.2)
    | none => exact .bind fun _ => .pure (Flow.next r.2)
  | newLambda info =>
    exact .bind_image (newFunction_within hv info) fun r => .bind fun _ => .pure (Flow.next r.2)
  | newMethod info => exact nextAt_within (newMethod_within hv info)
  | newGenerator info => exact nextAt_within (newGenerator_within hv info)
  | newClass info | newInterface info => exact nextAt_within (newClass_within hv info)
  | newModule info => exact nextAt_within (newModule_within hv info)
  | exit count => exact .bind fun _ => .bind fun value => .pure (Flow.leave value c)
  | raise => exact .bind fun _ => .fail _

/-! ## Runs in another view -/

/-- A step stays in its view. -/
theorem step_images (e : Engine) (id : FrameId) (c : Cursor) (op : Op) :
    Images (Flow.within c.toView) (e.step id c op) (e.step id c op) :=
  step_within (c := c) rfl op

/-- A run depends on the instructions of the view alone. -/
theorem dispatch_within (hv : v.instructions = c.instructions) (steps : Nat) :
    Images (Flow.within v) (e.dispatch steps id c) (e.dispatch steps id (c.within v)) := by
  induction steps generalizing c with
  | zero => exact .giveUp
  | succ steps ih =>
    unfold dispatch
    rw [Cursor.next?_within hv]
    cases hnext : c.next? with
    | none => exact .pure (Flow.next c)
    | some next =>
      obtain ⟨i, after⟩ := next
      have hafter : after.toView = c.toView := by rw [(Cursor.inside_of_next? hnext).2.2]
      have hcode : v.instructions = after.instructions := by rw [hv, hafter]
      have hstay := step_images e id after i.op
      have hmove : Images (Flow.within v) (e.step id after i.op) (e.step id (after.within v) i.op) :=
        step_within hcode i.op
      refine .bind fun _ => .bind_images (hstay.located i.span) (hmove.located i.span) fun flow => ?_
      cases flow with
      | next d => exact ih (c := d.within after.toView) hcode
      | leave value d => exact .pure (Flow.leave value _)

theorem finish_within (flow : Flow) :
    Images (fun r => (r.1, r.2.within v)) flow.finish (flow.within v).finish := by
  cases flow with
  | next c => exact .bind fun value => .pure (value, c)
  | leave value c => exact .pure (value, c)

theorem run_within (hv : v.instructions = c.instructions) :
    Images (fun r => (r.1, r.2.within v)) (e.run id c) (e.run id (c.within v)) :=
  .bind_image (dispatch_within hv e.fuel) finish_within

/-- A body does in the buffer of its definition what it does as code of its own. -/
theorem run_take (c : Cursor) (length : Nat) :
    Images (fun r => (r.1, r.2.within (c.take length).1)) (e.run id (.ofView (c.cut length).1))
      (e.run id (.ofView (c.take length).1)) := by
  refine run_within (c := .ofView (c.cut length).1) ?_
  show (c.take length).1.instructions = (c.take length).1.detached.instructions
  rw [View.detached_eq, View.instructions_ofList]

/-- A run on a copy of the instructions of its view. It tells where it stood in the view itself. -/
def runAlone (e : Engine) (id : FrameId) (c : Cursor) : Run (Value × Cursor) :=
  (fun r => (r.1, r.2.within c.toView)) <$> e.run id (c.within (View.ofList c.instructions))

/-- A run on a copy is the run in the buffer, whatever stands around the view there. -/
theorem runAlone_eq (e : Engine) (id : FrameId) (c : Cursor) : e.runAlone id c = e.run id c := by
  have hcopy : c.instructions = (View.ofList c.instructions).instructions :=
    (View.instructions_ofList _).symm
  have hback : e.run id c = e.runAlone id c :=
    run_within (c := c.within (View.ofList c.instructions)) hcopy
  exact hback.symm

/-- The machine with some fuel that copies the instructions of every body before it runs it. -/
def secluded (fuel : Nat) (d : Digests) : Engine :=
  match fuel with
  | 0 => ⟨0, fun _ _ => Run.giveUp, fun _ _ => Run.giveUp, d, false⟩
  | fuel + 1 =>
    ⟨fuel + 1, fun callee args => (secluded fuel d).callValue callee args,
      fun id c => activation id ((secluded fuel d).runAlone id c), d, false⟩

/-- However deep bodies are nested in each other, the code around them makes no difference. -/
theorem secluded_eq (fuel : Nat) (d : Digests) : secluded fuel d = withFuel fuel d := by
  induction fuel with
  | zero => rfl
  | succ fuel ih =>
    have halone : (withFuel fuel d).runAlone = (withFuel fuel d).run := by
      funext id c
      exact runAlone_eq _ id c
    rw [secluded, withFuel, ih, halone]

/-! ## Jumps -/

/-- A jump is taken: it goes back or forward by an offset, after its condition was popped. -/
inductive Jumps (e : Engine) (id : FrameId) : Op → Bool → Nat → Machine → Machine → Prop where
  | jump (n : Nat) (m : Machine) : Jumps e id (.jump n) false n m m
  | jumpBack (n : Nat) (m : Machine) : Jumps e id (.jumpBack n) true n m m
  | ifJump (n : Nat) {m m' : Machine} (h : e.popCondition id m = .ok false m') :
      Jumps e id (.ifJump n) false n m m'
  | unlessJump (n : Nat) {m m' : Machine} (h : e.popCondition id m = .ok true m') :
      Jumps e id (.unlessJump n) false n m m'
  | ifJumpBack (n : Nat) {m m' : Machine} (h : e.popCondition id m = .ok false m') :
      Jumps e id (.ifJumpBack n) true n m m'
  | unlessJumpBack (n : Nat) {m m' : Machine} (h : e.popCondition id m = .ok true m') :
      Jumps e id (.unlessJumpBack n) true n m m'

section jumps

variable {op : Op} {n : Nat} {m m' : Machine}

theorem step_of_jumps (h : e.Jumps id op false n m m') :
    e.step id c op m = .ok (.next (c.jump n)) m' := by
  cases h with
  | jump => rfl
  | ifJump n h =>
    simp only [step, bind, EStateM.bind, h, pure, EStateM.pure, Bool.false_eq_true, if_false]
  | unlessJump n h => simp only [step, bind, EStateM.bind, h, pure, EStateM.pure, if_true]

theorem step_of_jumps_back (h : e.Jumps id op true n m m') :
    e.step id c op m = goBack c n m' := by
  cases h with
  | jumpBack => rfl
  | ifJumpBack n h => simp only [step, bind, EStateM.bind, h, Bool.false_eq_true, if_false]
  | unlessJumpBack n h => simp only [step, bind, EStateM.bind, h, if_true]

end jumps

/-! ## The places of a run -/

/-- The cursors and machines that a run comes by, one instruction after the other. -/
inductive Passes (e : Engine) (id : FrameId) (c : Cursor) (m : Machine) :
    Cursor → Machine → Prop where
  | start : Passes e id c m c m
  | step {c' after d : Cursor} {m' m'' : Machine} {i : Instruction} (hpass : Passes e id c m c' m')
      (hnext : c'.next? = some (i, after))
      (hstep : e.step id after i.op (m'.traced c'.index i) = .ok (.next d) m'') :
      Passes e id c m d m''

section passes

variable {m m' m'' : Machine} {c' d : Cursor} {op : Op}

/-- A step that goes on stays in its view. -/
theorem toView_of_step (h : e.step id c op m = .ok (.next d) m') : d.toView = c.toView := by
  have hstay := congrFun (step_images e id c op) m
  simp only [Functor.map, EStateM.map, h] at hstay
  have hsame : Flow.next d = Flow.next (d.within c.toView) := (EStateM.Result.ok.inj hstay).1
  have hcursor : d = d.within c.toView := Flow.next.inj hsame
  exact (congrArg Cursor.toView hcursor :)

/-- A run stays in its view. -/
theorem Passes.toView (h : e.Passes id c m c' m') : c'.toView = c.toView := by
  induction h with
  | start => rfl
  | step _ hnext hstep ih => rw [toView_of_step hstep, (Cursor.inside_of_next? hnext).2.2, ih]

theorem Passes.leads (h : e.Passes id c m c' m') : e.Leads id c m c' m' := by
  induction h with
  | start => exact .refl
  | step _ hnext hstep ih => exact ih.trans (leads_of_step hnext hstep)

theorem Passes.trans (h : e.Passes id c m c' m') (h' : e.Passes id c' m' d m'') :
    e.Passes id c m d m'' := by
  induction h' with
  | start => exact h
  | step _ hnext hstep ih => exact .step ih hnext hstep

/-- A run that ends, ends at a place that it comes by, with one instruction more at the most. -/
theorem exists_passes_of_dispatch {steps : Nat} (h : hasEnded (e.dispatch steps id c m) = true) :
    ∃ c' m', e.Passes id c m c' m' ∧ e.dispatch steps id c m = e.dispatch 1 id c' m' := by
  induction steps generalizing c m with
  | zero => cases h
  | succ steps ih =>
    cases hnext : c.next? with
    | none => exact ⟨c, m, .start, by rw [dispatch_end hnext, dispatch_end hnext]⟩
    | some next =>
      obtain ⟨i, after⟩ := next
      cases hstep : e.step id after i.op (m.traced c.index i) with
      | ok flow m₁ =>
        cases flow with
        | next d =>
          have hgoes : e.dispatch (steps + 1) id c m = e.dispatch steps id d m₁ := by
            simp only [dispatch_next hnext, located, hstep]
          rw [hgoes] at h ⊢
          obtain ⟨c', m', hpass, hends⟩ := ih h
          exact ⟨c', m', Passes.trans (.step .start hnext hstep) hpass, hends⟩
        | leave value d =>
          refine ⟨c, m, .start, ?_⟩
          rw [dispatch_next hnext, dispatch_next hnext]
          simp only [located, hstep]
      | error stop m₁ =>
        refine ⟨c, m, .start, ?_⟩
        rw [dispatch_next hnext, dispatch_next hnext]
        cases stop <;> simp only [located, hstep]

/-- What holds at a place of a run that was started at a cursor: the view is still the one that was
started in, what is dispatched lies in it, and no jump leads out of it. -/
structure Confined (e : Engine) (id : FrameId) (c c' : Cursor) (m' : Machine) : Prop where
  view : c'.toView = c.toView
  /-- The instruction under the cursor is one of the view's. -/
  inside : ∀ i after, c'.next? = some (i, after) →
    c'.index < c.length ∧ c.instructions[c'.index]? = some i ∧
      after = { c with index := c'.index + 1 }
  /-- Behind the end, the run has ended. -/
  outside : c.length ≤ c'.index → e.Ends id c' m' (.ok (.next c') m')
  /-- A jump to behind the end ends the run. -/
  forward : ∀ i after n m'', c'.next? = some (i, after) →
    e.Jumps id i.op false n (m'.traced c'.index i) m'' → c.length ≤ after.index + n →
    e.Ends id c' m' (.ok (.next (after.jump n)) m'')
  /-- A jump to before the start fails at its instruction and gives no other cursor. -/
  backward : ∀ i after n m'', c'.next? = some (i, after) →
    e.Jumps id i.op true n (m'.traced c'.index i) m'' → after.index < n →
    after.jumpBack? n = none ∧
      e.Ends id c' m' (.error (.failed ((Failure.of .jumpOutOfRange).placedAt i.span)) m'')

/-- A run is confined to its view at every place that it comes by, in a buffer that a machine word
can measure. -/
theorem Passes.confined (hlength : c.length ≤ Text.maxCount) (h : e.Passes id c m c' m') :
    e.Confined id c c' m' where
  view := h.toView
  inside i after hnext := by
    have hinside := Cursor.inside_of_next? hnext
    rwa [h.toView] at hinside
  outside hend := by
    refine ends_of_end ((Cursor.next?_eq_none_iff c').mpr ?_)
    rw [h.toView]
    exact hend
  forward i after n m'' hnext hjump hend := by
    refine (leads_of_step hnext (step_of_jumps hjump)).ends (ends_of_end ?_)
    have hafter : after.toView = c.toView := by
      rw [(Cursor.inside_of_next? hnext).2.2, h.toView]
    rw [Cursor.next?_eq_none_iff, Cursor.toView_jump, hafter]
    show c.length ≤ min (after.index + n) Text.maxCount
    omega
  backward i after n m'' hnext hjump hstart := by
    have hnone := (Cursor.jumpBack?_eq_none_iff after n).mpr hstart
    refine ⟨hnone, ends_of_failure hnext ?_⟩
    rw [step_of_jumps_back hjump, goBack, hnone]
    rfl

end passes

/-- Views stay inside their code. Chains of cuts hold nested slices of the list they start from and
lie inside each other, with bounds that machine words compute exactly. A run comes only by places at
which it is confined to its view, and ends at one of them. What it does depends on the instructions
of the view alone, so the machine may as well copy these before each run. -/
theorem views_confined :
    (∀ (code : List Instruction) (calls : List ViewCall),
      let c := calls.foldl Cursor.call (Cursor.ofList code)
      (c.instructions, c.index) = calls.foldl sliceCall (code, 0)) ∧
    (∀ (c : Cursor) (calls : List ViewCall),
      c.start ≤ (calls.foldl Cursor.call c).start ∧ (calls.foldl Cursor.call c).stop ≤ c.stop) ∧
    (∀ c : Cursor, c.stop ≤ Text.maxCount → ∀ offset length,
      c.toView.wordBounds offset length =
        ((c.sub offset length).start, (c.sub offset length).stop) ∧
      (c.take length).1 = c.sub c.index length ∧
      (c.take length).2.index = min (saturatingAdd c.index length) c.length ∧
      (c.hasNext = true → c.start + c.index + 1 ≤ c.stop)) ∧
    (∀ (e : Engine) (id : FrameId) (c c' : Cursor) (m m' : Machine), c.length ≤ Text.maxCount →
      e.Passes id c m c' m' → e.Leads id c m c' m' ∧ e.Confined id c c' m') ∧
    (∀ (e : Engine) (id : FrameId) (c : Cursor) (m : Machine) (steps : Nat),
      hasEnded (e.dispatch steps id c m) = true →
        ∃ c' m', e.Passes id c m c' m' ∧ e.dispatch steps id c m = e.dispatch 1 id c' m') ∧
    (∀ (e : Engine) (id : FrameId) (c : Cursor) (v : View), v.instructions = c.instructions →
      e.run id (c.within v) = (fun r => (r.1, r.2.within v)) <$> e.run id c) ∧
    (∀ (e : Engine) (id : FrameId) (c : Cursor) (length : Nat),
      e.run id (.ofView (c.take length).1) = (fun r => (r.1, r.2.within (c.take length).1)) <$>
        e.run id (.ofView (c.cut length).1)) ∧
    (∀ (fuel : Nat) (d : Digests), secluded fuel d = withFuel fuel d) := by
  refine ⟨fun code calls => ?_, Cursor.stop_foldl_call_le, fun c hstop offset length =>
    ⟨View.wordBounds_eq hstop offset length, rfl, ?_, fun hnext => ?_⟩,
    fun e id c c' m m' hlength hpass => ⟨hpass.leads, hpass.confined hlength⟩,
    fun e id c m steps hended => exists_passes_of_dispatch hended, fun e id c v hv => run_within hv,
    fun e id c length => run_take c length, secluded_eq⟩
  · have hcode : (Cursor.ofList code).instructions = code := View.instructions_ofList code
    have hslices := Cursor.foldl_call (Cursor.ofList code) calls
    rwa [hcode] at hslices
  · have hlength : c.length ≤ Text.maxCount := Nat.le_trans (Nat.sub_le _ _) hstop
    exact (min_saturatingAdd hlength).symm
  · have hinside : c.index < c.length := by simpa [Cursor.hasNext] using hnext
    rw [View.length] at hinside
    omega

/-- A body that is cut with too large a length, jumps back in front of itself and forward behind its
end: it is cut off at the end of the code, and neither jump leads out of it. -/
theorem views_confined_malformed :
    let code : List Instruction :=
      [⟨.nop, some 1⟩, ⟨.jumpBack 2, some 2⟩, ⟨.jump Text.maxCount, some 3⟩]
    let body := [ViewCall.seek 1, .body Text.maxCount].foldl Cursor.call (Cursor.ofList code)
    let m : Machine := default
    body.instructions = code.drop 1 ∧ body.toView.wordBounds 1 Text.maxCount = (2, 3) ∧
      (∃ m', (withFuel 1 .standard).Ends ⟨0⟩ body m
        (.error (.failed ((Failure.of .jumpOutOfRange).placedAt ⟨some 2⟩)) m')) ∧
      (∃ c' m', (withFuel 1 .standard).Ends ⟨0⟩ { body with index := 1 } m (.ok (.next c') m')) ∧
      (∃ c' m', (withFuel 2 .standard).Passes ⟨0⟩ { body with index := 1 } m c' m' ∧
        (withFuel 2 .standard).dispatch 2 ⟨0⟩ { body with index := 1 } m =
          (withFuel 2 .standard).dispatch 1 ⟨0⟩ c' m') ∧
      (withFuel 1 .standard).run ⟨0⟩ (body.within (View.ofList (code.drop 1))) =
        (fun r => (r.1, r.2.within (View.ofList (code.drop 1)))) <$> (withFuel 1 .standard).run
          ⟨0⟩ body := by
  intro code body m
  obtain ⟨hslices, -, hwords, hplaces, hends, hruns, -, -⟩ := views_confined
  have hbody : body.instructions = code.drop 1 :=
    congrArg Prod.fst (hslices code [.seek 1, .body Text.maxCount])
  have hlength : body.length ≤ Text.maxCount := by decide
  have hstop : body.stop ≤ Text.maxCount := by decide
  have hback := (hplaces (withFuel 1 .standard) ⟨0⟩ body body m m hlength .start).2.backward
    ⟨.jumpBack 2, some 2⟩ _ 2 _ rfl (.jumpBack 2 _) (by decide)
  have hforward :=
    (hplaces (withFuel 1 .standard) ⟨0⟩ { body with index := 1 } { body with index := 1 } m m
    hlength .start).2.forward ⟨.jump Text.maxCount, some 3⟩ _ Text.maxCount _ rfl
    (.jump Text.maxCount _) (by decide)
  exact ⟨hbody, (hwords body hstop 1 Text.maxCount).1, ⟨_, hback.2⟩, ⟨_, _, hforward⟩,
    hends (withFuel 2 .standard) ⟨0⟩ { body with index := 1 } m 2 (by decide),
    hruns (withFuel 1 .standard) ⟨0⟩ body _ (by rw [hbody, View.instructions_ofList])⟩

end Engine
end ScriptVM
