import ScriptVM.Proofs.Passage.Still

/-!
# Tripwires

A tripwire stops the machine just before it does something, in a way that tells the stop from a
lack of fuel. Until then the machine does what the ordinary one does, so a run that comes to the
tripwire does what the tripwire is there to tell.
-/
namespace ScriptVM

/-- What the machine is not to do: to raise some values, and to make some calls. The calls that
call instructions make are let through. -/
structure Tripwire where
  raises : Value → Bool
  calls : Value → List Value → Machine → Bool

namespace Tripwire

open Run

variable (w : Tripwire) (digests : Digests)

/-- Raises a value. -/
def raise (v : Value) : Run Flow :=
  if w.raises v then throw (.gaveUp .tripwire) else fail (.raised v)

/-- Makes a call. -/
def call (callee : Value) (args : List Value) (x : Run Value) : Run Value := fun m =>
  if w.calls callee args m then .error (.gaveUp .tripwire) m else x m

variable {w} in
theorem call_of_hit {callee : Value} {args : List Value} {x : Run Value} {m : Machine}
    (h : w.calls callee args m = true) :
      w.call callee args x m = .error (.gaveUp .tripwire) m := if_pos h

variable {w} in
theorem call_of_not_hit {callee : Value} {args : List Value} {x : Run Value} {m : Machine}
    (h : ¬w.calls callee args m = true) : w.call callee args x m = x m := if_neg h

/-- The machine that makes its calls under the tripwire. -/
def guard (e : Engine) : Engine :=
  { e with call := fun callee args => w.call callee args (e.call callee args) }

/-- Executes an operation in a frame. -/
def step (e : Engine) (id : FrameId) (c : Cursor) : Op → Run Flow
  | .raise => do w.raise (← pop id)
  | .methodInvocation count => e.step id c (.methodInvocation count)
  | op => (w.guard e).step id c op

variable {w} in
theorem step_eq {e : Engine} {id : FrameId} {c : Cursor} {op : Op} (hraise : op ≠ .raise)
    (hcall : ∀ count, op ≠ .methodInvocation count) : w.step e id c op = (w.guard e).step id c op := by
  cases op with
  | raise => exact absurd rfl hraise
  | methodInvocation count => exact absurd rfl (hcall count)
  | _ => rfl

/-- Executes instructions of code in a frame, at most so many. -/
def dispatch (e : Engine) : Nat → FrameId → Cursor → Run Flow :=
  dispatchBy fun i id c => located i.span (w.step e id c i.op)

/-- Runs code in a frame until it ends or is left. -/
def run (e : Engine) (id : FrameId) (c : Cursor) : Run (Value × Cursor) := do
  (← w.dispatch e e.fuel id c).finish

/-- The machine with some fuel and a tripwire. -/
def engine : Nat → Engine
  | 0 => ⟨0, fun _ _ => giveUp, fun _ _ => giveUp, digests, false⟩
  | fuel + 1 =>
    ⟨fuel + 1, fun callee args => (w.guard (engine fuel)).callValue callee args,
      fun id c => activation id (w.run (engine fuel) id c), digests, false⟩

@[simp] theorem engine_fuel (fuel : Nat) : (w.engine digests fuel).fuel = fuel := by
  cases fuel <;> rfl

@[simp] theorem engine_tracks (fuel : Nat) : (w.engine digests fuel).tracks = false := by
  cases fuel <;> rfl

/-- No engine with a tripwire keeps track of what the machine holds on to. -/
theorem plain_guard (w' : Tripwire) (digests : Digests) (fuel : Nat) :
    Passage.Plain (w.guard (w.engine digests fuel)) (w'.guard (w'.engine digests fuel)) :=
  ⟨w.engine_tracks digests fuel, w'.engine_tracks digests fuel⟩

@[simp] theorem engine_digests (fuel : Nat) : (w.engine digests fuel).digests = digests := by
  cases fuel <;> rfl

/-- Executes code in the global frame from where the cursor stands. -/
def execute (fuel : Nat) (code : Cursor) : Run Value :=
  outermost fun id => w.run (w.engine digests fuel) id code

/-- Whether a computation came to a tripwire. -/
def tripped {α : Type} : Ending α → Bool
  | .error (.gaveUp why) _ => why = .tripwire
  | _ => false

/-- Code comes to the tripwire when it is executed. -/
def IsHit (fuel : Nat) (code : Cursor) (m : Machine) : Prop :=
  tripped (w.execute digests fuel code m) = true

/-! ## No tripwire -/

/-- The tripwire that lets everything through. -/
def slack : Tripwire := ⟨fun _ => false, fun _ _ _ => false⟩

theorem guard_slack (e : Engine) : slack.guard e = e := rfl

theorem step_slack (e : Engine) (id : FrameId) (c : Cursor) (op : Op) :
    slack.step e id c op = e.step id c op := by
  cases op <;> rfl

theorem dispatch_slack (e : Engine) (steps : Nat) (id : FrameId) (c : Cursor) :
    slack.dispatch e steps id c = e.dispatch steps id c := by
  rw [Engine.dispatch_eq]
  simp only [dispatch, step_slack]

theorem engine_slack (fuel : Nat) : slack.engine digests fuel = .withFuel fuel digests := by
  induction fuel with
  | zero => rfl
  | succ fuel ih =>
    unfold engine Engine.withFuel
    simp only [ih, guard_slack, run, dispatch_slack]
    rfl

theorem execute_slack (fuel : Nat) (code : Cursor) :
    slack.execute digests fuel code = (Engine.withFuel fuel digests).execute code := by
  unfold execute
  simp only [engine_slack, run, dispatch_slack]
  rfl

/-! ## Two tripwires -/

open Lasting (still)

variable {w w' : Tripwire} {excused : Cause → Prop} {oneWay : Prop} {digests : Digests}

/-- What has to hold of two tripwires for what runs under one to carry over to the other one. -/
structure Tolerates (digests : Digests) (w w' : Tripwire) (excused : Cause → Prop) (oneWay : Prop) :
    Prop where
  raise : ∀ v, (still excused oneWay).Carries (w.raise v) (w'.raise v) (Flow.rename id)
  call : ∀ (callee : Value) (args : List Value) {x y : Run Value},
    (still excused oneWay).Carries x y id →
      (still excused oneWay).Carries (w.call callee args x) (w'.call callee args y) id
  operation : ∀ fuel,
    (∀ callee args, (still excused oneWay).Carries ((w.guard (w.engine digests fuel)).call callee args)
      ((w'.guard (w'.engine digests fuel)).call callee args) id) →
    ∀ operator left right, (still excused oneWay).Carries
      ((w.guard (w.engine digests fuel)).operation operator left right)
      ((w'.guard (w'.engine digests fuel)).operation operator left right) id

/-- The calls of two engines carry over, under the tripwire and by call instructions, and so does the
code that they run. -/
structure Related (w w' : Tripwire) (excused : Cause → Prop) (oneWay : Prop) (e e' : Engine) :
    Prop where
  call : ∀ callee args, (still excused oneWay).Carries (e.call callee args) (e'.call callee args) id
  guarded : (still excused oneWay).Knot (w.guard e) (w'.guard e')

theorem Related.step {e e' : Engine} (T : Tolerates digests w w' excused oneWay)
    (R : Related w w' excused oneWay e e') (f : FrameId) (c : Cursor) (op : Op) :
    (still excused oneWay).Carries (w.step e f c op) (w'.step e' f c op) (Flow.rename id) := by
  have F := (Lasting.anything excused oneWay).frames
  by_cases hraise : op = .raise
  · subst hraise
    exact (F.pop f).bind fun v => T.raise v
  · by_cases hcall : ∃ count, op = .methodInvocation count
    · obtain ⟨count, rfl⟩ := hcall
      refine (F.pop f).bind fun callee => ?_
      refine (F.popMany f count).bind fun args => F.setLast_of f ?_ c
      rw [show args.map (still excused oneWay).value = args from List.map_id args]
      exact R.call callee args
    · have hne : ∀ count, op ≠ .methodInvocation count := fun count h => hcall ⟨count, h⟩
      rw [step_eq hraise hne, step_eq hraise hne]
      exact F.step_of_ne_raise R.guarded f c hraise

theorem Related.run {e e' : Engine} (T : Tolerates digests w w' excused oneWay)
    (R : Related w w' excused oneWay e e') (f : FrameId) (c : Cursor) :
    (still excused oneWay).Carries (w.run e f c) (w'.run e' f c) (still excused oneWay).ended := by
  have F := (Lasting.anything excused oneWay).frames
  have hdispatch : (still excused oneWay).Carries (w.dispatch e e.fuel f c)
      (w'.dispatch e' e.fuel f c) (Flow.rename id) :=
    F.dispatchBy (fun i f c => .located (Lasting.places _) i.span (R.step T f c i.op)) e.fuel f c
  have hfuel : e'.fuel = e.fuel := R.guarded.fuel_eq
  unfold Tripwire.run
  rw [hfuel]
  exact hdispatch.bind Passage.carries_finish

theorem Tolerates.related (T : Tolerates digests w w' excused oneWay) (fuel : Nat) :
    Related w w' excused oneWay (w.engine digests fuel) (w'.engine digests fuel) := by
  have build : ∀ fuel,
      (∀ callee args, (still excused oneWay).Carries ((w.engine digests fuel).call callee args)
        ((w'.engine digests fuel).call callee args) id) →
      (∀ f c, (still excused oneWay).Carries ((w.engine digests fuel).enter f c)
        ((w'.engine digests fuel).enter f c) (still excused oneWay).ended) →
      Related w w' excused oneWay (w.engine digests fuel) (w'.engine digests fuel) := by
    intro fuel hcall henter
    have hfuel : (w'.engine digests fuel).fuel = (w.engine digests fuel).fuel := by simp
    have hdigests : (w'.engine digests fuel).digests = (w.engine digests fuel).digests := by simp
    have hguard : ∀ callee args, (still excused oneWay).Carries
        ((w.guard (w.engine digests fuel)).call callee args)
        ((w'.guard (w'.engine digests fuel)).call callee args) id :=
      fun callee args => T.call callee args (hcall callee args)
    refine ⟨hcall, (Lasting.anything excused oneWay).frames.knot (fun _ _ _ => trivial)
      (Passage.Calling.calls ⟨plain_guard w w' digests fuel, hfuel, hdigests, fun callee args =>
        ?_, T.operation fuel hguard⟩
        fun _ => trivial) henter⟩
    rw [show args.map (still excused oneWay).value = args from List.map_id args]
    exact hguard callee args
  induction fuel with
  | zero => exact build 0 (fun _ _ => .giveUp) fun _ _ => .giveUp
  | succ fuel ih =>
    refine build (fuel + 1) (fun callee args => ?_) fun f c => ?_
    · exact Lasting.callValue ih.guarded callee args
    · exact (Lasting.anything excused oneWay).frames.activation f (ih.run T f c)

theorem Tolerates.execution (T : Tolerates digests w w' excused oneWay) (fuel : Nat) (code : Cursor) :
    (still excused oneWay).Carries (w.execute digests fuel code) (w'.execute digests fuel code) id := by
  refine Passage.carries_outermost (fun f => (T.related fuel).run T f code) ?_ ?_
  · rintro _ n ⟨rfl, -⟩
    rfl
  · rintro _ n ⟨rfl, -⟩
    exact ⟨rfl, trivial⟩

end Tripwire
end ScriptVM
