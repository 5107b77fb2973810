import Mathlib.Logic.Equiv.List
import ScriptVM.Proofs.Raise.Surfacing

/-!
# Where failures come up

A failure comes up without a place and takes one on its way out. To say where it came up, a second
machine keeps the places of the instructions that are being executed, innermost first: a step hands
the list on to the calls that it makes and to the bodies that it runs, and what executes instructions
there puts theirs in front. A failure that leaves a step without a tag has come up in that step, and
gets the whole list for a tag. Both machines do the same but for the places of failures, and the place
of a failure that surfaces is the first known one in its tag.
-/
namespace ScriptVM

/-- A place that stands for a list of places. -/
def Span.tag (running : List Span) : Span := .onLine (Encodable.encode (running.map Span.line))

theorem Span.tag_injective : Function.Injective Span.tag := by
  intro places places' h
  have hcode := Encodable.encode_injective (Option.some.inj (congrArg Span.line h))
  exact List.map_injective_iff.2 (fun _ _ => congrArg Span.mk) hcode

/-- The first known line of a list of places is the first one of its two parts. -/
theorem Span.orElse_findSome? (inner : List Span) (place : Span) :
    Span.orElse ⟨inner.findSome? Span.line⟩ place = ⟨(inner ++ [place]).findSome? Span.line⟩ := by
  rw [List.findSome?_append]
  cases hline : inner.findSome? Span.line with
  | some line => rfl
  | none =>
    obtain ⟨line⟩ := place
    cases line <;> rfl

/-! ## The machine that tags failures -/

namespace Tagging

open Run

/-- Executes instructions of code in a frame, at most so many, inside of others that are being
executed. -/
def dispatch (e : List Span → Engine) (outer : List Span) : Nat → FrameId → Cursor → Run Flow :=
  dispatchBy fun i id c =>
    located (.tag (i.span :: outer)) ((e (i.span :: outer)).step id c i.op)

/-- Runs code in a frame until it ends or is left. -/
def run (e : List Span → Engine) (outer : List Span) (id : FrameId) (c : Cursor) :
    Run (Value × Cursor) := do
  (← dispatch e outer (e outer).fuel id c).finish

/-- The machine with some fuel while some instructions are being executed. -/
def engine (digests : Digests) : Nat → List Span → Engine
  | 0, _ => ⟨0, fun _ _ => giveUp, fun _ _ => giveUp, digests, false⟩
  | fuel + 1, running =>
    ⟨fuel + 1, fun callee args => (engine digests fuel running).callValue callee args,
      fun id c => activation id (run (engine digests fuel) running id c), digests, false⟩

/-- Executes code in the global frame from where the cursor stands. -/
def execute (fuel : Nat) (digests : Digests) (code : Cursor) : Run Value :=
  outermost fun id => run (engine digests fuel) [] id code

variable {digests : Digests} {fuel : Nat} {running outer : List Span}

@[simp] theorem fuel_engine : (engine digests fuel running).fuel = fuel := by
  cases fuel <;> rfl

@[simp] theorem digests_engine : (engine digests fuel running).digests = digests := by
  cases fuel <;> rfl

/-! ## Failures and their tags -/

/-- Two failures from inside of instructions that are being executed, the second one tagged: both have
just come up, or they came up inside of more instructions and the first one has their first known
place. -/
inductive Tagged (outer : List Span) : Failure → Failure → Prop
  | fresh (c : Cause) : Tagged outer (.of c) (.of c)
  | tagged (c : Cause) {inner : List Span} (hinner : inner ≠ []) :
    Tagged outer ⟨c, ⟨inner.findSome? Span.line⟩⟩ ⟨c, .tag (inner ++ outer)⟩

/-- A failure that leaves an instruction is tagged. -/
theorem Tagged.placedAt {place : Span} {f g : Failure} (h : Tagged (place :: outer) f g) :
    Tagged outer (f.placedAt place) (g.placedAt (.tag (place :: outer))) := by
  cases h with
  | fresh c =>
    have hplace : (Failure.of c).placedAt place = ⟨c, ⟨[place].findSome? Span.line⟩⟩ :=
      congrArg (Failure.mk c) (Span.orElse_findSome? [] place)
    rw [hplace]
    exact .tagged c (List.cons_ne_nil place [])
  | @tagged c inner hinner =>
    have hplace : (⟨c, ⟨inner.findSome? Span.line⟩⟩ : Failure).placedAt place =
        ⟨c, ⟨(inner ++ [place]).findSome? Span.line⟩⟩ :=
      congrArg (Failure.mk c) (Span.orElse_findSome? inner place)
    have htag : (⟨c, .tag (inner ++ place :: outer)⟩ : Failure).placedAt (.tag (place :: outer)) =
        ⟨c, .tag ((inner ++ [place]) ++ outer)⟩ := by
      rw [List.append_assoc]
      rfl
    rw [hplace, htag]
    exact .tagged c (List.append_ne_nil_of_left_ne_nil hinner [place])

/-- The passage from the ordinary machine to the one that tags failures. -/
abbrev passage (outer : List Span) : Passage :=
  (Lasting.anything (fun _ => False) False).passageUpTo (Tagged outer) .fresh

theorem carries_located {α : Type} {x y : Run α} {r : α → α} (place : Span)
    (h : (passage (place :: outer)).Carries x y r) :
    (passage outer).Carries (located place x) (located (.tag (place :: outer)) y) r := by
  constructor
  · intro m
    rw [Passage.after_located]
    exact h.grows m
  · intro m n hmn _ _
    have hxy := h.holds m n hmn trivial trivial
    unfold located
    generalize x m = s at hxy
    generalize y n = t at hxy
    cases hxy with
    | ok a hmn' => exact .ok a hmn'
    | failed hfg hmn' => exact .failed (Tagged.placedAt hfg) hmn'
    | gaveUp m' n' hstop =>
      rcases hstop with rfl | ⟨-, -, -, hexcused⟩
      · exact .gaveUp m' n' (.inl rfl)
      · exact hexcused.elim
    | unsaid _ _ honeWay => exact honeWay.2.elim

/-! ## Both machines do the same -/

variable {e : Engine} {e' : List Span → Engine}

theorem carries_dispatch (h : ∀ running, (passage running).Knot e (e' running)) (steps : Nat)
    (f : FrameId) (c : Cursor) :
    (passage outer).Carries (e.dispatch steps f c) (dispatch e' outer steps f c) (Flow.rename id) := by
  have F : ∀ running, (passage running).Frames := fun _ => Lasting.frames_upTo _
  rw [Engine.dispatch_eq]
  refine (F outer).dispatchBy (fun i f c => ?_) steps f c
  exact carries_located i.span ((F (i.span :: outer)).step (h (i.span :: outer)) f c i.op)

theorem carries_run (h : ∀ running, (passage running).Knot e (e' running)) (f : FrameId)
    (c : Cursor) : (passage outer).Carries (e.run f c) (run e' outer f c) (passage outer).ended := by
  unfold Engine.run run
  rw [(h outer).fuel_eq]
  exact (carries_dispatch h e.fuel f c).bind Passage.carries_finish

theorem knot (digests : Digests) (fuel : Nat) (running : List Span) :
    (passage running).Knot (.withFuel fuel digests) (engine digests fuel running) := by
  have hstrict : ∀ why stop, (Lasting.anything (fun _ => False) False).excuses why stop →
      stop = .gaveUp why :=
    fun _ _ h => @Lasting.strict_of_not_excused (fun _ => False) False (fun _ => id) _ _ h
  induction fuel generalizing running with
  | zero => exact Lasting.knot_of_calls hstrict ⟨rfl, rfl⟩ rfl rfl (fun _ _ => .giveUp) fun _ _ =>
    .giveUp
  | succ fuel ih =>
    refine Lasting.knot_of_calls hstrict ⟨rfl, rfl⟩ rfl rfl (fun callee args => ?_) fun f c => ?_
    · exact Lasting.callValue (ih running) callee args
    · exact Lasting.carries_activation f (carries_run ih f c)

theorem carries_execute (fuel : Nat) (digests : Digests) (code : Cursor) :
    (passage []).Carries ((Engine.withFuel fuel digests).execute code)
      (execute fuel digests code) id := by
  refine Passage.carries_outermost (fun f => carries_run (knot digests fuel) f code) ?_ ?_
  · rintro _ n ⟨rfl, -⟩
    rfl
  · rintro _ n ⟨rfl, -⟩
    exact ⟨rfl, trivial⟩

/-! ## Failures that surface -/

/-- A failure that leaves code has left an instruction, and so it has a tag. -/
theorem span_of_dispatch {steps : Nat} {f : FrameId} {c : Cursor} {m m' : Machine} {g : Failure}
    (h : dispatch e' outer steps f c m = .error (.failed g) m') : g.span ≠ .unknown := by
  induction steps generalizing c m with
  | zero => cases h
  | succ steps ih =>
    unfold dispatch dispatchBy at h
    cases hnext : c.next? with
    | none =>
      rw [hnext] at h
      cases h
    | some next =>
      obtain ⟨i, after⟩ := next
      simp only [hnext, bind, EStateM.bind, trace, modify, modifyGet_apply, located] at h
      cases hstep : (e' (i.span :: outer)).step f after i.op
          (if m.config.trace then { m with log := ⟨m.depth, c.index, i⟩ :: m.log } else m) with
      | ok flow k =>
        rw [hstep] at h
        cases flow with
        | next c => exact ih h
        | leave v c => cases h
      | error stop k =>
        rw [hstep] at h
        cases stop with
        | gaveUp => cases h
        | failed f =>
          cases h
          obtain ⟨cause, ⟨line⟩⟩ := f
          cases line <;> rintro ⟨⟩

theorem span_of_execute {code : Cursor} {m m' : Machine} {g : Failure}
    (h : execute fuel digests code m = .error (.failed g) m') : g.span ≠ .unknown := by
  simp only [execute, outermost, run, bind, EStateM.bind] at h
  cases hrun : dispatch (engine digests fuel) [] (engine digests fuel []).fuel m.globals code m with
  | ok flow k =>
    rw [hrun] at h
    cases flow <;> cases h
  | error stop k =>
    rw [hrun] at h
    cases h
    exact span_of_dispatch hrun

theorem execute_of_failed {code : Cursor} {m m' : Machine} {f : Failure}
    (h : (Engine.withFuel fuel digests).execute code m = .error (.failed f) m') :
    ∃ running, running ≠ [] ∧ f.span.line = running.findSome? Span.line ∧
      execute fuel digests code m = .error (.failed ⟨f.cause, .tag running⟩) m' := by
  have hboth := (carries_execute fuel digests code).holds m m ⟨rfl, trivial⟩ trivial trivial
  rw [h] at hboth
  generalize hend : execute fuel digests code m = t at hboth
  cases hboth with
  | failed hfg hmn =>
    obtain ⟨rfl, -⟩ := hmn
    cases hfg with
    | fresh c => exact absurd rfl (span_of_execute hend)
    | @tagged c inner hinner =>
      rw [List.append_nil]
      exact ⟨inner, hinner, rfl, rfl⟩

end Tagging

/-- The place of a failure that surfaces is the first known one among the instructions that were being
executed when the failure came up, innermost first. A failure that an operator has swallowed before
it asked for its reflected symbol leaves no trace. -/
theorem Engine.execute_failed_place {fuel : Nat} {digests : Digests} {code : Cursor} {m m' : Machine}
    {f : Failure} (h : (withFuel fuel digests).execute code m = .error (.failed f) m') :
    (∃! running : List Span, running ≠ [] ∧
      Tagging.execute fuel digests code m = .error (.failed ⟨f.cause, .tag running⟩) m' ∧
      f.span.line = running.findSome? Span.line ∧
      (f.span = .unknown ↔ ∀ place ∈ running, place = .unknown)) ∧
    ∀ (e : Engine) (operator : BinaryOperator) (left right method : Value) (k k₁ k₂ : Machine)
      (g : Failure), Run.lookup left operator.forward.name k = .ok (some method) k₁ →
      e.call method [right] k₁ = .error (.failed g) k₂ →
      e.operation operator left right k = e.reflectedOperation operator left right k₂ := by
  refine ⟨?_, fun e operator left right method k k₁ k₂ g hlookup hfails =>
    operation_of_failed hlookup hfails⟩
  obtain ⟨running, hrunning, hline, htagged⟩ := Tagging.execute_of_failed h
  have hunknown : ∀ place : Span, place = .unknown ↔ place.line = none :=
    fun place => ⟨fun hplace => hplace ▸ rfl, congrArg Span.mk⟩
  refine ⟨running, ⟨hrunning, htagged, hline, ?_⟩, ?_⟩
  · rw [hunknown, hline, List.findSome?_eq_none_iff]
    simp only [hunknown]
  · rintro other ⟨-, hother, -⟩
    rw [htagged] at hother
    cases Span.tag_injective
      (congrArg Failure.span (Stop.failed.inj (EStateM.Result.error.inj hother).1))
    rfl

variable {digests : Digests}

/-- The left operand fails on line 2 and is forgotten; the right one fails where no line is known, so
the failure is placed on the line of the operator. -/
theorem Engine.execute_failed_place_reflected :
    ∃ fuel code m f m', (withFuel fuel .standard).execute code m = .error (.failed f) m' ∧
      f.span = .onLine 9 ∧ ∃! running : List Span, running ≠ [] ∧
        Tagging.execute fuel .standard code m = .error (.failed ⟨f.cause, .tag running⟩) m' ∧
        f.span.line = running.findSome? Span.line ∧
        (f.span = .unknown ↔ ∀ place ∈ running, place = .unknown) := by
  let program : Program := .ofBody [
    .classDef ⟨some 1⟩ "A" [] [
      .function ⟨some 1⟩ ⟨"Add", ["other"], [.raise ⟨some 2⟩ (.string ⟨some 2⟩ "left")]⟩],
    .classDef ⟨some 3⟩ "B" [] [
      .function ⟨some 3⟩ ⟨"RightAdd", ["other"], [.raise .unknown (.string .unknown "right")]⟩],
    .exit ⟨some 8⟩ [.binary ⟨some 9⟩ (.call ⟨some 8⟩ (.identifier ⟨some 8⟩ "A") []) .add
      (.call ⟨some 8⟩ (.identifier ⟨some 8⟩ "B") [])]]
  have hends : (program.compile.toOption.any fun code =>
      (failed? ((withFuel 20 .standard).execute code (.new .standard))).any fun r =>
        decide (r.1.span = .onLine 9)) = true := by
    decide +kernel
  obtain ⟨code, -, hends⟩ := (Option.any_eq_true _ _).1 hends
  obtain ⟨⟨f, m'⟩, hfailed, hspan⟩ := (Option.any_eq_true _ _).1 hends
  have hfailed := eq_error_of_failed? hfailed
  exact ⟨20, code, _, f, m', hfailed, of_decide_eq_true hspan, (execute_failed_place hfailed).1⟩

end ScriptVM
