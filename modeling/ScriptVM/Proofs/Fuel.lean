import ScriptVM.Proofs.Code.Course
import ScriptVM.Proofs.Likeness.Steady

/-!
# Fuel

A computation that has come to an end of its own comes to the very same end with more fuel. The
sparing machine gives up when it is to activate a certain frame; what it ends with is what the
ordinary machine ends with.
-/
namespace ScriptVM

/-- The machine with some fuel that gives up when it is to activate the spared frame. -/
def Engine.sparing (spared : Option FrameId) (digests : Digests) : Nat → Engine
  | 0 => ⟨0, fun _ _ => Run.giveUp, fun _ _ => Run.giveUp, digests, false⟩
  | fuel + 1 =>
    ⟨fuel + 1, fun callee args => (sparing spared digests fuel).callValue callee args,
      fun id c =>
        if spared = some id then Run.giveUp
        else Run.activation id ((sparing spared digests fuel).run id c), digests, false⟩

variable {digests : Digests}

@[simp] theorem Engine.digests_sparing (spared : Option FrameId) (fuel : Nat) :
    (sparing spared digests fuel).digests = digests := by
  cases fuel <;> rfl

@[simp] theorem Engine.tracks_sparing (spared : Option FrameId) (fuel : Nat) :
    (sparing spared digests fuel).tracks = false := by
  cases fuel <;> rfl

/-- A machine that spares no frame is the ordinary one. -/
theorem Engine.sparing_none (fuel : Nat) : sparing none digests fuel = withFuel fuel digests := by
  induction fuel with
  | zero => rfl
  | succ fuel ih => simp [sparing, withFuel, ih]

namespace Likeness

/-- Machines in the same state. -/
def same : Likeness where
  World := Unit
  le _ _ := True
  refl _ := trivial
  trans _ _ := trivial
  good _ := True
  function _ _ := True
  classDef _ _ := True
  generator _ _ := True
  function_mono _ h := h
  classDef_mono _ h := h
  generator_mono _ h := h
  generator_exhaust h := h
  generator_buffer _ h := h
  table _ := True
  table_empty := trivial
  table_put _ _ _ _ h := h
  admits _ := True
  admits_ordinary _ := trivial
  rest _ m n := n = m
  rest_heap := by
    rintro _ m n h - rfl
    rfl

theorem alike_same (m : Machine) : same.Alike () m m where
  heap := rfl
  types := rfl
  sound _ _ := .of_good (fun _ => trivial) (fun _ => trivial) (fun _ => trivial)
    (fun _ _ => trivial) fun _ _ => trivial
  fresh _ _ := trivial
  goodTypes _ _ _ := trivial
  rest := rfl

section same

variable {α : Type} {x y : Run α} {w : Unit} {p : Unit → α → Prop}

/-- In the same state, every computation agrees with itself. -/
theorem agree_same (hp : ∀ a, p () a) : same.Agree w x x p := by
  intro m n h
  cases h.rest
  generalize x m = r
  match r with
  | .ok a m' => exact ⟨rfl, (), trivial, hp a, alike_same m'⟩
  | .error (.gaveUp _) m' => trivial
  | .error (.failed f) m' => exact ⟨rfl, trivial, (), trivial, alike_same m'⟩

/-- To agree in the same state is to end in the same way. -/
theorem eq_of_agree_same (h : same.Agree () x y p) {m : Machine} (hend : hasEnded (x m) = true) :
    y m = x m := by
  cases hx : x m with
  | ok a m' =>
    obtain ⟨n', _, hy, -, -, halike⟩ := h.ok (alike_same m) hx
    rw [hy, halike.rest]
  | error stop m' =>
    cases stop with
    | gaveUp =>
      rw [hx] at hend
      cases hend
    | failed f =>
      obtain ⟨n', _, hy, -, -, halike⟩ := h.failed (alike_same m) hx
      rw [hy, halike.rest]

theorem ok_of_agree_same (h : same.Agree () x y p) {m m' : Machine} {a : α} (hx : x m = .ok a m') :
    y m = .ok a m' :=
  (eq_of_agree_same h (by rw [hx]; rfl)).trans hx

/-- Nothing about frames is special to machines in the same state. -/
def sameFrames : Frames same where
  runs _ _ := True
  scope _ _ := True
  runs_mono _ h := h
  scope_of_function _ := trivial
  function_of_scope _ := trivial
  scope_of_classDef _ := trivial
  classDef_of_scope _ := trivial
  generator_of_scope _ _ := trivial
  generator_suspend _ _ := trivial
  admits_frame _ := trivial
  define _ _ _ _ := agree_same fun _ => trivial
  push _ _ := agree_same fun _ => trivial
  pop _ := agree_same fun _ => trivial
  popMany _ _ := agree_same fun _ _ _ => trivial
  top _ := agree_same fun _ => trivial
  last _ := agree_same fun _ _ _ => trivial
  setLast _ _ := agree_same fun _ => trivial
  assign _ _ _ _ := agree_same fun _ => trivial
  resolve _ _ := agree_same fun _ _ _ => trivial
  retain _ := agree_same fun _ => trivial
  retainMethodScope _ := agree_same fun _ => trivial
  trace _ _ := agree_same fun _ => trivial

theorem agree_activation_same {id : FrameId} (h : same.Agree w x y fun _ _ => True) :
    same.Agree w (Run.activation id x) (Run.activation id y) fun _ _ => True := by
  intro m n hmn
  cases hmn.rest
  refine Matches.activation rfl rfl trivial (alike_same _) (fun _ => h _ _ (alike_same _)) ?_
  intro w' k l _ halike
  cases halike.rest
  exact ⟨(), trivial, fun _ _ => trivial, alike_same _⟩

variable {e e' : Engine}

/-- Engines that run code alike run bodies in frames of their own alike. -/
theorem agree_runIn_same (hplain : e.tracks = false ∧ e'.tracks = false)
    (henter : ∀ id c, same.Agree () (e.enter id c) (e'.enter id c) fun _ _ => True)
    (scope : FrameId) (object : Option Value) (bindsObject : Bool) (self : Value)
    (operands : List Value) (body : View) :
    same.Agree w (e.runIn scope object bindsObject self operands body)
      (e'.runIn scope object bindsObject self operands body) fun _ _ => True := by
  rw [Engine.runIn_of_plain hplain.1, Engine.runIn_of_plain hplain.2]
  refine (agree_same (p := fun _ _ => True) fun _ => trivial).bind fun _ id _ _ => ?_
  refine (agree_same (p := fun _ _ => True) fun _ => trivial).bind fun _ _ _ _ => ?_
  refine (agree_same (p := fun _ _ => True) fun _ => trivial).bind fun _ _ _ _ => ?_
  exact (henter id _).bind fun _ _ _ _ => .pure trivial

theorem agree_runOperation_same (hplain : e.tracks = false ∧ e'.tracks = false)
    (henter : ∀ id c, same.Agree () (e.enter id c) (e'.enter id c) fun _ _ => True) (g : Value)
    (state : Generator) (values : List Value) :
    same.Agree w (e.runOperation g state values) (e'.runOperation g state values)
      fun _ _ => True := by
  unfold Engine.runOperation
  rw [Engine.generatorFrame_of_plain hplain.1, Engine.generatorFrame_of_plain hplain.2]
  refine (agree_same (p := fun _ _ => True) fun _ => trivial).bind fun _ id _ _ => ?_
  refine (agree_same (p := fun _ _ => True) fun _ => trivial).bind fun _ _ _ _ => ?_
  exact henter id _

theorem same_knot {fuel fuel' : Nat} (hfuel : fuel ≤ fuel') {spared spared' : Option FrameId}
    (hspared : spared' = spared ∨ spared' = none) :
    Knot sameFrames (.sparing spared digests fuel) (.sparing spared' digests fuel') := by
  induction fuel generalizing fuel' with
  | zero =>
    have hplain : (Engine.sparing spared digests 0).tracks = false ∧
        (Engine.sparing spared' digests fuel').tracks = false :=
      ⟨rfl, Engine.tracks_sparing spared' fuel'⟩
    refine ⟨⟨Nat.zero_le _, by simp, hplain, fun _ _ => .giveUp⟩, ?_, ?_⟩
    · exact fun _ _ _ _ _ _ _ _ => agree_runIn_same hplain (fun _ _ => .giveUp) _ _ _ _ _ _
    · exact fun _ _ _ => agree_runOperation_same hplain (fun _ _ => .giveUp) _ _ _
  | succ fuel ih =>
    cases fuel' with
    | zero => omega
    | succ fuel' =>
      have K := ih (Nat.le_of_succ_le_succ hfuel)
      have henter : ∀ id c, same.Agree () ((Engine.sparing spared digests (fuel + 1)).enter id c)
          ((Engine.sparing spared' digests (fuel' + 1)).enter id c) fun _ _ => True := by
        intro id c
        by_cases hid : spared = some id
        · simp only [Engine.sparing, if_pos hid]
          exact .giveUp
        · have hid' : spared' ≠ some id := by
            rcases hspared with rfl | rfl
            · exact hid
            · exact nofun
          simp only [Engine.sparing, if_neg hid, if_neg hid']
          exact agree_activation_same (K.run trivial c)
      refine ⟨⟨hfuel, rfl, ⟨rfl, rfl⟩, ?_⟩, ?_, ?_⟩
      · exact fun hc hargs => K.bodies.callValue hc hargs
      · exact fun _ _ _ _ _ _ _ _ => agree_runIn_same ⟨rfl, rfl⟩ henter _ _ _ _ _ _
      · exact fun _ _ _ => agree_runOperation_same ⟨rfl, rfl⟩ henter _ _ _

/-- What is asked of values comes to the same end with more fuel. -/
theorem same_engines (digests : Digests) {fuel fuel' : Nat} (hfuel : fuel ≤ fuel') :
    same.Engines (.withFuel fuel digests) (.withFuel fuel' digests) := by
  have K : Knot sameFrames (.sparing none digests fuel) (.sparing none digests fuel') :=
    same_knot hfuel (.inl rfl)
  rw [Engine.sparing_none, Engine.sparing_none] at K
  exact K.bodies.toEngines

end same
end Likeness

namespace Engine

variable {spared : Option FrameId} {fuel fuel' steps steps' : Nat} {id : FrameId} {c : Cursor}
  {m : Machine}

/-- What the sparing machine ends with is what the ordinary machine ends with, also with more fuel
and more steps. -/
theorem dispatch_of_sparing (hfuel : fuel ≤ fuel') (hsteps : steps ≤ steps')
    (hend : hasEnded ((sparing spared digests fuel).dispatch steps id c m) = true) :
    (withFuel fuel' digests).dispatch steps' id c m =
      (sparing spared digests fuel).dispatch steps id c m := by
  rw [← sparing_none]
  exact Likeness.eq_of_agree_same ((Likeness.same_knot hfuel (.inr rfl)).dispatch trivial hsteps c)
    hend

/-- A body that has come to an end of its own comes to the same end with more fuel. -/
theorem dispatch_withFuel_mono (hfuel : fuel ≤ fuel') (hsteps : steps ≤ steps')
    (hend : hasEnded ((withFuel fuel digests).dispatch steps id c m) = true) :
    (withFuel fuel' digests).dispatch steps' id c m =
      (withFuel fuel digests).dispatch steps id c m := by
  rw [← sparing_none fuel] at hend ⊢
  exact dispatch_of_sparing hfuel hsteps hend

end Engine
end ScriptVM
