import ScriptVM.Proofs.Expression.Agreement
import ScriptVM.Proofs.Expression.Correct

/-!
# Lowering of expressions

The code of an expression, in either mode, against its direct evaluation on the ordinary machine.
Only the body frame of a generator that is resumed from inside its own operation can be activated a
second time while code runs in it; in any other frame the code ends as direct evaluation does.
-/
namespace ScriptVM

/-- Whether machines are the same but for the operands of a frame and the log. -/
def Machine.SameBut (id : FrameId) (m n : Machine) : Prop := m.forget (some id) = n.forget (some id)

/-- What the operands and the last object of a frame are. -/
def Machine.HasOperands (m : Machine) (id : FrameId) (stack : List Value) (last : Option Value) :
    Prop :=
  ∃ f, m.arena.get? id = some f ∧ f.stack = stack ∧ f.last = last

/-- How code that starts in a frame should end where direct evaluation has ended: behind the code,
with some operands and the value as the last object, or with the same failure; the machines are the
same but for the operands of the frame. -/
def EndsLike (id : FrameId) (code : Block) (operands : Value → List Value) :
    Ending Value → Ending Flow → Prop
  | .ok v n, r =>
    ∃ m, r = .ok (.next ((Cursor.ofList code).skip code.length)) m ∧ m.SameBut id n ∧
      m.HasOperands id (operands v) (some v)
  | .error stop n, r => ∃ m, r = .error stop m ∧ m.SameBut id n

section lowering

variable {x : Expr} {push : Bool} {code : Block} {id : FrameId} {m : Machine} {f : Frame}
  {fuel steps : Nat} {digests : Digests}

theorem Twins.sameBut {w : CallStack} {right left : Aside} {m n : Machine}
    (h : Twins id w right left m n) : m.SameBut id n :=
  h.rest.1.symm

theorem Twins.refl (hf : m.arena.get? id = some f) (hactive : 0 < f.active) :
    Twins id m.callStack ⟨f.stack, f.last⟩ ⟨f.stack, f.last⟩ m m := by
  have hspares : m.arena.Spares (some id) ⟨f.stack, f.last⟩ := by
    rintro other ⟨⟩
    exact ⟨f, hf, hactive, rfl, rfl⟩
  exact Likeness.alike_sparing rfl rfl hspares hspares

theorem sparing_calls (digests : Digests) (spared : Option FrameId) (fuel : Nat) (left right : Aside) :
    (Likeness.sparing spared left right).Calls (.sparing spared digests fuel)
      (.sparing spared digests fuel) :=
  (Likeness.sparing_knot (Nat.le_refl _) (.inl rfl)).toCalls

/-- Behind a whole program nothing is under the cursor. -/
theorem Cursor.next?_skip_length (code : Block) :
    ((Cursor.ofList code).skip code.length).next? = none := by
  rw [Cursor.next?_eq_none_iff]
  simp [Cursor.ofList, Cursor.ofView]

/-- On the sparing machine, code ends like evaluation when that has ended, and starves when that runs
out of fuel. -/
theorem Expr.ends_sparing (digests : Digests) (fuel : Nat) (hcode : x.code push = .ok code)
    (hfits : code.length ≤ Text.maxCount) (hf : m.arena.get? id = some f) (hactive : 0 < f.active) :
    if hasEnded (x.eval (.sparing (some id) digests fuel) id m) then
      ∃ r, (Engine.sparing (some id) digests fuel).Ends id (Cursor.ofList code) m r ∧ hasEnded r =
        true ∧
        EndsLike id code (fun v => if push then v :: f.stack else f.stack)
          (x.eval (.sparing (some id) digests fuel) id m) r
    else (Engine.sparing (some id) digests fuel).Starves id (Cursor.ofList code) m := by
  have hfits' : (Cursor.ofList code).length ≤ Text.maxCount := by
    simpa [Cursor.ofList, Cursor.ofView] using hfits
  have hx := Expr.computes (sparing_calls digests (some id) fuel) x hcode
    (Cursor.at_ofList code) hfits' m m
    (Twins.refl hf hactive)
  generalize x.eval (.sparing (some id) digests fuel) id m = s at hx ⊢
  cases s with
  | ok v n =>
    obtain ⟨c', m', left', hleads, ⟨rfl, rfl⟩, htwins⟩ := hx
    obtain ⟨g, hg, -, hstack, hlast⟩ := htwins.frame
    refine ⟨_, hleads.ends (Engine.ends_of_end (Cursor.next?_skip_length code)), rfl, m', rfl,
      htwins.sameBut, g, hg, hstack, hlast⟩
  | error stop n =>
    cases stop with
    | gaveUp => exact hx
    | failed failure =>
      obtain ⟨m', left', hends, htwins⟩ := hx
      exact ⟨_, hends, rfl, m', rfl, htwins.sameBut⟩

/-- What ends on the sparing machine ends on the ordinary one. -/
theorem Engine.Ends.ofSparing {spared : Option FrameId} {c : Cursor} {r : Ending Flow}
    (h : (Engine.sparing spared digests fuel).Ends id c m r) (hr : hasEnded r = true) :
    (Engine.withFuel fuel digests).Ends id c m r := by
  obtain ⟨used, hused⟩ := h
  refine ⟨used, fun steps => ?_⟩
  rw [Engine.dispatch_of_sparing (Nat.le_refl _) (Nat.le_refl _) (by rw [hused, hr]), hused]

/-- Evaluation on the sparing machine is evaluation on the ordinary one. -/
theorem Expr.eval_of_sparing {spared : Option FrameId}
    (h : hasEnded (x.eval (.sparing spared digests fuel) id m) = true) :
    x.eval (.withFuel fuel digests) id m = x.eval (.sparing spared digests fuel) id m := by
  rw [← Engine.sparing_none]
  have K : Likeness.Knot Likeness.sameFrames (.sparing spared digests fuel)
      (.sparing Option.none digests fuel) :=
    Likeness.same_knot (Nat.le_refl fuel) (.inr rfl)
  exact Likeness.eq_of_agree_same (K.toCalls.eval (F := Likeness.sameFrames) x trivial) h

/-- Let the code of an expression that leaves its value on the operands run in a frame, and come to
an end without activating that frame a second time. Then direct evaluation has come to an end too;
this code ends like it, with the value on top of the operands; and so does, given enough steps, the
code that leaves its value in the register only, with the operands as they were. -/
theorem Expr.lowering {pushing plain : Block} (hpushing : x.code true = .ok pushing)
    (hplain : x.code false = .ok plain) (hfits : pushing.length ≤ Text.maxCount)
    (hfits' : plain.length ≤ Text.maxCount) (hf : m.arena.get? id = some f)
    (hactive : 0 < f.active)
    (hend : hasEnded
      ((Engine.sparing (some id) digests fuel).dispatch steps id (Cursor.ofList pushing) m) = true) :
    hasEnded (x.eval (.withFuel fuel digests) id m) = true ∧
      EndsLike id pushing (fun v => v :: f.stack) (x.eval (.withFuel fuel digests) id m)
        ((Engine.withFuel fuel digests).dispatch steps id (Cursor.ofList pushing) m) ∧
      ∃ r, (Engine.withFuel fuel digests).Ends id (Cursor.ofList plain) m r ∧
        EndsLike id plain (fun _ => f.stack) (x.eval (.withFuel fuel digests) id m) r := by
  have h := Expr.ends_sparing digests fuel hpushing hfits hf hactive
  have h' := Expr.ends_sparing digests fuel hplain hfits' hf hactive
  split at h
  · rename_i heval
    rw [if_pos heval] at h'
    obtain ⟨r, hr, -, hlike⟩ := h
    obtain ⟨r', hr', hended', hlike'⟩ := h'
    rw [Expr.eval_of_sparing heval]
    refine ⟨heval, ?_, r', hr'.ofSparing hended', hlike'⟩
    rw [Engine.dispatch_of_sparing (Nat.le_refl _) (Nat.le_refl _) hend, hr.eq_of_dispatch hend]
    exact hlike
  · rw [h steps] at hend
    cases hend

end lowering

variable {digests : Digests}

/-- In the global frame of a new machine the code of `(True, None)` leaves the tuple on top. -/
theorem Expr.lowering_pair :
    let x : Expr := .tuple ⟨some 1⟩ [.bool ⟨some 1⟩ true, .none ⟨some 1⟩]
    let pushing := [Op.getNone, .push, .getTrue, .push, .newTuple 2, .push].map fun op =>
      op.at ⟨some 1⟩
    hasEnded (x.eval (.withFuel 1 .standard) ⟨0⟩ (.new default)) = true ∧
      EndsLike ⟨0⟩ pushing (fun v => [v]) (x.eval (.withFuel 1 .standard) ⟨0⟩ (.new default))
        ((Engine.withFuel 1 .standard).dispatch 20 ⟨0⟩ (Cursor.ofList pushing) (.new default)) := by
  intro x pushing
  have hlive : ((Machine.new default).arena.get? ⟨0⟩).isSome = true := by decide +kernel
  obtain ⟨f, hf⟩ := Option.isSome_iff_exists.mp hlive
  have hglobal : ((Machine.new default).arena.get? ⟨0⟩).map
      (fun f => (f.stack, decide (0 < f.active))) = some ([], true) := by decide +kernel
  simp only [hf, Option.map_some, Option.some.injEq, Prod.mk.injEq, decide_eq_true_eq] at hglobal
  have hend : hasEnded ((Engine.sparing (some ⟨0⟩) .standard 1).dispatch 20 ⟨0⟩ (Cursor.ofList pushing)
      (.new default)) = true := by decide +kernel
  have hpushing : x.code true = .ok pushing := rfl
  have hplain : x.code false = .ok pushing.dropLast := rfl
  have h := Expr.lowering hpushing hplain (by decide) (by decide) hf hglobal.2 hend
  rw [hglobal.1] at h
  exact ⟨h.1, h.2.1⟩

end ScriptVM
