import ScriptVM.Proofs.Sparing

/-!
# Machines that differ in the log only

Nothing that a machine does depends on what it has logged. A computation that is started on machines
that are the same but for the log ends in the same way, and the machines are the same again.
-/
namespace ScriptVM

/-- Whether machines are the same but for the log. -/
def Machine.SameButLog (m n : Machine) : Prop := { m with log := [] } = { n with log := [] }

/-- Ends that are the same but for the log. -/
inductive SameEnd {α : Type} : Ending α → Ending α → Prop
  | ok (a : α) {m n : Machine} (hmn : m.SameButLog n) : SameEnd (.ok a m) (.ok a n)
  | failed (f : Failure) {m n : Machine} (hmn : m.SameButLog n) :
    SameEnd (.error (.failed f) m) (.error (.failed f) n)
  | gaveUp (why why' : Cutoff) (m n : Machine) :
    SameEnd (.error (.gaveUp why) m) (.error (.gaveUp why') n)

/-- A computation that does not look at the log. -/
def Run.Quiet {α : Type} (x : Run α) : Prop :=
  ∀ m n : Machine, m.SameButLog n → SameEnd (x m) (x n)

section quiet

variable {m n k : Machine} {α : Type} {x : Run α} {digests : Digests}

theorem Machine.SameButLog.refl (m : Machine) : m.SameButLog m := rfl

theorem Machine.SameButLog.symm (h : m.SameButLog n) : n.SameButLog m := Eq.symm h

theorem Machine.SameButLog.trans (h : m.SameButLog n) (h' : n.SameButLog k) : m.SameButLog k :=
  Eq.trans h h'

theorem Machine.sameButLog_traced (m : Machine) (position : Nat) (i : Instruction) :
    (m.traced position i).SameButLog m := by
  unfold traced
  split <;> rfl

theorem Machine.forget_none (m : Machine) : m.forget none = { m with log := [] } := rfl

/-- Machines that are the same but for the log are alike when no frame is spared. -/
theorem Machine.SameButLog.alike (h : m.SameButLog n) (left right : Aside) :
    (Likeness.sparing none left right).Alike m.callStack m n :=
  Likeness.alike_sparing (by rw [forget_none, forget_none]; exact h.symm) rfl nofun nofun

theorem Likeness.Alike.sameButLog {left right : Aside} {w : CallStack}
    (h : (sparing none left right).Alike w m n) : m.SameButLog n := by
  have hforget := h.forget_eq
  rw [Machine.forget_none, Machine.forget_none] at hforget
  exact hforget.symm

/-- Whatever agrees with itself on such machines is quiet. -/
theorem Run.quiet_of_agree {left right : Aside} {p : CallStack → α → Prop}
    (h : ∀ w, (Likeness.sparing none left right).Agree w x x p) : x.Quiet := by
  intro m n hmn
  have hleft := h _ m n (hmn.alike left right)
  have hright := h _ n m (hmn.symm.alike left right)
  cases hm : x m with
  | ok a m' =>
    rw [hm] at hleft
    cases hn : x n with
    | error stop n' =>
      rw [hn] at hleft
      cases hleft
    | ok b n' =>
      rw [hn] at hleft
      obtain ⟨rfl, _, _, _, halike⟩ := hleft
      exact .ok _ halike.sameButLog
  | error stop m' =>
    cases hn : x n with
    | ok b n' =>
      rw [hm, hn] at hright
      cases hright
    | error stop' n' =>
      rw [hm, hn] at hleft hright
      cases stop with
      | gaveUp =>
        cases stop' with
        | gaveUp => exact .gaveUp _ _ m' n'
        | failed f => cases hright
      | failed f =>
        cases stop' with
        | gaveUp => cases hleft
        | failed g =>
          obtain ⟨rfl, _, _, _, halike⟩ := hleft
          exact .failed _ halike.sameButLog

theorem quiet_knot (digests : Digests) (fuel : Nat) (left right : Aside) :
    Likeness.Knot (Likeness.sparingFrames none left right) (.withFuel fuel digests)
      (.withFuel fuel digests) := by
  rw [← Engine.sparing_none]
  exact Likeness.sparing_knot (Nat.le_refl fuel) (.inl rfl)

/-- An engine whose steps and conditions do not look at the log. -/
structure Engine.IsQuiet (e : Engine) : Prop where
  step : ∀ id c op, (e.step id c op).Quiet
  popCondition : ∀ id, (e.popCondition id).Quiet

theorem Engine.isQuiet_withFuel (digests : Digests) (fuel : Nat) : (withFuel fuel digests).IsQuiet := by
  have K := quiet_knot digests fuel ⟨[], none⟩ ⟨[], none⟩
  refine ⟨fun id c op => ?_, fun id => ?_⟩
  · exact Run.quiet_of_agree fun _ => K.step (fun h => nomatch h) c op
  · exact Run.quiet_of_agree fun _ => K.toCalls.popCondition (F := Likeness.sparingFrames none _ _)
      fun h => nomatch h

end quiet
end ScriptVM
