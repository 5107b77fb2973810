import ScriptVM.Proofs.Code.Course
import ScriptVM.Proofs.Quiet

/-!
# Code that keeps up with a computation

A computation that may need any number of rounds is a family of computations, one for each bound on
the rounds. Code keeps up with a family when it goes on where the value that the family comes to says,
and when it starves as soon as no bound is enough for the family.
-/
namespace ScriptVM

/-- Where code goes on. -/
inductive Goal where
  /-- At a cursor, after at least so many steps. -/
  | at (least : Nat) (c : Cursor)
  /-- The body is left with a value. -/
  | left (v : Value)
  /-- The code cannot come here. -/
  | nowhere

/-- Code comes to where the end of a computation says, on a machine that is the same but for the
log. -/
def Engine.Reaches {α : Type} (e : Engine) (id : FrameId) (c : Cursor) (m : Machine)
    (goal : α → Goal) : Ending α → Prop
  | .ok a n =>
    match goal a with
    | .at least c' => ∃ m', e.LeadsIn id least c m c' m' ∧ m'.SameButLog n
    | .left v => ∃ c' m', e.Ends id c m (.ok (.leave v c') m') ∧ m'.SameButLog n
    | .nowhere => False
  | .error (.failed f) n => ∃ m', e.Ends id c m (.error (.failed f) m') ∧ m'.SameButLog n
  | .error (.gaveUp _) _ => True

/-- What ends with some bound ends in the same way with a higher one. -/
def Grows {α : Type} (x : Nat → Run α) : Prop :=
  ∀ ⦃k k' : Nat⦄ ⦃m : Machine⦄, k ≤ k' → hasEnded (x k m) = true → x k' m = x k m

/-- Code keeps up with a family of computations. -/
structure Engine.Keeps {α : Type} (e : Engine) (id : FrameId) (c : Cursor) (goal : α → Goal)
    (x : Nat → Run α) : Prop where
  reaches : ∀ k m n, m.SameButLog n → e.Reaches id c m goal (x k n)
  starves : ∀ m n, m.SameButLog n → (∀ k, hasEnded (x k n) = false) → e.Starves id c m

section growth

variable {α β : Type}

theorem Run.bind_of_ok {x : Run α} {f : α → Run β} {m m' : Machine} {a : α}
    (h : x m = .ok a m') : (x >>= f) m = f a m' := by
  simp only [Bind.bind, EStateM.bind, h]

theorem Run.bind_of_error {x : Run α} {f : α → Run β} {m m' : Machine} {stop : Stop}
    (h : x m = .error stop m') : (x >>= f) m = .error stop m' := by
  simp only [Bind.bind, EStateM.bind, h]

/-- Whether a computation has failed with an end of its own does not depend on its values. -/
theorem hasEnded_error (stop : Stop) (m : Machine) :
    hasEnded (.error stop m : Ending α) = hasEnded (.error stop m : Ending β) := by
  cases stop <;> rfl

theorem Grows.const (x : Run α) : Grows fun _ => x := fun _ _ _ _ _ => rfl

/-- One part after the other comes to the same end when both parts do. -/
theorem Run.bind_eq_of_ended {x x' : Run α} {f f' : α → Run β} {m : Machine}
    (hx : hasEnded (x m) = true → x' m = x m)
    (hf : ∀ a m', hasEnded (f a m') = true → f' a m' = f a m')
    (hend : hasEnded ((x >>= f) m) = true) : (x' >>= f') m = (x >>= f) m := by
  cases hk : x m with
  | ok a m' =>
    have hgrow : x' m = .ok a m' := by rw [← hk, hx (by rw [hk]; rfl)]
    rw [Run.bind_of_ok hk] at hend ⊢
    rw [Run.bind_of_ok hgrow, hf a m' hend]
  | error stop m' =>
    rw [Run.bind_of_error hk] at hend ⊢
    rw [hasEnded_error stop m' (β := α)] at hend
    have hgrow : x' m = .error stop m' := by rw [← hk, hx (by rw [hk, hend])]
    rw [Run.bind_of_error hgrow]

theorem Grows.bind {x : Nat → Run α} {f : α → Nat → Run β} (hx : Grows x)
    (hf : ∀ a, Grows (f a)) : Grows fun k => x k >>= fun a => f a k :=
  fun _ _ _ hle hend => Run.bind_eq_of_ended (hx hle) (fun a _ => hf a hle) hend

theorem Grows.dispatch (e : Engine) (id : FrameId) (c : Cursor) :
    Grows fun k => e.dispatch k id c :=
  fun _ _ _ hle hend => Engine.dispatch_mono_le hle hend

/-- A family either comes to an end with all bounds from one on, or with none. -/
theorem Grows.ends_or_not {x : Nat → Run α} (hx : Grows x) (m : Machine) :
    (∃ k, hasEnded (x k m) = true ∧ ∀ k' ≥ k, x k' m = x k m) ∨ ∀ k, hasEnded (x k m) = false := by
  by_cases h : ∃ k, hasEnded (x k m) = true
  · obtain ⟨k, hk⟩ := h
    exact .inl ⟨k, hk, fun k' hle => hx hle hk⟩
  · exact .inr fun k => Bool.eq_false_iff.2 fun hk => h ⟨k, hk⟩

end growth

section keeping

variable {α β : Type} {e : Engine} {id : FrameId} {c c' : Cursor} {m m' n : Machine}
  {goal : α → Goal} {goal' : β → Goal} {least : Nat}

/-- Code in front of code that reaches a goal reaches it too. -/
theorem Engine.LeadsIn.reaches (h : e.LeadsIn id least c m c' m') {r : Ending α}
    (hr : e.Reaches id c' m' goal r) : e.Reaches id c m goal r := by
  match r, hr with
  | .ok a n, hr =>
    simp only [Engine.Reaches] at hr ⊢
    cases hgoal : goal a with
    | «at» least' c'' =>
      rw [hgoal] at hr
      obtain ⟨m'', hleads, hsame⟩ := hr
      exact ⟨m'', (h.trans hleads).mono (Nat.le_add_left _ _), hsame⟩
    | left v =>
      rw [hgoal] at hr
      obtain ⟨c'', m'', hends, hsame⟩ := hr
      exact ⟨c'', m'', h.leads.ends hends, hsame⟩
    | nowhere =>
      rw [hgoal] at hr
      exact hr
  | .error (.failed f) n, ⟨m'', hends, hsame⟩ => exact ⟨m'', h.leads.ends hends, hsame⟩
  | .error (.gaveUp _) n, _ => trivial

theorem Engine.Keeps.congr {goal' : α → Goal} {x : Nat → Run α} (h : e.Keeps id c goal x)
    (hgoal : ∀ a, goal a = goal' a) : e.Keeps id c goal' x := by
  rwa [← funext hgoal]

/-- How code goes on where a value of the first part says: the second part only passes the value
on, or the code there keeps up with it. -/
def Engine.GoesOn (e : Engine) (id : FrameId) (goal : α → Goal) (goal' : β → Goal)
    (f : α → Nat → Run β) (a : α) : Prop :=
  (∃ b, goal' b = goal a ∧ ∀ k, f a k = pure b) ∨
    ∃ least c', goal a = .at least c' ∧ e.Keeps id c' goal' (f a)

/-- Code one part after the other keeps up with a computation one part after the other. -/
theorem Engine.Keeps.bind {x : Nat → Run α} {f : α → Nat → Run β}
    (h : e.Keeps id c goal x) (hx : Grows x) (hgrows : ∀ a, Grows (f a))
    (hf : ∀ a, goal a ≠ .nowhere → e.GoesOn id goal goal' f a) :
    e.Keeps id c goal' fun k => x k >>= fun a => f a k where
  reaches := by
    intro k m n hmn
    have hr := h.reaches k m n hmn
    cases hk : x k n with
    | error stop n' =>
      rw [hk] at hr
      rw [Run.bind_of_error hk]
      cases stop with
      | failed g => exact hr
      | gaveUp => trivial
    | ok a n' =>
      rw [hk] at hr
      rw [Run.bind_of_ok hk]
      simp only [Engine.Reaches] at hr
      have hgoal : goal a ≠ .nowhere := by
        intro hgoal
        rw [hgoal] at hr
        exact hr
      rcases hf a hgoal with ⟨b, hb, hpure⟩ | ⟨least, c', hat, hkeeps⟩
      · rw [hpure k]
        simp only [Pure.pure, EStateM.pure, Engine.Reaches, hb]
        exact hr
      · rw [hat] at hr
        obtain ⟨m', hleads, hsame⟩ := hr
        exact hleads.reaches (hkeeps.reaches k m' n' hsame)
  starves := by
    intro m n hmn hdiverges
    rcases hx.ends_or_not n with ⟨k, hk, hstays⟩ | hnone
    · have hr := h.reaches k m n hmn
      cases hend : x k n with
      | error stop n' =>
        have hfalse := hdiverges k
        rw [Run.bind_of_error hend, hasEnded_error stop n' (β := α), ← hend, hk] at hfalse
        cases hfalse
      | ok a n' =>
        rw [hend] at hr hstays
        have hrest : ∀ k, hasEnded (f a k n') = false := by
          intro k'
          refine Bool.eq_false_iff.2 fun hf => ?_
          have hmax := hgrows a (Nat.le_max_left k' k) hf
          have hfalse := hdiverges (max k' k)
          rw [Run.bind_of_ok (hstays _ (Nat.le_max_right k' k)), hmax, hf] at hfalse
          cases hfalse
        simp only [Engine.Reaches] at hr
        have hgoal : goal a ≠ .nowhere := by
          intro hgoal
          rw [hgoal] at hr
          exact hr
        rcases hf a hgoal with ⟨b, -, hpure⟩ | ⟨least, c', hat, hkeeps⟩
        · have hfalse := hrest 0
          rw [hpure 0] at hfalse
          cases hfalse
        · rw [hat] at hr
          obtain ⟨m', hleads, hsame⟩ := hr
          exact hleads.leads.starves (hkeeps.starves m' n' hsame hrest)
    · exact h.starves m n hmn hnone

/-- Code keeps up with what is done when it has nothing left to do. -/
theorem Engine.keeps_pure {a : α} (h : goal a = .at 0 c) : e.Keeps id c goal fun _ => pure a where
  reaches := by
    intro _ m n hmn
    simp only [Pure.pure, EStateM.pure, Engine.Reaches, h]
    exact ⟨m, Leads.refl.leadsIn, hmn⟩
  starves := by
    intro m n _ hdiverges
    have hfalse := hdiverges 0
    cases hfalse

end keeping
end ScriptVM
