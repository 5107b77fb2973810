import ScriptVM.Machine.Execution
import ScriptVM.Proofs.Code.Place

/-!
# The course of running code

Code in a frame leads from one cursor and machine to another one, or it ends there, or it starves: no
number of steps is enough for it, because something inside runs out of fuel. What a number of steps
decides, more steps do not change.
-/
namespace ScriptVM

/-- The end of a computation. -/
abbrev Ending (α : Type) := EStateM.Result Stop Machine α

/-- Whether a computation has come to an end of its own, rather than run out of fuel. -/
def hasEnded {α : Type} : Ending α → Bool
  | .error (.gaveUp _) _ => false
  | _ => true

@[simp] theorem hasEnded_map {α β : Type} (f : α → β) (x : Run α) (m : Machine) :
    hasEnded ((f <$> x) m) = hasEnded (x m) := by
  simp only [Functor.map, EStateM.map]
  cases x m with
  | ok a k => rfl
  | error stop k => cases stop <;> rfl

/-- The machine that a computation leaves behind. -/
def Ending.machine {α : Type} : Ending α → Machine
  | .ok _ m | .error _ m => m

/-- What a computation ends with, unless it fails or runs out of fuel. -/
def finished? {α : Type} : Ending α → Option (α × Machine)
  | .ok a m => some (a, m)
  | .error _ _ => none

theorem eq_ok_of_finished? {α : Type} {r : Ending α} {a : α} {m : Machine}
    (h : finished? r = some (a, m)) : r = .ok a m := by
  cases r with
  | ok b n =>
    cases h
    rfl
  | error => cases h

/-- The failure that a computation ends with, if it fails. -/
def failed? {α : Type} : Ending α → Option (Failure × Machine)
  | .error (.failed f) m => some (f, m)
  | _ => none

theorem eq_error_of_failed? {α : Type} {r : Ending α} {f : Failure} {m : Machine}
    (h : failed? r = some (f, m)) : r = .error (.failed f) m := by
  cases r with
  | ok => cases h
  | error stop n =>
    cases stop with
    | failed g =>
      cases h
      rfl
    | gaveUp => cases h

/-- The machine after an instruction was logged. -/
def Machine.traced (m : Machine) (position : Nat) (i : Instruction) : Machine :=
  if m.config.trace then { m with log := ⟨m.depth, position, i⟩ :: m.log } else m

namespace Engine

variable {e : Engine} {id : FrameId} {c c₁ c₂ : Cursor} {m m₁ m₂ : Machine}
  {i : Instruction} {after : Cursor} {r : Ending Flow}

/-- Code leads from one place and machine to another. -/
def Leads (e : Engine) (id : FrameId) (c : Cursor) (m : Machine) (c' : Cursor) (m' : Machine) :
    Prop :=
  ∃ used, ∀ steps, e.dispatch (steps + used) id c m = e.dispatch steps id c' m'

/-- Code leads from one place and machine to another in at least so many steps. -/
def LeadsIn (e : Engine) (id : FrameId) (least : Nat) (c : Cursor) (m : Machine) (c' : Cursor)
    (m' : Machine) : Prop :=
  ∃ used, least ≤ used ∧ ∀ steps, e.dispatch (steps + used) id c m = e.dispatch steps id c' m'

/-- Code comes to an end, given enough steps. -/
def Ends (e : Engine) (id : FrameId) (c : Cursor) (m : Machine) (r : Ending Flow) : Prop :=
  ∃ used, ∀ steps, e.dispatch (steps + used) id c m = r

/-- No number of steps is enough for code. -/
def Starves (e : Engine) (id : FrameId) (c : Cursor) (m : Machine) : Prop :=
  ∀ steps, hasEnded (e.dispatch steps id c m) = false

/-! ## Single steps -/

theorem dispatch_end (h : c.next? = none) (steps : Nat) :
    e.dispatch (steps + 1) id c m = .ok (.next c) m := by
  unfold dispatch
  simp [h, pure, EStateM.pure]

theorem dispatch_next (h : c.next? = some (i, after)) (steps : Nat) :
    e.dispatch (steps + 1) id c m =
      match Run.located i.span (e.step id after i.op) (m.traced c.index i) with
      | .ok (.next c') m' => e.dispatch steps id c' m'
      | .ok (.leave v c') m' => .ok (.leave v c') m'
      | .error stop m' => .error stop m' := by
  conv => lhs; unfold dispatch
  have htrace : Run.trace c.index i m = .ok () (m.traced c.index i) := rfl
  simp only [h, bind, EStateM.bind, htrace]
  split
  · rename_i flow m' hstep
    rw [hstep]
    cases flow <;> rfl
  · rename_i stop m' hstep
    rw [hstep]

/-- More steps do not change an end. -/
theorem dispatch_mono {steps : Nat} (k : Nat) (h : hasEnded (e.dispatch steps id c m) = true) :
    e.dispatch (steps + k) id c m = e.dispatch steps id c m := by
  induction steps generalizing c m with
  | zero => cases h
  | succ steps ih =>
    rw [Nat.add_right_comm]
    cases hnext : c.next? with
    | none => rw [dispatch_end hnext, dispatch_end hnext]
    | some next =>
      obtain ⟨i, after⟩ := next
      rw [dispatch_next hnext] at h ⊢
      rw [dispatch_next hnext]
      generalize Run.located i.span (e.step id after i.op) (m.traced c.index i) = r at h ⊢
      match r, h with
      | .ok (.next c') m', h => exact ih h
      | .ok (.leave v c') m', _ => rfl
      | .error stop m', _ => rfl

theorem dispatch_mono_le {steps steps' : Nat} (hle : steps ≤ steps')
    (h : hasEnded (e.dispatch steps id c m) = true) :
    e.dispatch steps' id c m = e.dispatch steps id c m := by
  obtain ⟨k, rfl⟩ := Nat.exists_eq_add_of_le hle
  exact dispatch_mono k h

/-! ## Composition -/

theorem Leads.refl : e.Leads id c m c m := ⟨0, fun _ => rfl⟩

theorem Leads.trans (h : e.Leads id c m c₁ m₁) (h' : e.Leads id c₁ m₁ c₂ m₂) :
    e.Leads id c m c₂ m₂ := by
  obtain ⟨used, hused⟩ := h
  obtain ⟨used', hused'⟩ := h'
  refine ⟨used' + used, fun steps => ?_⟩
  rw [← Nat.add_assoc, hused, hused']

theorem Leads.ends (h : e.Leads id c m c₁ m₁) (h' : e.Ends id c₁ m₁ r) : e.Ends id c m r := by
  obtain ⟨used, hused⟩ := h
  obtain ⟨used', hused'⟩ := h'
  refine ⟨used' + used, fun steps => ?_⟩
  rw [← Nat.add_assoc, hused, hused']

theorem Leads.starves (h : e.Leads id c m c₁ m₁) (h' : e.Starves id c₁ m₁) :
    e.Starves id c m := by
  obtain ⟨used, hused⟩ := h
  intro steps
  refine Bool.eq_false_iff.2 fun hfinal => ?_
  have hmore := dispatch_mono used hfinal
  rw [hused] at hmore
  have hstarve := h' steps
  rw [hmore, hfinal] at hstarve
  cases hstarve

theorem LeadsIn.leads {least : Nat} (h : e.LeadsIn id least c m c₁ m₁) : e.Leads id c m c₁ m₁ := by
  obtain ⟨used, -, hused⟩ := h
  exact ⟨used, hused⟩

theorem Leads.leadsIn (h : e.Leads id c m c₁ m₁) : e.LeadsIn id 0 c m c₁ m₁ := by
  obtain ⟨used, hused⟩ := h
  exact ⟨used, Nat.zero_le _, hused⟩

theorem LeadsIn.trans {least least' : Nat} (h : e.LeadsIn id least c m c₁ m₁)
    (h' : e.LeadsIn id least' c₁ m₁ c₂ m₂) : e.LeadsIn id (least + least') c m c₂ m₂ := by
  obtain ⟨used, hleast, hused⟩ := h
  obtain ⟨used', hleast', hused'⟩ := h'
  refine ⟨used' + used, by omega, fun steps => ?_⟩
  rw [← Nat.add_assoc, hused, hused']

theorem LeadsIn.mono {least least' : Nat} (h : e.LeadsIn id least c m c₁ m₁)
    (hle : least' ≤ least) : e.LeadsIn id least' c m c₁ m₁ := by
  obtain ⟨used, hleast, hused⟩ := h
  exact ⟨used, Nat.le_trans hle hleast, hused⟩

/-- What a number of steps decides behind a part of the code, it has decided in front of it. -/
theorem LeadsIn.hasEnded {least steps : Nat} (h : e.LeadsIn id least c m c₁ m₁)
    (hended : hasEnded (e.dispatch (steps + least) id c m) = true) :
    ScriptVM.hasEnded (e.dispatch steps id c₁ m₁) = true := by
  obtain ⟨used, hleast, hused⟩ := h
  rw [← hused, dispatch_mono_le (Nat.add_le_add_left hleast steps) hended, hended]

/-- Enough steps come to the same end. -/
theorem Ends.eq_of_dispatch (h : e.Ends id c m r) {steps : Nat}
    (hfinal : hasEnded (e.dispatch steps id c m) = true) : e.dispatch steps id c m = r := by
  obtain ⟨used, hused⟩ := h
  rw [← dispatch_mono used hfinal, hused]

/-- Where nothing is under the cursor, code has ended. -/
theorem ends_of_end (h : c.next? = none) : e.Ends id c m (.ok (.next c) m) :=
  ⟨1, fun steps => dispatch_end h steps⟩

/-! ## Steps -/

theorem leadsIn_of_step (h : c.next? = some (i, after))
    (hstep : e.step id after i.op (m.traced c.index i) = .ok (.next c₁) m₁) :
    e.LeadsIn id 1 c m c₁ m₁ := by
  refine ⟨1, Nat.le_refl 1, fun steps => ?_⟩
  simp only [dispatch_next h, Run.located, hstep]

theorem leads_of_step (h : c.next? = some (i, after))
    (hstep : e.step id after i.op (m.traced c.index i) = .ok (.next c₁) m₁) :
    e.Leads id c m c₁ m₁ :=
  (leadsIn_of_step h hstep).leads

theorem ends_of_leave {v : Value} (h : c.next? = some (i, after))
    (hstep : e.step id after i.op (m.traced c.index i) = .ok (.leave v c₁) m₁) :
    e.Ends id c m (.ok (.leave v c₁) m₁) := by
  refine ⟨1, fun steps => ?_⟩
  simp only [dispatch_next h, Run.located, hstep]

theorem ends_of_failure {f : Failure} (h : c.next? = some (i, after))
    (hstep : e.step id after i.op (m.traced c.index i) = .error (.failed f) m₁) :
    e.Ends id c m (.error (.failed (f.placedAt i.span)) m₁) := by
  refine ⟨1, fun steps => ?_⟩
  simp only [dispatch_next h, Run.located, hstep]

theorem starves_of_step {why : Cutoff} (h : c.next? = some (i, after))
    (hstep : e.step id after i.op (m.traced c.index i) = .error (.gaveUp why) m₁) :
    e.Starves id c m := by
  intro steps
  cases steps with
  | zero => rfl
  | succ steps =>
    simp only [dispatch_next h, Run.located, hstep]
    rfl

end Engine
end ScriptVM
