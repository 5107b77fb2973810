import ScriptVM.Proofs.Raise.Tripwire

/-!
# Raised values surface

When a value is raised, the whole run fails with it, however deep inside calls, class bodies,
iterations and conversions it is raised. The only thing that lets a run go on is an operator: it asks
its right operand for the reflected symbol when the call of the forward symbol on its left operand
fails, also when that call fails with a raised value.
-/
namespace ScriptVM

open Engine
open Lasting (still)

namespace Tripwire

variable {w w' : Tripwire} {fuel : Nat} {code : Cursor} {m : Machine} {v : Value}
  {digests : Digests}

/-- A tripwire does not take objects away. -/
theorem grows_call (callee : Value) (args : List Value) {x : Run Value}
    (h : ∀ m, m.objectCount ≤ (x.after m).objectCount) (m : Machine) :
    m.objectCount ≤ ((w.call callee args x).after m).objectCount := by
  have hgrows := h m
  unfold Run.after at hgrows ⊢
  by_cases hhit : w.calls callee args m = true
  · exact Nat.le_of_eq (by rw [call_of_hit hhit])
  · rw [call_of_not_hit hhit]
    exact hgrows

/-- What is hit by one tripwire is hit by another one that tells more. -/
theorem Tolerates.of_imp (hraises : ∀ v, w'.raises v = true → w.raises v = true)
    (hcalls : ∀ callee args m, w'.calls callee args m = true → w.calls callee args m = true) :
    Tolerates digests w w' (fun _ => False) True where
  raise v := by
    unfold Tripwire.raise
    split
    · exact ⟨fun _ => Nat.le_refl _, fun m n _ _ _ => .unsaid m _ ⟨rfl, trivial⟩⟩
    · rename_i hw
      rw [if_neg fun h => hw (hraises v h)]
      exact .fail (.raised v)
  call callee args x y h := by
    refine ⟨grows_call callee args h.grows, ?_⟩
    rintro m n ⟨rfl, hn⟩ - -
    by_cases hhit : w.calls callee args n = true
    · rw [call_of_hit hhit]
      exact .unsaid n _ ⟨rfl, trivial⟩
    · rw [call_of_not_hit hhit, call_of_not_hit fun h => hhit (hcalls callee args n h)]
      exact h.holds n n ⟨rfl, hn⟩ trivial trivial
  operation fuel hcall operator left right := by
    refine Passage.carries_operation (plain_guard _ _ digests fuel)
      (fun _ _ => Lasting.strict_of_not_excused fun _ => id) ?_ operator left right
    intro callee args
    rw [show args.map (still (fun _ => False) True).value = args from List.map_id args]
    exact hcall callee args

/-- What a machine with a tripwire ends with is what the ordinary machine ends with. -/
theorem execute_of_hasEnded (hend : hasEnded (w.execute digests fuel code m) = true) :
    (withFuel fuel digests).execute code m = w.execute digests fuel code m := by
  have T : Tolerates digests w slack (fun _ => False) True := .of_imp nofun nofun
  rw [← execute_slack]
  exact Lasting.eq_of_matches (fun _ => rfl)
    ((T.execution fuel code).holds m m ⟨rfl, trivial⟩ trivial trivial) hend

/-- A machine that comes to a tripwire comes to one that tells more. -/
theorem IsHit.of_imp (h : w'.IsHit digests fuel code m)
    (hraises : ∀ v, w'.raises v = true → w.raises v = true)
    (hcalls : ∀ callee args m, w'.calls callee args m = true → w.calls callee args m = true) :
    w.IsHit digests fuel code m := by
  have T : Tolerates digests w w' (fun _ => False) True := .of_imp hraises hcalls
  have hcarries := (T.execution fuel code).holds m m ⟨rfl, trivial⟩ trivial trivial
  unfold IsHit at h ⊢
  generalize w.execute digests fuel code m = s at hcarries ⊢
  generalize w'.execute digests fuel code m = t at h hcarries
  cases hcarries with
  | ok => cases h
  | failed => cases h
  | gaveUp k _ hstop =>
    rcases hstop with rfl | ⟨-, f, rfl, -⟩
    · exact h
    · cases h
  | unsaid k _ hwhy =>
    obtain ⟨rfl, -⟩ := hwhy
    rfl

theorem call_of_hasEnded {callee : Value} {args : List Value}
    (hend : hasEnded ((w.engine digests fuel).call callee args m) = true) :
    (withFuel fuel digests).call callee args m = (w.engine digests fuel).call callee args m := by
  have T : Tolerates digests w slack (fun _ => False) True := .of_imp nofun nofun
  rw [← engine_slack]
  exact Lasting.eq_of_matches (fun _ => rfl)
    (((T.related fuel).call callee args).holds m m ⟨rfl, trivial⟩ trivial trivial) hend

/-! ## Operators -/

/-- Whether calls include every call of the forward symbol of an operator that fails with a raised
value. -/
def CoversForward (digests : Digests) (v : Value) (calls : Value → List Value → Machine → Bool) :
    Prop :=
  ∀ (operator : BinaryOperator) (left right method : Value) (m k k' : Machine) (fuel : Nat)
    (f : Failure), Run.lookup left operator.forward.name m = .ok (some method) k →
    (withFuel fuel digests).call method [right] k = .error (.failed f) k' → f.cause = .raised v →
      calls method [right] k = true

/-- A tripwire for the raising of a value and for some calls. -/
def raisingOr (v : Value) (calls : Value → List Value → Machine → Bool) : Tripwire :=
  ⟨fun u => u = v, calls⟩

/-- A tripwire for the raising of a value. -/
def raising (v : Value) : Tripwire := raisingOr v fun _ _ _ => false

/-- A tripwire for some calls. -/
def calling (calls : Value → List Value → Machine → Bool) : Tripwire := ⟨fun _ => false, calls⟩

variable {calls : Value → List Value → Machine → Bool}

/-- Where the forward calls that fail with a raised value are told, an operator stops when a value is
raised in it. -/
theorem carries_operation_raising (hcovers : CoversForward digests v calls) (fuel : Nat)
    (hcall : ∀ callee args, (still (· = .raised v) False).Carries
      (((raisingOr v calls).guard ((raisingOr v calls).engine digests fuel)).call callee args)
      (((calling calls).guard ((calling calls).engine digests fuel)).call callee args) id)
    (operator : BinaryOperator) (left right : Value) :
    (still (· = .raised v) False).Carries
      (((raisingOr v calls).guard ((raisingOr v calls).engine digests fuel)).operation operator left
        right)
      (((calling calls).guard ((calling calls).engine digests fuel)).operation operator left right)
        id := by
  have hcall' : ∀ callee args, (still (· = .raised v) False).Carries
      (((raisingOr v calls).guard ((raisingOr v calls).engine digests fuel)).call callee args)
      (((calling calls).guard ((calling calls).engine digests fuel)).call callee
        (args.map (still (· = .raised v) False).value)) id := by
    intro callee args
    rw [show args.map (still (· = .raised v) False).value = args from List.map_id args]
    exact hcall callee args
  have hreflected := Passage.carries_callNamed
    (plain_guard _ _ digests fuel) hcall' right operator.reflected.name [left]
  have hgrowth : Lasting.growth.passage.Carries
      (((raisingOr v calls).guard ((raisingOr v calls).engine digests fuel)).operation operator left
        right)
      (((raisingOr v calls).guard ((raisingOr v calls).engine digests fuel)).operation operator left
        right)
      id := by
    refine Passage.carries_operation (plain_guard _ _ digests fuel)
      (Lasting.growth_steps digests).strict ?_ operator left right
    intro callee args
    rw [show args.map Lasting.growth.passage.value = args from List.map_id args]
    exact Lasting.growth_carries (hcall callee args).grows fun _ => rfl
  refine ⟨hgrowth.grows, ?_⟩
  · rintro m n ⟨rfl, -⟩ - -
    unfold Engine.operation
    simp only [bind, EStateM.bind]
    obtain ⟨r, k, hlookup⟩ : ∃ r k, Run.lookup left operator.forward.name n = .ok r k := ⟨_, _, rfl⟩
    rw [hlookup]
    cases r with
    | none => exact hreflected.holds k k ⟨rfl, trivial⟩ trivial trivial
    | some method =>
      have hforward := (hcall method [right]).holds k k ⟨rfl, trivial⟩ trivial trivial
      simp only [EStateM.bind, Run.attempt]
      generalize hx : ((raisingOr v calls).guard _).call method [right] k = s at hforward ⊢
      generalize hy : ((calling calls).guard _).call method [right] k = t at hforward ⊢
      cases hforward with
      | ok a hmn => exact .ok a hmn
      | failed _ hmn => exact hreflected.holds _ _ hmn trivial trivial
      | unsaid k _ h => exact h.2.elim
      | gaveUp a b hstop =>
        rename_i stop
        cases stop with
        | gaveUp => exact .gaveUp a b hstop
        | failed f =>
          -- Such a call is told, so the machine cannot have made it.
          by_cases hhit : calls method [right] k = true
          · rw [show ((calling calls).guard _).call method [right] k = _ from call_of_hit hhit] at hy
            cases hy
          · rw [show ((calling calls).guard _).call method [right] k = _ from
              call_of_not_hit hhit] at hy
            have hended := call_of_hasEnded (by rw [hy]; rfl)
            rw [hy] at hended
            obtain ⟨-, g, hg, hraised⟩ := hstop.resolve_left nofun
            cases hg
            exact absurd (hcovers operator left right method n k b fuel f hlookup hended hraised) hhit

theorem Tolerates.of_coversForward (hcovers : CoversForward digests v calls) :
    Tolerates digests (raisingOr v calls) (calling calls) (· = .raised v) False where
  raise u := by
    unfold Tripwire.raise
    split
    · rename_i hu
      have hu : u = v := of_decide_eq_true hu
      subst hu
      exact ⟨fun _ => Nat.le_refl _, fun m n _ _ _ => .gaveUp m n (.inr ⟨rfl, _, rfl, rfl⟩)⟩
    · exact .fail (.raised u)
  call callee args x y h := by
    refine ⟨grows_call callee args h.grows, ?_⟩
    rintro m n ⟨rfl, hn⟩ - -
    by_cases hhit : calls callee args n = true
    · rw [call_of_hit hhit, call_of_hit hhit]
      exact .gaveUp n n (.inl rfl)
    · rw [call_of_not_hit hhit, call_of_not_hit hhit]
      exact h.holds n n ⟨rfl, hn⟩ trivial trivial
  operation := carries_operation_raising hcovers

end Tripwire

/-- An operator whose forward call fails goes on with the reflected symbol. -/
theorem Engine.operation_of_failed {e : Engine} {operator : BinaryOperator} {left right method : Value}
    {m k k' : Machine} {f : Failure}
    (hlookup : Run.lookup left operator.forward.name m = .ok (some method) k)
    (hfails : e.call method [right] k = .error (.failed f) k') :
    e.operation operator left right m = e.reflectedOperation operator left right k' := by
  simp only [operation, bind, EStateM.bind, hlookup, Run.attempt, hfails]

variable {digests : Digests}

/-- When a value is raised in a run, the run fails with that value, unless it makes a call of the
forward symbol of an operator that fails with the value: then the operator goes on with the reflected
symbol. Nothing else lets a run go on. -/
theorem Engine.execute_raise {fuel : Nat} {code : Cursor} {m : Machine} {v : Value}
    (hraise : (Tripwire.raising v).IsHit digests fuel code m) :
    ((∃ f m', (withFuel fuel digests).execute code m = .error (.failed f) m' ∧ f.cause = .raised v) ∨
      ∀ calls, Tripwire.CoversForward digests v calls →
        (Tripwire.calling calls).IsHit digests fuel code m) ∧
    ∀ (e : Engine) (operator : BinaryOperator) (left right method : Value) (k k₁ k₂ : Machine)
      (f : Failure), Run.lookup left operator.forward.name k = .ok (some method) k₁ →
      e.call method [right] k₁ = .error (.failed f) k₂ →
      e.operation operator left right k = e.reflectedOperation operator left right k₂ := by
  refine ⟨?_, fun e operator left right method k k₁ k₂ f hlookup hfails =>
    operation_of_failed hlookup hfails⟩
  refine or_iff_not_imp_left.2 fun hsurfaces calls hcovers => ?_
  have hboth : (Tripwire.raisingOr v calls).IsHit digests fuel code m :=
    hraise.of_imp (fun _ h => h) nofun
  have hcarries := ((Tripwire.Tolerates.of_coversForward hcovers).execution fuel code).holds m m
    ⟨rfl, trivial⟩ trivial trivial
  unfold Tripwire.IsHit at hboth ⊢
  generalize (Tripwire.raisingOr v calls).execute digests fuel code m = s at hcarries hboth
  generalize ht : (Tripwire.calling calls).execute digests fuel code m = t at hcarries ⊢
  cases hcarries with
  | ok => cases hboth
  | failed => cases hboth
  | unsaid _ _ h => exact h.2.elim
  | gaveUp _ b hstop =>
    rcases hstop with rfl | ⟨-, f, rfl, hraised⟩
    · exact hboth
    · have hended := Tripwire.execute_of_hasEnded (by rw [ht]; rfl)
      exact absurd ⟨f, b, hended.trans ht, hraised⟩ hsurfaces

/-- A value that is raised in a function. -/
theorem Engine.execute_raise_call :
    ∃ fuel code m v, (Tripwire.raising v).IsHit .standard fuel code m ∧
      ((∃ f m', (withFuel fuel .standard).execute code m = .error (.failed f) m' ∧ f.cause =
        .raised v) ∨
        ∀ calls, Tripwire.CoversForward .standard v calls →
          (Tripwire.calling calls).IsHit .standard fuel code m) := by
  let at' : Span := ⟨some 1⟩
  let program : Program := .ofBody [
    .function at' ⟨"f", [], [.raise at' (.integer at' "1")]⟩,
    .expr (.call at' (.identifier at' "f") [])]
  have hends : (program.compile.toOption.any fun code => (List.range 40).any fun i =>
      Tripwire.tripped ((Tripwire.raising ⟨i⟩).execute .standard 10 code (.new .standard))) = true := by
    decide +kernel
  obtain ⟨code, -, hany⟩ := (Option.any_eq_true _ _).1 hends
  obtain ⟨i, -, hhit⟩ := List.any_eq_true.1 hany
  exact ⟨10, code, _, ⟨i⟩, hhit, (execute_raise hhit).1⟩

/-- A raised value may get lost: here the left operand raises a value when it is asked for a sum, and
the sum is what the right operand makes of it. -/
theorem Engine.not_execute_raise :
    ∃ program : Program, ∃ fuel code v u m', program.compile = .ok code ∧
      (Tripwire.raising v).IsHit .standard fuel code (.new .standard) ∧
      (withFuel fuel .standard).execute code (.new .standard) = .ok u m' := by
  let at' : Span := ⟨some 1⟩
  let program : Program := .ofBody [
    .classDef at' "A" [] [
      .function at' ⟨"Add", ["other"], [.raise at' (.string at' "boom")]⟩],
    .classDef at' "B" [] [
      .function at' ⟨"RightAdd", ["other"], [.exit at' [.integer at' "1"]]⟩],
    .exit at' [.binary at' (.call at' (.identifier at' "A") []) .add
      (.call at' (.identifier at' "B") [])]]
  have hends : (program.compile.toOption.any fun code =>
      (finished? ((withFuel 20 .standard).execute code (.new .standard))).isSome &&
      (List.range 60).any fun i =>
      Tripwire.tripped ((Tripwire.raising ⟨i⟩).execute .standard 20 code (.new .standard))) = true := by
    decide +kernel
  obtain ⟨code, hcode, hends⟩ := (Option.any_eq_true _ _).1 hends
  obtain ⟨hend, hany⟩ := (Bool.and_eq_true _ _).mp hends
  obtain ⟨i, -, hhit⟩ := List.any_eq_true.1 hany
  obtain ⟨⟨u, m'⟩, hend⟩ := Option.isSome_iff_exists.1 hend
  exact ⟨program, 20, code, ⟨i⟩, u, m', eq_ok_of_toOption hcode, hhit, eq_ok_of_finished? hend⟩

end ScriptVM
