import ScriptVM.Proofs.Data.Equality
import ScriptVM.Proofs.Selection.Evaluating

/-!
# Switches

A switch becomes a chain of tests, one for each case, and each test asks whether the target is among
the listed values. When the target and the listed values come to data without side effects, the first
case that lists a value equal to the target runs, or else the default block, and nothing but that.

## Main definitions

* `Selects` — which block of a switch is selected.

## Main results

* `Engine.exists_test_caseCondition` — the test of a case tells whether it lists what the target says.
* `Engine.switch_selects` — the code of a switch does what the selected block does.
-/

/-! ## Tests

The test of a case asks whether the target is in a tuple of the listed values. When these come to
data without side effects, so does the tuple, and the test has no side effects either.
-/

namespace ScriptVM.Engine

open Run

variable {P : Machine → Prop} {id : FrameId} {c : Cursor} {m : Machine} {stack : List Value}
  {code : Block} {span : Span} {content : Expr → Data} {target : Expr} {values : List Expr}
  {digests : Digests}

/-- The tuple of the listed values, the target, and the question whether it is among them. -/
theorem exists_brings_caseCondition (hP : Machine.Indifferent digests id P)
    (htarget : target.Yields digests P id (content target))
    (hvalues : ∀ x ∈ values, x.Yields digests P id (content x))
    (hcode : (caseCondition target values span).code true = .ok code) (hc : c.Stands code)
    (hm : m.Ready digests P id stack) :
    ∃ b r n, n.Ready digests P id (r :: stack) ∧ m.heap.Asked digests n.heap ∧ n.heap.kind r = .bool b ∧
      (b = true ↔ content target ∈ values.map content) ∧
        Brings digests id c m (c.skip code.length) n := by
  have htuple : (Expr.tuple span values).Yields digests P id (.tuple (values.map content)) :=
    Expr.yields_tuple hP hvalues
  unfold caseCondition at hcode
  rw [Expr.code] at hcode
  obtain ⟨tuple, htuple', hcode⟩ := bind_eq_ok hcode
  obtain ⟨subject, hsubject, hcode⟩ := bind_eq_ok hcode
  cases hcode
  rw [List.append_assoc, List.append_assoc] at hc
  obtain ⟨hc, hc'⟩ := hc.append
  obtain ⟨hc', hcontains⟩ := hc'.append
  obtain ⟨t, m₁, hm₁, ha₁, ht, hbrings₁⟩ := exists_brings htuple htuple' hc hm
  obtain ⟨v, m₂, hm₂, ha₂, hv, hbrings₂⟩ := exists_brings htarget hsubject hc' hm₁
  obtain ⟨last, hoperands⟩ := hm₂.operands
  obtain ⟨needed, b, r, k, hiff, hasked, hkind, hstep⟩ :=
    exists_step_contains hm₂.tidy hoperands (ha₂.sameContent ht) hv
  obtain ⟨n, hn, hheap, hbrings₃⟩ := exists_brings_of_step hP hcontains hm₂ hasked ⟨needed, hstep⟩
  rw [← hheap] at hkind
  refine ⟨b, r, n, hn, ha₁.trans (ha₂.trans (hheap ▸ hasked.onlyAsked.asked)), hkind, hiff, ?_⟩
  have hwhole := hbrings₁.trans (hbrings₂.trans hbrings₃)
  rw [Cursor.skip_skip, Cursor.skip_skip] at hwhole
  simpa [pushIf, Nat.add_assoc] using hwhole

/-- Popping a condition that is a Bool. -/
theorem exists_popCondition (span : Span) {b : Bool} {r : Value} (hP : Machine.Indifferent digests id P)
    (hm : m.Ready digests P id (r :: stack)) (hr : m.heap.kind r = .bool b) :
    ∃ n, n.Ready digests P id stack ∧ n.heap = m.heap ∧
      ∀ e : Engine, Run.located span (e.popCondition id) m = .ok b n := by
  obtain ⟨last, hoperands⟩ := hm.operands
  obtain ⟨n, hpop, hheap, honward⟩ := exists_pop hoperands
  refine ⟨n, honward.ready hP hm (hm.tidy.pop hpop hheap), hheap, fun e => ?_⟩
  have htruthy : e.truthy r n = .ok b n := by
    rw [truthy, kindOf_bind, hheap, hr]
    rfl
  simp only [located, popCondition, bind, EStateM.bind, hpop, htruthy]

/-- **Tests.** With enough fuel and steps, the test of a case comes to an answer without side effects:
whether the target says what one of the listed values says. -/
theorem exists_test_caseCondition (hP : Machine.Indifferent digests id P)
    (htarget : target.Yields digests P id (content target))
    (hvalues : ∀ x ∈ values, x.Yields digests P id (content x))
    (hcode : (caseCondition target values span).code true = .ok code)
    (hfits : code.length ≤ Text.maxCount) (hm : m.Ready digests P id stack) :
    ∃ b n needed, n.Ready digests P id stack ∧ m.heap.Asked digests n.heap ∧
      (b = true ↔ content target ∈ values.map content) ∧ ∀ fuel k, needed ≤ fuel → needed ≤ k →
        (withFuel fuel digests).test k id span (caseCondition target values span) m = .ok b n := by
  obtain ⟨b, r, n, hn, ha, hr, hiff, needed, hbrings⟩ := exists_brings_caseCondition hP htarget
    hvalues hcode (Cursor.stands_ofList hfits) hm
  obtain ⟨n', ⟨used, hused⟩, hlog⟩ := hbrings needed (Nat.le_refl _) m (.refl m)
  have hrun : (withFuel needed digests).dispatch (1 + used) id (.ofList code) m =
      .ok (.next ((Cursor.ofList code).skip code.length)) n' := by
    rw [hused, dispatch_end (Cursor.next?_skip_length code) 0]
  rw [← hlog.heap] at hr ha
  obtain ⟨k, hk, hheap, hpop⟩ := exists_popCondition span hP (hn.log hP hlog) hr
  refine ⟨b, k, max needed (1 + used), hk, hheap ▸ ha, hiff, fun fuel steps hfuel hsteps => ?_⟩
  have hmore : (withFuel fuel digests).dispatch steps id (.ofList code) m =
      (withFuel needed digests).dispatch (1 + used) id (.ofList code) m :=
    dispatch_withFuel_mono (by omega) (by omega) (by rw [hrun]; rfl)
  simp only [test, hcode, bind, EStateM.bind, hmore.trans hrun, hpop]

end ScriptVM.Engine

namespace ScriptVM

/-- The block that a switch selects, as the contents of the expressions have it: that of the first case
that lists a value with the content of the target, or the default block when there is none. -/
inductive Selects (content : Expr → Data) (target : Expr) (alternative : Option (List Node)) :
    List (CaseBlock Node) → Option (List Node) → Prop
  | here {values : List Expr} {body : List Node} {later : List (CaseBlock Node)} :
    (∃ x ∈ values, content x = content target) →
    Selects content target alternative (⟨values, body⟩ :: later) (some body)
  | later {values : List Expr} {body : List Node} {later : List (CaseBlock Node)}
    {chosen : Option (List Node)} : (∀ x ∈ values, content x ≠ content target) →
    Selects content target alternative later chosen →
    Selects content target alternative (⟨values, body⟩ :: later) chosen
  | default : Selects content target alternative [] alternative

section switch

open Run Engine

variable {P : Machine → Prop} {id : FrameId} {c : Cursor} {t : LoopTargets} {m n : Machine}
  {stack : List Value} {code : Block} {span : Span} {s : Surroundings} {content : Expr → Data}
  {target : Expr} {cases : List (CaseBlock Node)} {alternative chosen : Option (List Node)}
  {guards : List (Block × Block)} {otherwise : Block} {digests : Digests}

/-- A selected block has code when the switch has. -/
theorem Selects.exists_code (h : Selects content target alternative cases chosen)
    (hcases : casesCode s target span cases = .ok guards)
    (halternative : optionalCode s alternative = .ok otherwise) :
    ∃ code, optionalCode s chosen = .ok code := by
  induction h generalizing guards with
  | default => exact ⟨otherwise, halternative⟩
  | here =>
    simp only [casesCode, caseCode] at hcases
    obtain ⟨guard, hguard, -⟩ := bind_eq_ok hcases
    obtain ⟨condition, hcondition, hguard⟩ := bind_eq_ok hguard
    obtain ⟨body', hbody, -⟩ := bind_eq_ok hguard
    exact ⟨body', hbody⟩
  | later _ _ ih =>
    simp only [casesCode] at hcases
    obtain ⟨first, hfirst, hcases⟩ := bind_eq_ok hcases
    obtain ⟨later, hlater, -⟩ := bind_eq_ok hcases
    exact ih hlater

/-- Running the cases comes to running the selected block. -/
theorem Engine.exists_execCases (hP : Machine.Indifferent digests id P)
    (htarget : target.Yields digests P id (content target))
    (hvalues : ∀ block ∈ cases, ∀ x ∈ block.values, x.Yields digests P id (content x))
    (hcases : casesCode s target span cases = .ok guards)
    (hfits : (chainCode span false guards otherwise).length ≤ Text.maxCount)
    (hm : m.Ready digests P id stack) :
    ∃ chosen n needed, Selects content target alternative cases chosen ∧ n.Ready digests P id stack ∧
      m.heap.Asked digests n.heap ∧ ∀ fuel k, needed ≤ fuel → needed ≤ k →
        execCases (withFuel fuel digests) k id s span target
          (execOptional (withFuel fuel digests) k id s alternative)
          cases m = execOptional (withFuel fuel digests) k id s chosen n := by
  induction cases generalizing m guards with
  | nil => exact ⟨alternative, m, 0, .default, hm, .refl _, fun _ _ _ _ => rfl⟩
  | cons block rest ih =>
    obtain ⟨values, body⟩ := block
    simp only [casesCode, caseCode] at hcases
    obtain ⟨guard, hguard, hcases⟩ := bind_eq_ok hcases
    obtain ⟨later, hlater, hcases⟩ := bind_eq_ok hcases
    obtain ⟨condition, hcondition, hguard⟩ := bind_eq_ok hguard
    obtain ⟨body', hbody, hguard⟩ := bind_eq_ok hguard
    cases hcases
    cases hguard
    simp only [chainCode, choiceCode, List.length_append] at hfits
    rw [List.forall_mem_cons] at hvalues
    obtain ⟨b, n, needed, hn, ha, hiff, htest⟩ := exists_test_caseCondition hP htarget hvalues.1
      hcondition (by omega) hm
    rw [List.mem_map] at hiff
    cases b with
    | true =>
      refine ⟨some body, n, needed, .here (hiff.1 rfl), hn, ha, fun fuel k hfuel hk => ?_⟩
      simp only [execCases, execCase, bind, EStateM.bind, htest fuel k hfuel hk, if_true, execOptional]
    | false =>
      obtain ⟨chosen, n', needed', hselects, hn', ha', hruns⟩ :=
        ih hvalues.2 hlater (by omega) hn
      have hnone : ∀ x ∈ values, content x ≠ content target := fun x hx heq =>
        Bool.false_ne_true (hiff.2 ⟨x, hx, heq⟩)
      refine ⟨chosen, n', max needed needed', .later hnone hselects, hn', ha.trans ha',
        fun fuel k hfuel hk => ?_⟩
      simp only [execCases, execCase, bind, EStateM.bind, htest fuel k (by omega) (by omega),
        Bool.false_eq_true, if_false]
      exact hruns fuel k (by omega) (by omega)

/-- Code that keeps up with one family of computations keeps up with what comes to the same from some
bound on. -/
theorem Engine.Keeps.of_eventually {α : Type} {e : Engine} {goal : α → Goal} {x y : Nat → Run α}
    (h : e.Keeps id c goal x) (hx : Grows x) (hy : Grows y)
    (heq : ∃ needed, ∀ k, needed ≤ k → x k m = y k n) :
    (∀ k, e.Reaches id c m goal (y k n)) ∧ ((∀ k, hasEnded (y k n) = false) → e.Starves id c m) := by
  obtain ⟨needed, heq⟩ := heq
  constructor
  · intro k
    by_cases hended : hasEnded (y k n) = true
    · rw [← hy (Nat.le_max_left k needed) hended, ← heq _ (Nat.le_max_right k needed)]
      exact h.reaches _ m m (.refl m)
    · generalize y k n = r at hended
      match r with
      | .error (.gaveUp _) _ => trivial
      | .error (.failed _) _ | .ok _ _ => exact absurd rfl hended
  · intro hnone
    refine h.starves m m (.refl m) fun k => Bool.eq_false_iff.2 fun hended => ?_
    have hmore := hx (Nat.le_max_left k needed) hended
    rw [heq _ (Nat.le_max_right k needed)] at hmore
    have hfalse := hnone (max k needed)
    rw [hmore, hended] at hfalse
    cases hfalse

/-- Let the target and the listed values of a switch come to data without side effects. Then the code of
the switch, wherever it stands, does what the block does that is selected by the contents of the
expressions, and nothing else: until then things were only asked, and when that block comes to an end
or fails, so does the code, and when it runs on, so does the code. Contents are the same exactly when
`==` finds the values equal. -/
theorem Engine.switch_selects (hP : Machine.Indifferent digests id P)
    (htarget : target.Yields digests P id (content target))
    (hvalues : ∀ block ∈ cases, ∀ x ∈ block.values, x.Yields digests P id (content x))
    (hcode : (Node.switch span target cases alternative).code s = .ok code) (hc : c.Holds t code)
    (hm : m.Ready digests P id stack) :
    (∀ (k : Machine) (x : Expr) (v w : Value), k.Tidy digests → k.heap.Says v (content x) →
      k.heap.Says w (content target) → (k.Equates digests v w ↔ content x = content target)) ∧
    ∃ chosen n needed, Selects content target alternative cases chosen ∧ n.Ready digests P id stack ∧
      m.heap.Asked digests n.heap ∧ ∀ fuel, needed ≤ fuel →
        (∀ k, (withFuel fuel digests).Reaches id c m (Signal.goal (c.skip code.length) t)
          (execOptional (withFuel fuel digests) k id s chosen n)) ∧
        ((∀ k, hasEnded (execOptional (withFuel fuel digests) k id s chosen n) = false) →
          (withFuel fuel digests).Starves id c m) := by
  refine ⟨fun k x v w hk hv hw => hk.settled.equates_iff hk.counts hv hw, ?_⟩
  have hwhole := hcode
  simp only [Node.code] at hcode
  obtain ⟨guards, hcases, hcode⟩ := bind_eq_ok hcode
  obtain ⟨otherwise, halternative, hcode⟩ := bind_eq_ok hcode
  cases hcode
  have hfits := Nat.le_trans (Nat.le_trans (Nat.le_add_left _ _) hc.inside) hc.fits
  obtain ⟨chosen, n, needed, hselects, hn, ha, hruns⟩ :=
    exists_execCases hP htarget hvalues hcases hfits hm
  obtain ⟨body, hbody⟩ := hselects.exists_code hcases halternative
  refine ⟨chosen, n, needed, hselects, hn, ha, fun fuel hfuel => ?_⟩
  have hfaithful : (withFuel fuel digests).Faithful id _ _ :=
    Node.faithful (isQuiet_withFuel digests fuel) _ hwhole
  have hchosen : (withFuel fuel digests).Faithful id body _ :=
    execOptional_faithful (isQuiet_withFuel digests fuel) chosen hbody
  refine (hfaithful.keeps hc).of_eventually hfaithful.grows hchosen.grows ⟨needed, fun k hk => ?_⟩
  simp only [Node.exec]
  exact hruns fuel k hfuel hk

/-- On a new machine, a switch on `"a"` passes by a case that lists `"abc"`, and the one that lists `"a"`
runs. -/
theorem Engine.switch_selects_whole_text :
    let target : Expr := .string ⟨some 1⟩ "a"
    let cases : List (CaseBlock Node) := [⟨[.string ⟨some 2⟩ "abc"], [.pass ⟨some 3⟩]⟩,
      ⟨[.string ⟨some 4⟩ "b", .string ⟨some 4⟩ "a"], [.pass ⟨some 5⟩]⟩]
    ∃ code, (Node.switch ⟨some 1⟩ target cases none).code .inFunction = .ok code ∧
      ∃ n needed, (Machine.new default).heap.Asked .standard n.heap ∧ ∀ fuel k, needed ≤ fuel →
        (withFuel fuel .standard).Reaches ⟨0⟩ (.ofList code) (.new default)
          (Signal.goal ((Cursor.ofList code).skip code.length) ⟨.ofList [], .ofList [], .ofList []⟩)
          (execBlock (withFuel fuel .standard) k ⟨0⟩ .inFunction [.pass ⟨some 5⟩] n) := by
  intro target cases
  refine ⟨_, rfl, ?_⟩
  have hP : Machine.Indifferent .standard ⟨0⟩ ((Machine.new default).OnlyAsked .standard ⟨0⟩) :=
    fun _ _ hm hn => hm.trans hn
  let content : Expr → Data := fun x => x.constant?.getD .none
  have hliteral : ∀ span text,
    (Expr.string span text).Yields .standard ((Machine.new default).OnlyAsked .standard ⟨0⟩) ⟨0⟩
      (content (.string span text)) := fun span text => Expr.yields_constant hP rfl
  have hvalues : ∀ block ∈ cases, ∀ x ∈ block.values,
      x.Yields .standard ((Machine.new default).OnlyAsked .standard ⟨0⟩) ⟨0⟩ (content x) := by
    simp [cases, hliteral]
  have hoperands : ∃ last, (Machine.new default).HasOperands ⟨0⟩ [] last := by
    have hlive : ((Machine.new default).arena.get? ⟨0⟩).map Frame.stack = some [] := by decide +kernel
    obtain ⟨f, hf, hs⟩ := Option.map_eq_some_iff.1 hlive
    exact ⟨f.last, f, hf, hs, rfl⟩
  have hready :
    (Machine.new default).Ready .standard ((Machine.new default).OnlyAsked .standard ⟨0⟩) ⟨0⟩ [] :=
    ⟨.refl _ _, Machine.tidy_new default, hoperands⟩
  have hcode : (Node.switch ⟨some 1⟩ target cases none).code .inFunction = .ok _ := rfl
  obtain ⟨-, chosen, n, needed, hselects, -, ha, hruns⟩ := Engine.switch_selects hP
    (hliteral _ _) hvalues hcode ((Cursor.stands_ofList (by decide)).holds (by decide) _) hready
  have hchosen : chosen = some [.pass ⟨some 5⟩] := by
    dsimp only [cases] at hselects
    cases hselects with
    | here h => simp [content, Expr.constant?] at h
    | later _ hselects =>
      cases hselects with
      | here => rfl
      | later h => exact absurd rfl (h (.string ⟨some 4⟩ "a") (by simp))
  subst hchosen
  exact ⟨n, needed, ha, fun fuel k hfuel => (hruns fuel hfuel).1 k⟩

end switch
end ScriptVM
