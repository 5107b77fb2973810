import ScriptVM.Lowering.Statement
import ScriptVM.Machine.Execution
import ScriptVM.Proofs.Statement.Holding
import ScriptVM.Proofs.Statement.Inline

/-!
# Loops keep up

The code of a loop keeps up with the loop when its test and its body do. A loop that never ends
starves the code: every round of it takes a step at least.
-/

/-! ## Structured execution

The meaning of statements by recursion over them. Simple statements and conditions run as blocks of
their own; branches, loops and loop controls are followed without any jump. A bound limits the steps
of each block and the rounds of each loop.
-/

namespace ScriptVM

open Run

/-- How a statement ends, unless it fails. -/
inductive Signal where
  | normal
  /-- The innermost loop is to be left. -/
  | broke
  /-- The innermost loop is to go to its test. -/
  | continued
  /-- The body of the innermost loop is to run again. -/
  | redid
  /-- The running body is left with a value. -/
  | left (v : Value)

/-- How a block of its own has ended. -/
def Flow.signal : Flow → Signal
  | .next _ => .normal
  | .leave v _ => .left v

namespace Engine

/-- Runs a block that has been made into code. A block that has no code does not run. -/
def runBlock (e : Engine) (k : Nat) (id : FrameId) : Except CompileError Block → Run Signal
  | .ok code => do return (← e.dispatch k id (.ofList code)).signal
  | .error _ => giveUp

/-- Runs a condition as a block of its own, and tells whether its value counts as true. -/
def test (e : Engine) (k : Nat) (id : FrameId) (span : Span) (condition : Expr) : Run Bool :=
  match condition.code true with
  | .ok code => do
    let _ ← e.dispatch k id (.ofList code)
    located span (e.popCondition id)
  | .error _ => giveUp

end Engine

/-- Runs one thing after another, unless the first one ends in a special way. -/
def Run.andThen (first later : Run Signal) : Run Signal := do
  match ← first with
  | .normal => later
  | signal => return signal

/-- How a loop goes on after its body: from the test or from the body on, or not at all. -/
def Signal.afterBody (again : Bool → Run Signal) : Signal → Run Signal
  | .normal | .continued => again true
  | .broke => return .normal
  | .redid => again false
  | .left v => return .left v

/-- A loop in at most so many rounds, from its test on or from its body on. -/
def Run.loop (test : Run Bool) (body : Run Signal) : Nat → Bool → Run Signal
  | 0, _ => giveUp
  | rounds + 1, true => do
    if ← test then Run.loop test body rounds false else return .normal
  | rounds + 1, false => do (← body).afterBody (Run.loop test body rounds)

mutual

/-- Executes a node in a frame. What has no control flow of its own is simple. -/
def Node.exec (e : Engine) (k : Nat) (id : FrameId) (s : Surroundings) : Node → Run Signal
  | .conditional span inverted first others alternative =>
    execBranch e k id s span inverted
      (execBranches e k id s span (execOptional e k id s alternative) others) first
  | .switch span target cases alternative =>
    execCases e k id s span target (execOptional e k id s alternative) cases
  | .loop span inverted condition body =>
    Run.loop (do return (← e.test k id span condition) != inverted)
      (execBlock e k id s.insideLoop body) k true
  | .doWhile span body condition =>
    Run.loop (e.test k id span condition) (execBlock e k id s.insideLoop body) k false
  | .redoLoop _ => return .redid
  | .continueLoop _ => return .continued
  | .breakLoop _ => return .broke
  | simple => e.runBlock k id (simple.code s)

/-- Executes the nodes of a block one after the other. -/
def execBlock (e : Engine) (k : Nat) (id : FrameId) (s : Surroundings) : List Node → Run Signal
  | [] => return .normal
  | node :: rest => Run.andThen (node.exec e k id s) (execBlock e k id s rest)

/-- Executes a block that may be absent. -/
def execOptional (e : Engine) (k : Nat) (id : FrameId) (s : Surroundings) :
    Option (List Node) → Run Signal
  | some block => execBlock e k id s block
  | none => return .normal

/-- Executes a guarded block when its guard holds, or fails if it is inverted. -/
def execBranch (e : Engine) (k : Nat) (id : FrameId) (s : Surroundings) (span : Span)
    (inverted : Bool) (otherwise : Run Signal) : Branch Node → Run Signal
  | ⟨condition, body⟩ => do
    if (← e.test k id span condition) != inverted then execBlock e k id s body else otherwise

/-- Executes the first block whose guard holds. -/
def execBranches (e : Engine) (k : Nat) (id : FrameId) (s : Surroundings) (span : Span)
    (otherwise : Run Signal) : List (Branch Node) → Run Signal
  | [] => otherwise
  | branch :: rest =>
    execBranch e k id s span false (execBranches e k id s span otherwise rest) branch

/-- Executes the block of a case that lists a value equal to the target. -/
def execCase (e : Engine) (k : Nat) (id : FrameId) (s : Surroundings) (span : Span)
    (target : Expr) (otherwise : Run Signal) : CaseBlock Node → Run Signal
  | ⟨values, body⟩ => do
    if ← e.test k id span (caseCondition target values span) then execBlock e k id s body
    else otherwise

/-- Executes the block of the first such case. -/
def execCases (e : Engine) (k : Nat) (id : FrameId) (s : Surroundings) (span : Span)
    (target : Expr) (otherwise : Run Signal) : List (CaseBlock Node) → Run Signal
  | [] => otherwise
  | block :: rest =>
    execCase e k id s span target (execCases e k id s span target otherwise rest) block

end

end ScriptVM

namespace ScriptVM

/-- Where code goes on after a statement of a loop. -/
def Signal.goal (after : Cursor) (t : LoopTargets) : Signal → Goal
  | .normal => .at 0 after
  | .broke => .at 1 t.exit
  | .continued => .at 1 t.test
  | .redid => .at 1 t.body
  | .left v => .left v

/-- Where code goes on after a test. -/
def testGoal (yes no : Cursor) (b : Bool) : Goal := .at 1 (if b then yes else no)

section loop

variable {e : Engine} {id : FrameId} {test : Nat → Run Bool} {body : Nat → Run Signal}

/-- More rounds, and more steps in each of them, do not change the end of a loop. -/
theorem Run.loop_mono (htest : Grows test) (hbody : Grows body) {k k' rounds rounds' : Nat}
    {b : Bool} {m : Machine} (hk : k ≤ k') (hrounds : rounds ≤ rounds')
    (hend : hasEnded (Run.loop (test k) (body k) rounds b m) = true) :
    Run.loop (test k') (body k') rounds' b m = Run.loop (test k) (body k) rounds b m := by
  induction rounds generalizing rounds' b m with
  | zero => cases hend
  | succ rounds ih =>
    cases rounds' with
    | zero => omega
    | succ rounds' =>
      have hle := Nat.le_of_succ_le_succ hrounds
      cases b with
      | true =>
        refine Run.bind_eq_of_ended (htest hk) (fun a m' h => ?_) hend
        cases a with
        | true => exact ih hle h
        | false => rfl
      | false =>
        refine Run.bind_eq_of_ended (hbody hk) (fun a m' h => ?_) hend
        cases a with
        | normal => exact ih hle h
        | broke => rfl
        | continued => exact ih hle h
        | redid => exact ih hle h
        | left v => rfl

theorem Run.grows_loop (htest : Grows test) (hbody : Grows body) (b : Bool) :
    Grows fun k => Run.loop (test k) (body k) k b :=
  fun _ _ _ hle hend => Run.loop_mono htest hbody hle hle hend

/-- The places of a loop in its code: where it tests, where its body begins and ends, and where it
ends itself. -/
structure LoopPlaces where
  test : Cursor
  body : Cursor
  after : Cursor
  exit : Cursor

/-- Where a loop is at the beginning of a round. -/
def LoopPlaces.start (places : LoopPlaces) (b : Bool) : Cursor :=
  if b then places.test else places.body

/-- Test and body of a loop keep up, and behind the body code leads to the test. -/
structure Engine.KeepsRounds (e : Engine) (id : FrameId) (places : LoopPlaces)
    (test : Nat → Run Bool) (body : Nat → Run Signal) : Prop where
  keepsTest : e.Keeps id places.test (testGoal places.body places.exit) test
  keepsBody : e.Keeps id places.body
    (Signal.goal places.after ⟨places.exit, places.after, places.body⟩) body
  back : ∀ m : Machine, ∃ m' : Machine, e.LeadsIn id 0 places.after m places.test m' ∧
    m'.SameButLog m
  growsTest : Grows test
  growsBody : Grows body

variable {places : LoopPlaces} {t : LoopTargets} {m n : Machine} {b : Bool}

theorem Engine.KeepsRounds.reaches (h : e.KeepsRounds id places test body) (k rounds : Nat)
    (hmn : m.SameButLog n) :
    e.Reaches id (places.start b) m (Signal.goal places.exit t)
      (Run.loop (test k) (body k) rounds b n) := by
  induction rounds generalizing b m n with
  | zero => trivial
  | succ rounds ih =>
    cases b with
    | true =>
      have hr := h.keepsTest.reaches k m n hmn
      cases hk : test k n with
      | error stop n' =>
        rw [hk] at hr
        rw [Run.loop, Run.bind_of_error hk]
        cases stop with
        | failed f => exact hr
        | gaveUp => trivial
      | ok a n' =>
        rw [hk] at hr
        rw [Run.loop, Run.bind_of_ok hk]
        obtain ⟨m', hleads, hsame⟩ := hr
        cases a with
        | true => exact hleads.reaches (ih (b := false) hsame)
        | false => exact ⟨m', hleads.mono (Nat.zero_le _), hsame⟩
    | false =>
      have hr := h.keepsBody.reaches k m n hmn
      cases hk : body k n with
      | error stop n' =>
        rw [hk] at hr
        rw [Run.loop, Run.bind_of_error hk]
        cases stop with
        | failed f => exact hr
        | gaveUp => trivial
      | ok a n' =>
        rw [hk] at hr
        rw [Run.loop, Run.bind_of_ok hk]
        have htest : ∀ {least : Nat} {m' : Machine},
            e.LeadsIn id least places.body m places.after m' → m'.SameButLog n' →
            e.Reaches id places.body m (Signal.goal places.exit t)
              (Run.loop (test k) (body k) rounds true n') := by
          intro least m' hleads hsame
          obtain ⟨m'', hback, hsame'⟩ := h.back m'
          exact hleads.reaches (hback.reaches (ih (b := true) (hsame'.trans hsame)))
        cases a with
        | normal =>
          obtain ⟨m', hleads, hsame⟩ := hr
          exact htest hleads hsame
        | continued =>
          obtain ⟨m', hleads, hsame⟩ := hr
          exact htest hleads hsame
        | broke =>
          obtain ⟨m', hleads, hsame⟩ := hr
          exact ⟨m', hleads.mono (Nat.zero_le _), hsame⟩
        | redid =>
          obtain ⟨m', hleads, hsame⟩ := hr
          exact hleads.reaches (ih (b := false) hsame)
        | left v => exact hr

/-- What follows a part of a loop goes on for ever when the loop does. -/
theorem Engine.KeepsRounds.diverges (h : e.KeepsRounds id places test body) {b' : Bool}
    {n' : Machine} {k₀ : Nat}
    (hdiverges : ∀ k, hasEnded (Run.loop (test k) (body k) k b n) = false)
    (hnext : ∀ k ≥ k₀, ∀ rounds, Run.loop (test k) (body k) (rounds + 1) b n =
      Run.loop (test k) (body k) rounds b' n') (k : Nat) :
    hasEnded (Run.loop (test k) (body k) k b' n') = false := by
  refine Bool.eq_false_iff.2 fun hend => ?_
  have hle : k ≤ max k k₀ + 1 := by omega
  have hmono := Run.loop_mono h.growsTest h.growsBody hle (Nat.le_max_left k k₀) hend
  have hfalse := hdiverges (max k k₀ + 1)
  rw [hnext _ (by omega), hmono, hend] at hfalse
  cases hfalse

theorem Engine.KeepsRounds.starves (h : e.KeepsRounds id places test body) (steps : Nat) :
    ∀ {b : Bool} {m n : Machine}, m.SameButLog n →
    (∀ k, hasEnded (Run.loop (test k) (body k) k b n) = false) →
    hasEnded (e.dispatch steps id (places.start b) m) = false := by
  induction steps using Nat.strongRecOn with
  | ind steps ih =>
    -- A step at least is taken from the test to the body, and from a redo to the body again.
    have hbody : ∀ {c : Cursor} {m m' n' : Machine}, e.LeadsIn id 1 c m places.body m' →
        m'.SameButLog n' → (∀ k, hasEnded (Run.loop (test k) (body k) k false n') = false) →
        hasEnded (e.dispatch steps id c m) = false := by
      intro c m m' n' hleads hsame hdiverges
      cases steps with
      | zero => rfl
      | succ steps =>
        refine Bool.eq_false_iff.2 fun hend => ?_
        have hfalse := ih steps (Nat.lt_succ_self _) (b := false) hsame hdiverges
        rw [LoopPlaces.start, if_neg Bool.false_ne_true, hleads.hasEnded hend] at hfalse
        cases hfalse
    have htest : ∀ {m n : Machine}, m.SameButLog n →
        (∀ k, hasEnded (Run.loop (test k) (body k) k true n) = false) →
        hasEnded (e.dispatch steps id places.test m) = false := by
      intro m n hmn hdiverges
      rcases h.growsTest.ends_or_not n with ⟨k, hk, hstays⟩ | hnone
      · have hr := h.keepsTest.reaches k m n hmn
        cases hend : test k n with
        | error stop n' =>
          have hfalse := hdiverges (k + 1)
          have hmore : test (k + 1) n = .error stop n' := by rw [hstays _ (Nat.le_succ k), hend]
          rw [Run.loop, Run.bind_of_error hmore, hasEnded_error stop n' (β := Bool), ← hend, hk]
            at hfalse
          cases hfalse
        | ok a n' =>
          rw [hend] at hr hstays
          have hnext : ∀ k' ≥ k, ∀ rounds, Run.loop (test k') (body k') (rounds + 1) true n =
              (if a then Run.loop (test k') (body k') rounds false else pure .normal) n' := by
            intro k' hle rounds
            rw [Run.loop, Run.bind_of_ok (hstays k' hle)]
          obtain ⟨m', hleads, hsame⟩ := hr
          cases a with
          | true => exact hbody hleads hsame (h.diverges hdiverges hnext)
          | false =>
            have hfalse := hdiverges (k + 1)
            rw [hnext _ (Nat.le_succ k)] at hfalse
            cases hfalse
      · exact h.keepsTest.starves m n hmn hnone steps
    intro b m n hmn hdiverges
    cases b with
    | true => exact htest hmn hdiverges
    | false =>
      rcases h.growsBody.ends_or_not n with ⟨k, hk, hstays⟩ | hnone
      · have hr := h.keepsBody.reaches k m n hmn
        cases hend : body k n with
        | error stop n' =>
          have hfalse := hdiverges (k + 1)
          have hmore : body (k + 1) n = .error stop n' := by rw [hstays _ (Nat.le_succ k), hend]
          rw [Run.loop, Run.bind_of_error hmore, hasEnded_error stop n' (β := Signal), ← hend, hk]
            at hfalse
          cases hfalse
        | ok a n' =>
          rw [hend] at hr hstays
          have hback : ∀ {least : Nat} {m' : Machine},
              e.LeadsIn id least places.body m places.after m' → m'.SameButLog n' →
              (∀ k, hasEnded (Run.loop (test k) (body k) k true n') = false) →
              hasEnded (e.dispatch steps id places.body m) = false := by
            intro least m' hleads hsame hdiverges'
            obtain ⟨m'', hback, hsame'⟩ := h.back m'
            refine Bool.eq_false_iff.2 fun hended => ?_
            have hfalse := htest (hsame'.trans hsame) hdiverges'
            rw [((hleads.mono (Nat.zero_le _)).trans hback).hasEnded hended] at hfalse
            cases hfalse
          have hnext : ∀ k' ≥ k, ∀ rounds, Run.loop (test k') (body k') (rounds + 1) false n =
              a.afterBody (Run.loop (test k') (body k') rounds) n' := by
            intro k' hle rounds
            rw [Run.loop, Run.bind_of_ok (hstays k' hle)]
          have hlast := hnext (k + 1) (Nat.le_succ k) k
          cases a with
          | normal =>
            obtain ⟨m', hleads, hsame⟩ := hr
            exact hback hleads hsame (h.diverges hdiverges hnext)
          | continued =>
            obtain ⟨m', hleads, hsame⟩ := hr
            exact hback hleads hsame (h.diverges hdiverges hnext)
          | broke =>
            have hfalse := hdiverges (k + 1)
            rw [hlast] at hfalse
            cases hfalse
          | redid =>
            obtain ⟨m', hleads, hsame⟩ := hr
            exact hbody hleads hsame (h.diverges hdiverges hnext)
          | left v =>
            have hfalse := hdiverges (k + 1)
            rw [hlast] at hfalse
            cases hfalse
      · exact h.keepsBody.starves m n hmn hnone steps

/-- The code of a loop keeps up with the loop. -/
theorem Engine.KeepsRounds.keeps (h : e.KeepsRounds id places test body) (b : Bool)
    (t : LoopTargets) :
    e.Keeps id (places.start b) (Signal.goal places.exit t)
      fun k => Run.loop (test k) (body k) k b :=
  ⟨fun k _ _ hmn => h.reaches k k hmn, fun _ _ hmn hdiverges steps => h.starves steps hmn hdiverges⟩

end loop
end ScriptVM
