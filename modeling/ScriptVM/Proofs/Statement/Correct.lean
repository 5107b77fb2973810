import ScriptVM.Proofs.Code.Soundness
import ScriptVM.Proofs.Statement.Loop

/-!
# Code of statements keeps up with them

The code of a statement keeps up with its structured execution, wherever it stands and whatever
loops are around it.
-/
namespace ScriptVM

/-- The code of a statement keeps up with its execution wherever it stands. -/
structure Engine.Faithful (e : Engine) (id : FrameId) (code : Block) (x : Nat → Run Signal) :
    Prop where
  grows : Grows x
  keeps : ∀ {c : Cursor} {t : LoopTargets}, c.Holds t code →
    e.Keeps id c (Signal.goal (c.skip code.length) t) x

section correctness

variable {e : Engine} {id : FrameId} {c after : Cursor} {t : LoopTargets} {code a b : Block}
  {x y : Nat → Run Signal} {span : Span} {s : Surroundings}

/-! ## Jumps -/

theorem Engine.leads_jump (e : Engine) (id : FrameId) {offset : Nat} {line : Option Nat}
    (h : c.next? = some (⟨.jump offset, line⟩, after)) (m : Machine) :
    ∃ m' : Machine, e.LeadsIn id 1 c m (after.jump offset) m' ∧ m'.SameButLog m :=
  ⟨_, leadsIn_of_step h rfl, m.sameButLog_traced ..⟩

theorem Engine.leads_jumpBack (e : Engine) (id : FrameId) {offset : Nat} {line : Option Nat}
    {target : Cursor} (h : c.next? = some (⟨.jumpBack offset, line⟩, after))
    (htarget : after.jumpBack? offset = some target) (m : Machine) :
    ∃ m' : Machine, e.LeadsIn id 1 c m target m' ∧ m'.SameButLog m := by
  have hstep : ∀ n, e.step id after (.jumpBack offset) n = .ok (.next target) n := by
    intro n
    simp only [Engine.step, Engine.goBack, htarget]
    rfl
  exact ⟨_, leadsIn_of_step h (hstep _), m.sameButLog_traced _ _⟩

/-- Code that only leads on keeps up with a value that says so. -/
theorem Engine.keeps_of_leads {α : Type} {goal : α → Goal} {v : α} {least : Nat} {c' : Cursor}
    (hgoal : goal v = .at least c')
    (h : ∀ m : Machine, ∃ m' : Machine, e.LeadsIn id least c m c' m' ∧ m'.SameButLog m) :
    e.Keeps id c goal fun _ => pure v where
  reaches := by
    intro _ m n hmn
    obtain ⟨m', hleads, hsame⟩ := h m
    simp only [Pure.pure, EStateM.pure, Engine.Reaches, hgoal]
    exact ⟨m', hleads, hsame.trans hmn⟩
  starves := by
    intro m n _ hdiverges
    have hfalse := hdiverges 0
    cases hfalse

/-- Code that goes on at its end may be followed by a jump. -/
theorem Engine.Keeps.followed {after' : Cursor} (h : e.Keeps id c (Signal.goal after t) x)
    (hleads : ∀ m : Machine, ∃ m' : Machine, e.LeadsIn id 0 after m after' m' ∧ m'.SameButLog m) :
    e.Keeps id c (Signal.goal after' t) x where
  reaches := by
    intro k m n hmn
    have hr := h.reaches k m n hmn
    match x k n, hr with
    | .ok .normal n', ⟨m', hm', hsame⟩ =>
      obtain ⟨m'', hm'', hsame'⟩ := hleads m'
      exact ⟨m'', hm'.trans hm'', hsame'.trans hsame⟩
    | .ok .broke n', hr | .ok .continued n', hr | .ok .redid n', hr | .ok (.left v) n', hr => exact hr
    | .error (.failed f) n', hr => exact hr
    | .error (.gaveUp _) n', _ => trivial
  starves := h.starves

/-! ## Blocks and tests -/

/-- A simple statement keeps up with itself as a block of its own. -/
theorem Sound.faithful {mode : Mode} {entry stop : Nat} (h : Sound mode entry code stop)
    (hmode : mode.marked = false) (he : e.IsQuiet) :
    e.Faithful id code fun k => e.runBlock k id (.ok code) where
  grows := (Grows.dispatch e id _).bind fun _ => .const _
  keeps := by
    intro c t hc
    have hkeeps := h.keeps he id (hc.stands (h.unmarked hmode))
    refine hkeeps.bind (Grows.dispatch e id _) (fun _ => .const _) fun flow hgoal => .inl ?_
    refine ⟨flow.signal, ?_, fun _ => rfl⟩
    cases flow with
    | next c' => rfl
    | leave v c' =>
      have hnever : mode.exits ≠ .never := fun hnever => hgoal (if_pos hnever)
      simp only [Mode.goal, if_neg hnever]
      rfl

/-- An instruction that branches on a condition keeps up with the condition. -/
theorem Engine.keeps_branch {i : Instruction} {yes no : Cursor} (he : e.IsQuiet)
    (hnext : c.next? = some (i, after))
    (hstep : e.step id after i.op = do
      if ← e.popCondition id then return .next yes else return .next no) :
    e.Keeps id c (testGoal yes no) fun _ => Run.located i.span (e.popCondition id) where
  reaches := by
    intro _ m n hmn
    have hquiet := he.popCondition id (m.traced c.index i) n ((m.sameButLog_traced _ i).trans hmn)
    simp only [Run.located]
    generalize hm : e.popCondition id (m.traced c.index i) = r at hquiet
    generalize e.popCondition id n = s at hquiet ⊢
    cases hquiet with
    | ok b hsame =>
      refine ⟨_, leadsIn_of_step hnext ?_, hsame⟩
      rw [hstep, Run.bind_of_ok hm]
      cases b <;> rfl
    | failed f hsame =>
      refine ⟨_, ends_of_failure hnext ?_, hsame⟩
      rw [hstep, Run.bind_of_error hm]
    | gaveUp => trivial
  starves := by
    intro m n hmn hdiverges
    have hquiet := he.popCondition id (m.traced c.index i) n ((m.sameButLog_traced _ i).trans hmn)
    have hn := hdiverges 0
    simp only [Run.located] at hn
    generalize hm : e.popCondition id (m.traced c.index i) = r at hquiet
    generalize e.popCondition id n = s at hquiet hn
    cases hquiet with
    | ok b hsame => cases hn
    | failed f hsame => cases hn
    | gaveUp => exact starves_of_step hnext (by rw [hstep, Run.bind_of_error hm])

theorem Engine.grows_test (e : Engine) (id : FrameId) (span : Span) (condition : Expr) :
    Grows fun k => e.test k id span condition := by
  unfold Engine.test
  cases condition.code true with
  | ok code => exact (Grows.dispatch e id _).bind fun _ => .const _
  | error => exact .const _

/-- The code of a condition with a branch behind it keeps up with the test. -/
theorem Engine.keeps_test {condition : Expr} {op : Op} {yes no : Cursor} (he : e.IsQuiet)
    (id : FrameId) (hcode : condition.code true = .ok code) (hc : c.Stands (code ++ [op.at span]))
    (hstep : e.step id (c.skip (code.length + 1)) op = do
      if ← e.popCondition id then return .next yes else return .next no) :
    e.Keeps id c (testGoal yes no) fun k => e.test k id span condition := by
  obtain ⟨hcondition, hbranch⟩ := hc.append
  let mode : Mode := ⟨0, .never, false⟩
  have hsound : Sound mode 0 code 1 := Expr.sound condition (by simp [mode]) hcode
  have hnext := hbranch.here.next?
  rw [Cursor.skip_skip] at hnext
  unfold Engine.test
  rw [hcode]
  refine (hsound.keeps he id hcondition).bind (Grows.dispatch e id _)
    (fun _ => .const _) fun flow hgoal => ?_
  cases flow with
  | next c' => exact .inr ⟨0, _, rfl, keeps_branch he hnext hstep⟩
  | leave v c' => exact absurd rfl hgoal

theorem Engine.step_ifJump (e : Engine) (id : FrameId) (after : Cursor) (offset : Nat) :
    e.step id after (.ifJump offset) = do
      if ← e.popCondition id then return .next after else return .next (after.jump offset) := by
  refine bind_congr fun b => ?_
  cases b <;> rfl

theorem Engine.step_unlessJump (e : Engine) (id : FrameId) (after : Cursor) (offset : Nat) :
    e.step id after (.unlessJump offset) = do
      if ← e.popCondition id then return .next (after.jump offset) else return .next after := by
  refine bind_congr fun b => ?_
  cases b <;> rfl

theorem Engine.step_unlessJumpBack (e : Engine) (id : FrameId) {after target : Cursor} {offset : Nat}
    (h : after.jumpBack? offset = some target) :
    e.step id after (.unlessJumpBack offset) = do
      if ← e.popCondition id then return .next target else return .next after := by
  refine bind_congr fun b => ?_
  simp only [Engine.goBack, h]

/-- Where a forward branch on a condition goes on. -/
def forwardGoal (inverted : Bool) (next target : Cursor) (b : Bool) : Goal :=
  .at 1 (if b != inverted then next else target)

/-- A condition and a forward branch keep up with the test. -/
theorem Engine.keeps_forward {condition : Expr} {inverted : Bool} {skip : Nat} (he : e.IsQuiet)
    (id : FrameId) (hcode : condition.code true = .ok code)
    (hc : c.Stands (code ++ [(if inverted then Op.unlessJump skip else Op.ifJump skip).at span]))
    (hskip : c.index + (code.length + 1 + skip) ≤ Text.maxCount) :
    e.Keeps id c (forwardGoal inverted (c.skip (code.length + 1)) (c.skip (code.length + 1 + skip)))
      fun k => e.test k id span condition := by
  have hjump : (c.skip (code.length + 1)).jump skip = c.skip (code.length + 1 + skip) := by
    rw [Cursor.jump_eq_skip, Cursor.skip_skip]
    rw [Cursor.index_skip]
    omega
  cases inverted with
  | false =>
    have hc : c.Stands (code ++ [(Op.ifJump skip).at span]) := hc
    have hkeeps := keeps_test he id hcode hc (by rw [step_ifJump, hjump])
    exact hkeeps.congr fun b => by cases b <;> rfl
  | true =>
    have hc : c.Stands (code ++ [(Op.unlessJump skip).at span]) := hc
    have hkeeps := keeps_test he id hcode hc (by rw [step_unlessJump, hjump])
    exact hkeeps.congr fun b => by cases b <;> rfl

/-- The code of an expression has no marks. -/
theorem unmarked_of_code {condition : Expr} (hcode : condition.code true = .ok code) :
    ∀ i ∈ code, i.op.isLoopMark = false := by
  have hsound : Sound ⟨0, .never, false⟩ 0 code 1 := Expr.sound condition (by simp) hcode
  exact hsound.unmarked rfl

/-! ## Sequences, choices and loops -/

theorem Engine.Faithful.nil : e.Faithful id [] fun _ => pure .normal :=
  ⟨.const _, fun _ => Engine.keeps_pure rfl⟩

theorem Engine.Faithful.andThen (ha : e.Faithful id a x) (hb : e.Faithful id b y) :
    e.Faithful id (a ++ b) fun k => Run.andThen (x k) (y k) where
  grows := by
    refine ha.grows.bind fun signal => ?_
    cases signal <;> first | exact hb.grows | exact .const _
  keeps := by
    intro c t hc
    obtain ⟨hca, hcb⟩ := hc.append
    rw [List.length_append, ← Cursor.skip_skip]
    refine (ha.keeps hca).bind ha.grows (fun signal => ?_) fun signal _ => ?_
    · cases signal <;> first | exact hb.grows | exact .const _
    · cases signal with
      | normal => exact .inr ⟨0, _, rfl, hb.keeps hcb⟩
      | broke => exact .inl ⟨.broke, rfl, fun _ => rfl⟩
      | continued => exact .inl ⟨.continued, rfl, fun _ => rfl⟩
      | redid => exact .inl ⟨.redid, rfl, fun _ => rfl⟩
      | left v => exact .inl ⟨.left v, rfl, fun _ => rfl⟩

/-- A loop control. -/
theorem Engine.Faithful.mark {mark : Op} {signal : Signal}
    (hmark : mark = .breakMark ∧ signal = .broke ∨ mark = .continueMark ∧ signal = .continued ∨
      mark = .redoMark ∧ signal = .redid) :
    e.Faithful id [mark.at span] fun _ => pure signal where
  grows := .const _
  keeps := by
    intro c t hc
    obtain ⟨op, hnext, hop⟩ := hc.here 0 _ rfl
    rw [Cursor.skip_zero] at hnext
    rcases hmark with ⟨rfl, rfl⟩ | ⟨rfl, rfl⟩ | ⟨rfl, rfl⟩
    · obtain ⟨offset, rfl, htarget⟩ := hop.breaks rfl
      refine keeps_of_leads rfl fun m => ?_
      rw [← htarget]
      exact leads_jump e id hnext m
    · obtain ⟨offset, rfl, htarget⟩ := hop.continues rfl
      refine keeps_of_leads rfl fun m => ?_
      rw [← htarget]
      exact leads_jump e id hnext m
    · obtain ⟨offset, rfl, htarget⟩ := hop.redoes rfl
      exact keeps_of_leads rfl fun m => leads_jumpBack e id hnext htarget m

/-- The code of a choice between two pieces of code. -/
theorem Engine.Faithful.choice {condition : Expr} {condition' : Block} {inverted : Bool}
    (he : e.IsQuiet) (hcode : condition.code true = .ok condition') (ha : e.Faithful id a x)
    (hb : e.Faithful id b y) :
    e.Faithful id (choiceCode inverted condition' a b span) fun k => do
      if (← e.test k id span condition) != inverted then x k else y k where
  grows := by
    refine (e.grows_test id span condition).bind fun holds => ?_
    split
    · exact ha.grows
    · exact hb.grows
  keeps := by
    intro c t hc
    obtain ⟨hc, hcb⟩ := hc.append
    obtain ⟨hc, hjump⟩ := hc.append
    obtain ⟨hc, hca⟩ := hc.append
    have hunmarked := unmarked_of_code hcode
    have hstands := hc.stands fun i hi => by
      rcases List.mem_append.1 hi with hi | hi
      · exact hunmarked i hi
      · cases List.mem_singleton.1 hi
        cases inverted <;> rfl
    have hinside := hcb.inside
    have hfits := hcb.fits
    simp only [List.length_append, List.length_singleton, Cursor.index_skip, Cursor.toView_skip]
      at hca hjump hcb hinside hfits
    have hlength : (choiceCode inverted condition' a b span).length =
        condition'.length + 1 + a.length + 1 + b.length := by
      simp only [choiceCode, List.length_append, List.length_singleton]
    rw [hlength]
    have htest := keeps_forward he id hcode hstands (by omega)
    refine htest.bind (e.grows_test id span condition) (fun holds => ?_) fun holds _ => ?_
    · split
      · exact ha.grows
      · exact hb.grows
    · refine .inr ⟨1, _, rfl, ?_⟩
      obtain ⟨op, hnext, hop⟩ := hjump.here 0 _ rfl
      rw [hop.unmarked rfl, Cursor.skip_zero, Cursor.skip_skip] at hnext
      cases hholds : holds != inverted with
      | true =>
        simp only [hholds, if_true]
        have hkeeps := ha.keeps hca
        rw [Cursor.skip_skip] at hkeeps
        refine hkeeps.followed fun m => ?_
        obtain ⟨m', hleads, hsame⟩ := e.leads_jump id hnext m
        rw [Cursor.jump_eq_skip (by rw [Cursor.index_skip]; omega), Cursor.skip_skip] at hleads
        exact ⟨m', hleads.mono (Nat.zero_le _), hsame⟩
      | false =>
        simp only [hholds, Bool.false_eq_true, if_false]
        have hkeeps := hb.keeps hcb
        rw [Cursor.skip_skip] at hkeeps
        exact hkeeps

/-- The code of a loop that tests first. -/
theorem Engine.Faithful.testFirst {condition : Expr} {condition' body : Block} {inverted : Bool}
    (he : e.IsQuiet) (hcode : condition.code true = .ok condition')
    (hbody : e.Faithful id body x) :
    e.Faithful id (testFirstCode inverted condition' body span) fun k =>
      Run.loop (do return (← e.test k id span condition) != inverted) (x k) k true := by
  have hgrows : Grows fun k => do return (← e.test k id span condition) != inverted :=
    (e.grows_test id span condition).bind fun _ => .const _
  refine ⟨Run.grows_loop hgrows hbody.grows true, fun {c t} hc => ?_⟩
  have hunmarked := unmarked_of_code hcode
  have hstands := hc.stands fun i hi => by
    simp only [testFirstCode, List.mem_append, List.mem_singleton] at hi
    rcases hi with ((hi | rfl) | hi) | rfl
    · exact hunmarked i hi
    · cases inverted <;> rfl
    · exact LoopLayout.unmarked_resolveFrom _ _ _ i hi
    · rfl
  obtain ⟨hstands, hback⟩ := hstands.append
  obtain ⟨hstands, hresolved⟩ := hstands.append
  have hinside := hback.inside
  have hfits := hback.fits
  simp only [List.length_append, List.length_singleton, length_resolveFrom, Cursor.index_skip,
    Cursor.toView_skip] at hresolved hback hinside hfits
  have hlength : (testFirstCode inverted condition' body span).length =
      condition'.length + 1 + (body.length + 1) := by
    simp only [testFirstCode, List.length_append, List.length_singleton, length_resolveFrom]
    omega
  rw [hlength]
  have hholds := hresolved.resolve rfl (by
    simp only [LoopLayout.tail, Cursor.index_skip, Cursor.toView_skip, Bool.false_eq_true, if_false]
    omega)
  simp only [LoopLayout.tail, Bool.false_eq_true, if_false, Cursor.skip_skip] at hholds
  have hrounds : e.KeepsRounds id ⟨c, c.skip (condition'.length + 1),
      c.skip (condition'.length + 1 + body.length), c.skip (condition'.length + 1 + (body.length + 1))⟩
      (fun k => do return (← e.test k id span condition) != inverted) x := by
    refine ⟨?_, ?_, fun m => ?_, hgrows, hbody.grows⟩
    · have htest := keeps_forward he id hcode hstands (by omega)
      refine htest.bind (e.grows_test id span condition) (fun _ => .const _) fun holds _ => ?_
      exact .inl ⟨holds != inverted, rfl, fun _ => rfl⟩
    · have hkeeps := hbody.keeps hholds
      rwa [Cursor.skip_skip] at hkeeps
    · have hnext := hback.here.next?
      rw [Cursor.skip_skip] at hnext
      have hzero : condition'.length + 1 + body.length + 1 - (condition'.length + body.length + 2) =
          0 := by omega
      have htarget := Cursor.jumpBack?_skip (c := c)
        (show condition'.length + body.length + 2 ≤ condition'.length + 1 + body.length + 1 by omega)
      rw [hzero, Cursor.skip_zero] at htarget
      obtain ⟨m', hleads, hsame⟩ := e.leads_jumpBack id hnext htarget m
      exact ⟨m', hleads.mono (Nat.zero_le _), hsame⟩
  exact hrounds.keeps true t

/-- The code of a loop that tests last. -/
theorem Engine.Faithful.testLast {condition : Expr} {condition' body : Block} (he : e.IsQuiet)
    (hcode : condition.code true = .ok condition') (hbody : e.Faithful id body x) :
    e.Faithful id (testLastCode body condition' span) fun k =>
      Run.loop (e.test k id span condition) (x k) k false := by
  have hgrows := e.grows_test id span condition
  refine ⟨Run.grows_loop hgrows hbody.grows false, fun {c t} hc => ?_⟩
  have hunmarked := unmarked_of_code hcode
  have hstands := hc.stands fun i hi => by
    simp only [testLastCode, List.mem_append, List.mem_singleton] at hi
    rcases hi with (hi | hi) | rfl
    · exact LoopLayout.unmarked_resolveFrom _ _ _ i hi
    · exact hunmarked i hi
    · rfl
  rw [testLastCode, List.append_assoc] at hstands
  obtain ⟨hresolved, htest⟩ := hstands.append
  have hinside := htest.inside
  have hfits := htest.fits
  simp only [List.length_append, List.length_singleton, length_resolveFrom, Cursor.index_skip,
    Cursor.toView_skip] at htest hinside hfits
  have hlength : (testLastCode body condition' span).length =
      body.length + (condition'.length + 1) := by
    simp only [testLastCode, List.length_append, List.length_singleton, length_resolveFrom]
    omega
  rw [hlength]
  have hholds := hresolved.resolve rfl (by
    simp only [LoopLayout.tail, if_true]
    omega)
  simp only [LoopLayout.tail, if_true] at hholds
  have hrounds : e.KeepsRounds id ⟨c.skip body.length, c, c.skip body.length,
      c.skip (body.length + (condition'.length + 1))⟩ (fun k => e.test k id span condition) x := by
    refine ⟨?_, hbody.keeps hholds, fun m => ⟨m, Leads.refl.leadsIn, .refl m⟩, hgrows,
      hbody.grows⟩
    have hzero : body.length + (condition'.length + 1) - (body.length + condition'.length + 1) =
        0 := by omega
    have htarget := Cursor.jumpBack?_skip (c := c)
      (show body.length + condition'.length + 1 ≤ body.length + (condition'.length + 1) by omega)
    rw [hzero, Cursor.skip_zero] at htarget
    exact keeps_test he id hcode htest (by rw [Cursor.skip_skip, step_unlessJumpBack e id htarget])
  exact hrounds.keeps false t

/-! ## Statements -/

/-- A simple node runs as a block of its own. -/
theorem Node.faithful_simple {node : Node} (he : e.IsQuiet) (hcode : node.code s = .ok code)
    (hsimple : node.code ⟨false, s.inClass⟩ = node.code s)
    (hexec : ∀ k, node.exec e k id s = e.runBlock k id (node.code s)) :
    e.Faithful id code fun k => node.exec e k id s := by
  let mode : Mode := ⟨1, .anywhere, false⟩
  have hs : Surroundings.Suit ⟨false, s.inClass⟩ mode := ⟨rfl, nofun, fun _ => Nat.le_refl 1⟩
  have hsound := Node.sound node hs (hsimple.trans hcode)
  simp only [hexec, hcode]
  exact hsound.faithful rfl he

mutual

/-- The code of a node keeps up with its execution. -/
theorem Node.faithful (he : e.IsQuiet) : ∀ (node : Node) {s : Surroundings} {code : Block},
    node.code s = .ok code → e.Faithful id code fun k => node.exec e k id s
  | .conditional span inverted first others alternative, s, code, hcode => by
    simp only [Node.code] at hcode
    obtain ⟨first', hfirst, hcode⟩ := bind_eq_ok hcode
    obtain ⟨others', hothers, hcode⟩ := bind_eq_ok hcode
    obtain ⟨alternative', halternative, hcode⟩ := bind_eq_ok hcode
    cases hcode
    simp only [Node.exec]
    exact execBranch_faithful he first hfirst
      (execBranches_faithful he others hothers (execOptional_faithful he alternative halternative))
  | .switch span target cases alternative, s, code, hcode => by
    simp only [Node.code] at hcode
    obtain ⟨cases', hcases, hcode⟩ := bind_eq_ok hcode
    obtain ⟨alternative', halternative, hcode⟩ := bind_eq_ok hcode
    cases hcode
    simp only [Node.exec]
    exact execCases_faithful he cases hcases (execOptional_faithful he alternative halternative)
  | .loop span inverted condition body, s, code, hcode => by
    simp only [Node.code] at hcode
    obtain ⟨condition', hcondition, hcode⟩ := bind_eq_ok hcode
    obtain ⟨body', hbody, hcode⟩ := bind_eq_ok hcode
    cases hcode
    simp only [Node.exec]
    exact .testFirst he hcondition (execBlock_faithful he body hbody)
  | .doWhile span body condition, s, code, hcode => by
    simp only [Node.code] at hcode
    obtain ⟨body', hbody, hcode⟩ := bind_eq_ok hcode
    obtain ⟨condition', hcondition, hcode⟩ := bind_eq_ok hcode
    cases hcode
    simp only [Node.exec]
    exact .testLast he hcondition (execBlock_faithful he body hbody)
  | .redoLoop span, s, code, hcode => by
    simp only [Node.code, loopMarkCode] at hcode
    split at hcode
    · cases hcode
      exact .mark (.inr (.inr ⟨rfl, rfl⟩))
    · cases hcode
  | .continueLoop span, s, code, hcode => by
    simp only [Node.code, loopMarkCode] at hcode
    split at hcode
    · cases hcode
      exact .mark (.inr (.inl ⟨rfl, rfl⟩))
    · cases hcode
  | .breakLoop span, s, code, hcode => by
    simp only [Node.code, loopMarkCode] at hcode
    split at hcode
    · cases hcode
      exact .mark (.inl ⟨rfl, rfl⟩)
    · cases hcode
  | .expr x, s, code, hcode =>
    Node.faithful_simple he hcode (by simp only [Node.code]) fun k => by simp only [Node.exec]
  | .assign .., s, code, hcode =>
    Node.faithful_simple he hcode (by simp only [Node.code]) fun k => by simp only [Node.exec]
  | .forIn .., s, code, hcode =>
    Node.faithful_simple he hcode (by simp only [Node.code]) fun k => by simp only [Node.exec]
  | .pass _, s, code, hcode =>
    Node.faithful_simple he hcode (by simp only [Node.code]) fun k => by simp only [Node.exec]
  | .exit .., s, code, hcode =>
    Node.faithful_simple he hcode (by simp only [Node.code]) fun k => by simp only [Node.exec]
  | .raise .., s, code, hcode =>
    Node.faithful_simple he hcode (by simp only [Node.code]) fun k => by simp only [Node.exec]
  | .guarded .., s, code, hcode =>
    Node.faithful_simple he hcode (by simp only [Node.code]) fun k => by simp only [Node.exec]
  | .function _ ⟨_, _, _⟩, s, code, hcode =>
    Node.faithful_simple he hcode (by simp only [Node.code, declCode, functionCode]) fun k => by
      simp only [Node.exec]
  | .classDef .., s, code, hcode =>
    Node.faithful_simple he hcode (by simp only [Node.code]) fun k => by simp only [Node.exec]
  | .interfaceDef .., s, code, hcode =>
    Node.faithful_simple he hcode (by simp only [Node.code]) fun k => by simp only [Node.exec]
  | .moduleDef .., s, code, hcode =>
    Node.faithful_simple he hcode (by simp only [Node.code]) fun k => by simp only [Node.exec]

theorem execBlock_faithful (he : e.IsQuiet) : ∀ (block : List Node) {s : Surroundings} {code : Block},
    blockCode s block = .ok code → e.Faithful id code fun k => execBlock e k id s block
  | [], s, code, hcode => by
    cases hcode
    exact .nil
  | node :: rest, s, code, hcode => by
    simp only [blockCode] at hcode
    obtain ⟨first, hfirst, hcode⟩ := bind_eq_ok hcode
    obtain ⟨later, hlater, hcode⟩ := bind_eq_ok hcode
    cases hcode
    exact (Node.faithful he node hfirst).andThen (execBlock_faithful he rest hlater)

theorem execOptional_faithful (he : e.IsQuiet) :
    ∀ (block : Option (List Node)) {s : Surroundings} {code : Block},
    optionalCode s block = .ok code → e.Faithful id code fun k => execOptional e k id s block
  | some block, s, code, hcode => by
    simp only [optionalCode] at hcode
    exact execBlock_faithful he block hcode
  | none, s, code, hcode => by
    cases hcode
    exact .nil

theorem execBranch_faithful (he : e.IsQuiet) : ∀ (branch : Branch Node) {s : Surroundings} {span : Span}
    {inverted : Bool} {guard : Block × Block} {alternative : Block} {otherwise : Nat → Run Signal},
    branchCode s branch = .ok guard → e.Faithful id alternative otherwise →
    e.Faithful id (choiceCode inverted guard.1 guard.2 alternative span)
      fun k => execBranch e k id s span inverted (otherwise k) branch
  | ⟨condition, body⟩, s, span, inverted, guard, alternative, otherwise, hcode, halternative => by
    simp only [branchCode] at hcode
    obtain ⟨condition', hcondition, hcode⟩ := bind_eq_ok hcode
    obtain ⟨body', hbody, hcode⟩ := bind_eq_ok hcode
    cases hcode
    exact .choice he hcondition (execBlock_faithful he body hbody) halternative

theorem execBranches_faithful (he : e.IsQuiet) :
    ∀ (branches : List (Branch Node)) {s : Surroundings} {span : Span}
    {guards : List (Block × Block)} {alternative : Block} {otherwise : Nat → Run Signal},
    branchesCode s branches = .ok guards → e.Faithful id alternative otherwise →
    e.Faithful id (chainCode span false guards alternative)
      fun k => execBranches e k id s span (otherwise k) branches
  | [], s, span, guards, alternative, otherwise, hcode, halternative => by
    cases hcode
    exact halternative
  | branch :: rest, s, span, guards, alternative, otherwise, hcode, halternative => by
    simp only [branchesCode] at hcode
    obtain ⟨first, hfirst, hcode⟩ := bind_eq_ok hcode
    obtain ⟨later, hlater, hcode⟩ := bind_eq_ok hcode
    cases hcode
    exact execBranch_faithful he branch hfirst (execBranches_faithful he rest hlater halternative)

theorem execCase_faithful (he : e.IsQuiet) : ∀ (block : CaseBlock Node) {s : Surroundings} {span : Span}
    {target : Expr} {guard : Block × Block} {alternative : Block} {otherwise : Nat → Run Signal},
    caseCode s target span block = .ok guard → e.Faithful id alternative otherwise →
    e.Faithful id (choiceCode false guard.1 guard.2 alternative span)
      fun k => execCase e k id s span target (otherwise k) block
  | ⟨values, body⟩, s, span, target, guard, alternative, otherwise, hcode, halternative => by
    simp only [caseCode] at hcode
    obtain ⟨condition', hcondition, hcode⟩ := bind_eq_ok hcode
    obtain ⟨body', hbody, hcode⟩ := bind_eq_ok hcode
    cases hcode
    have hchoice : e.Faithful id (choiceCode false condition' body' alternative span) _ :=
      .choice he hcondition (execBlock_faithful he body hbody) halternative
    simpa only [execCase, Bool.bne_false] using hchoice

theorem execCases_faithful (he : e.IsQuiet) :
    ∀ (cases : List (CaseBlock Node)) {s : Surroundings} {span : Span} {target : Expr}
    {guards : List (Block × Block)} {alternative : Block}
    {otherwise : Nat → Run Signal},
    casesCode s target span cases = .ok guards → e.Faithful id alternative otherwise →
    e.Faithful id (chainCode span false guards alternative)
      fun k => execCases e k id s span target (otherwise k) cases
  | [], s, span, target, guards, alternative, otherwise, hcode, halternative => by
    cases hcode
    exact halternative
  | block :: rest, s, span, target, guards, alternative, otherwise, hcode, halternative => by
    simp only [casesCode] at hcode
    obtain ⟨first, hfirst, hcode⟩ := bind_eq_ok hcode
    obtain ⟨later, hlater, hcode⟩ := bind_eq_ok hcode
    cases hcode
    exact execCase_faithful he block hfirst (execCases_faithful he rest hlater halternative)

end

end correctness
end ScriptVM
