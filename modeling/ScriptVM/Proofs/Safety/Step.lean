import ScriptVM.Proofs.Code.Locality
import ScriptVM.Proofs.Likeness.Steady
import ScriptVM.Proofs.Safety.Move

/-!
# Steps in a guarded frame

An operation that fits into sound code finds its operands, goes on at one of its targets with as many
operands as the labels say, and never fails for an internal cause. What it sets aside is sound. Calls
and bodies that run in other frames leave the operands alone.
-/
namespace ScriptVM

/-- An engine whose calls and bodies keep machines guarded. -/
structure Engine.Guarding (e : Engine) : Prop where
  plain : e.tracks = false
  call : ∀ {w callee args},
    Likeness.guarding.Agree w (e.call callee args) (e.call callee args) fun _ _ => True
  runIn : ∀ {w mode body} (scope object bindsObject self operands), mode.marked = false →
    body.IsSound mode operands.length →
    Likeness.guarding.Agree w (e.runIn scope object bindsObject self operands body)
      (e.runIn scope object bindsObject self operands body) fun _ _ => True
  runOperation : ∀ {w g state values}, state.IsSound w → values.length = state.receivers →
    Likeness.guarding.Agree w (e.runOperation g state values) (e.runOperation g state values)
      fun _ r => state.body.length ≤ r.2.index

/-- Where an operation at a position of some code leads to. -/
def Op.Arrival (op : Op) (c : Cursor) (position : Nat) : Flow → Prop
  | .next c' => ∃ q ∈ op.targets position, c' = c.skip q
  | .leave _ c' => (∃ count, op = .exit count) ∧ c' = c.skip (position + 1)

section step

open Run Engine

variable {e : Engine} {w : Watch} {id : FrameId} {outer : List Nat} {n n' k : Nat} {α : Type}

theorem Engine.Guarding.calls (he : e.Guarding) : Likeness.guarding.Calls e e :=
  ⟨Nat.le_refl _, rfl, ⟨he.plain, he.plain⟩, fun _ _ => he.call⟩

theorem moves_newObject (kind : Kind) (h : ∀ w, Likeness.guarding.SoundKind w kind) :
    Moves w id outer n n (newObject kind) fun _ => True :=
  .of_agree (Likeness.agree_newObject (h _))

theorem moves_produce (kind : Kind) (h : ∀ w, Likeness.guarding.SoundKind w kind) :
    Moves w id outer n n (produce id kind) fun _ => True :=
  (moves_newObject kind h).bind fun _ v _ _ => moves_setLast v

theorem moves_fillHash (he : e.Guarding) (owner : Value) (count : Nat) :
    Moves w id outer (k + 2 * count) k (e.fillHash id owner count) fun _ => True := by
  induction count generalizing w with
  | zero => exact .pure trivial
  | succ count ih =>
    refine moves_pop.bind fun _ key _ _ => moves_pop.bind fun _ value _ _ => ?_
    rw [Engine.keep_of_plain he.plain]
    exact (Moves.of_agree (he.calls.store trivial trivial trivial)).bind fun _ _ _ _ => ih

theorem moves_popCondition (he : e.Guarding) :
    Moves w id outer (k + 1) k (e.popCondition id) fun _ => True :=
  moves_pop.bind fun _ _ _ _ => .of_agree (he.calls.truthy trivial)

theorem moves_loadArguments (names : List String) :
    Moves w id outer (k + names.length) k (loadArguments id names) fun _ => True := by
  induction names generalizing w with
  | nil => exact .pure trivial
  | cons name rest ih =>
    refine moves_pop.bind fun _ v _ _ => ?_
    exact (moves_define name v).bind fun _ _ _ _ => ih

theorem moves_expectTypes (vs : List Value) :
    Moves w id outer n n (expectTypes vs) fun _ => True :=
  .of_agree (Likeness.agree_expectTypes fun _ _ => trivial)

/-! ## Single operations -/

variable {op : Op} {mode : Mode} {labels : Labels} {length position depth : Nat} {c : Cursor}
  {body : View}

theorem Moves.next {x : Run Unit} (h : Moves w id outer n n' x fun _ => True)
    (hop : position + 1 ∈ op.targets position) :
    Moves w id outer n n' (do x; return Flow.next (c.skip (position + 1)))
      (op.Arrival c position) :=
  h.bind fun _ _ _ _ => .pure ⟨_, hop, rfl⟩

theorem Moves.nextAt {x : Run Cursor} {q : Nat}
    (h : Moves w id outer n n' x fun c' => c' = c.skip q) (hop : q ∈ op.targets position) :
    Moves w id outer n n' (do return Flow.next (← x)) (op.Arrival c position) :=
  h.bind fun _ _ _ hc => .pure ⟨q, hop, hc⟩

theorem moves_goBack {offset : Nat} (hback : offset ≤ position + 1)
    (hop : position + 1 - offset ∈ op.targets position) :
    Moves w id outer n n (goBack (c.skip (position + 1)) offset) (op.Arrival c position) := by
  unfold goBack
  rw [Cursor.jumpBack?_skip hback]
  exact .pure ⟨_, hop, rfl⟩

theorem moves_newFunction {info : FunctionInfo} {after : Cursor}
    (hcut : c.cut info.bodyLength = (body, after)) (hbody : body.IsSound .plain info.arity) :
    Moves w id outer n n (newFunction id c info) fun r => r.2 = after := by
  unfold newFunction
  rw [hcut]
  refine moves_retain.bind fun _ scope _ _ => ?_
  refine (moves_newObject _ fun _ => ?_).bind fun _ _ _ _ => .pure rfl
  exact ⟨hbody, nofun⟩

theorem moves_newMethod {info : FunctionInfo} {after : Cursor}
    (hcut : c.cut info.bodyLength = (body, after)) (hbody : body.IsSound .plain info.arity) :
    Moves w id outer (k + 1) (k + 1) (newMethod id c info) fun c' => c' = after := by
  unfold newMethod
  rw [hcut]
  refine moves_top.bind fun _ target _ _ => ?_
  dsimp only
  rw [← bind_assoc]
  refine moves_retainMethodScope.bind fun w' scope _ _ => ?_
  have hmember : Likeness.guarding.SoundMember (w'.set id ((k + 1) :: outer))
      (.method ⟨some (info.name.getD ""), info.arity, body, scope⟩) := hbody
  exact (Moves.of_agree (Likeness.agree_setMember target _ hmember)).bind fun _ _ _ _ => .pure rfl

theorem moves_newGenerator (he : e.Guarding) {info : GeneratorInfo} {after : Cursor}
    (hcut : c.cut info.operationLength = (body, after))
    (hbody : body.IsSound .operation info.receiverCount) :
    Moves w id outer (k + 1) k (e.newGenerator id c info) fun c' => c' = after := by
  unfold Engine.newGenerator
  rw [hcut]
  refine moves_pop.bind fun _ v _ _ => ?_
  refine (Moves.of_agree (he.calls.iteratorOf trivial)).bind fun _ source _ _ => ?_
  refine moves_retain.bind fun _ scope _ _ => ?_
  refine (moves_produce _ fun _ => ?_).bind fun _ _ _ _ => .pure rfl
  exact ⟨⟨hbody, nofun, nofun⟩, trivial, nofun⟩

theorem moves_newClass {info : ClassInfo} {after : Cursor}
    (hcut : c.cut info.bodyLength = (body, after)) (hbody : body.IsSound .classBody 1) :
    Moves w id outer (k + info.baseCount) k (newClass id c info) fun c' => c' = after := by
  unfold newClass
  rw [hcut]
  refine (moves_popMany _).bind fun _ bases _ _ => ?_
  refine (moves_expectTypes _).bind fun _ _ _ _ => ?_
  refine moves_retain.bind fun _ scope _ _ => ?_
  have hkind : ∀ w scope, Likeness.guarding.SoundKind w
      (.type (.ofClass ⟨info.name, bases.reverse, body, scope⟩)) :=
    fun _ _ => ⟨hbody, fun _ _ => trivial⟩
  refine (moves_newObject _ fun w => hkind w scope).bind fun _ cls _ _ => ?_
  refine (moves_assign _ cls).bind fun _ _ _ _ => ?_
  exact (moves_setLast cls).bind fun _ _ _ _ => .pure rfl

theorem moves_newModule (he : e.Guarding) {info : ClassInfo} {after : Cursor}
    (hcut : c.cut info.bodyLength = (body, after)) (hbody : body.IsSound .plain 0) :
    Moves w id outer n n (e.newModule id c info) fun c' => c' = after := by
  unfold Engine.newModule
  rw [hcut]
  refine (moves_newObject (.module info.name) fun _ => trivial).bind fun _ module _ _ => ?_
  rw [Engine.keep_of_plain he.plain]
  refine (Moves.of_agree (he.runIn id (some module) true module [] rfl hbody).discard).bind
    fun _ _ _ _ => ?_
  refine (moves_assign _ module).bind fun _ _ _ _ => ?_
  exact (moves_setLast module).bind fun _ _ _ _ => .pure rfl

theorem moves_exitValue (vs : List Value) :
    Moves w id outer n n (exitValue vs) fun _ => True :=
  .of_agree (Likeness.agree_exitValue fun _ _ => trivial)

/-- An operation that fits leads to one of its targets. -/
theorem Engine.Guarding.moves_step (he : e.Guarding)
    (h : op.Fits mode labels length position depth) (hc : op.Behind c body position)
    (hmode : mode.marked = false)
    (hbody : ∀ shape, op.body? = some shape → body.IsSound shape.mode shape.entry) :
    Moves w id outer depth (depth - op.takes + op.gives)
      (e.step id (c.skip (position + 1)) op) (op.Arrival c position) := by
  obtain ⟨k, rfl⟩ := Nat.exists_eq_add_of_le' h.needs
  have hpops : op.takes = op.needs → op.gives = 0 → k + op.needs - op.takes + op.gives = k := by
    omega
  have hcut := hc.cut
  have hcalls := he.calls
  cases op with
  | newString s => exact (moves_produce (.string s) fun _ => trivial).next (List.mem_singleton.2 rfl)
  | newBytes content =>
    exact (moves_produce (.bytes content) fun _ => trivial).next (List.mem_singleton.2 rfl)
  | newInteger i => exact (moves_produce (.integer i) fun _ => trivial).next (List.mem_singleton.2 rfl)
  | newFloat x => exact (moves_produce (.float x) fun _ => trivial).next (List.mem_singleton.2 rfl)
  | getTrue => exact (moves_produce (.bool true) fun _ => trivial).next (List.mem_singleton.2 rfl)
  | getFalse => exact (moves_produce (.bool false) fun _ => trivial).next (List.mem_singleton.2 rfl)
  | getNone => exact (moves_produce .none fun _ => trivial).next (List.mem_singleton.2 rfl)
  | newTuple count =>
    rw [hpops rfl rfl]
    refine (moves_popMany count).bind fun _ vs _ _ => ?_
    exact (moves_produce (.tuple vs) fun _ _ _ => trivial).next (List.mem_singleton.2 rfl)
  | newArray count =>
    rw [hpops rfl rfl]
    refine (moves_popMany count).bind fun _ vs _ _ => ?_
    exact (moves_produce (.array vs) fun _ _ _ => trivial).next (List.mem_singleton.2 rfl)
  | newHash count =>
    rw [hpops rfl rfl]
    refine (moves_newObject (.hash .empty) fun _ => ⟨trivial, nofun⟩).bind fun _ owner _ _ => ?_
    refine (moves_fillHash he owner count).bind fun _ _ _ _ => ?_
    exact (moves_setLast owner).next (List.mem_singleton.2 rfl)
  | push =>
    refine moves_last.bind fun _ r _ _ => ?_
    cases r with
    | some v => exact (moves_push v).next (List.mem_singleton.2 rfl)
    | none =>
      refine (moves_newObject .none fun _ => trivial).bind fun _ v _ _ => ?_
      exact (moves_push v).next (List.mem_singleton.2 rfl)
  | unary operator =>
    rw [hpops rfl rfl]
    refine moves_pop.bind fun _ operand _ _ => ?_
    refine Moves.bind (.of_agree (hcalls.callSymbol trivial _ nofun)) fun _ v _ _ => ?_
    exact (moves_setLast v).next (List.mem_singleton.2 rfl)
  | binary operator =>
    rw [hpops rfl rfl]
    refine moves_pop.bind fun _ left _ _ => moves_pop.bind fun _ right _ _ => ?_
    rw [Engine.keep_of_plain he.plain]
    refine Moves.bind (.of_agree (hcalls.operation operator trivial trivial)) fun _ v _ _ => ?_
    exact (moves_setLast v).next (List.mem_singleton.2 rfl)
  | getIdentifier name =>
    refine (moves_resolve name).bind fun _ r _ _ => ?_
    cases r with
    | some v => exact (moves_setLast v).next (List.mem_singleton.2 rfl)
    | none => exact .fail_bind rfl
  | selectName name =>
    rw [hpops rfl rfl]
    refine moves_pop.bind fun _ source _ _ => ?_
    refine Moves.bind (.of_agree (Likeness.agree_lookup trivial name)) fun _ r _ _ => ?_
    cases r with
    | some v => exact (moves_setLast v).next (List.mem_singleton.2 rfl)
    | none =>
      refine Moves.bind (.of_agree (Likeness.agree_typeName source)) fun _ _ _ _ => ?_
      exact .fail_bind rfl
  | index =>
    rw [hpops rfl rfl]
    refine moves_pop.bind fun _ position _ _ => moves_pop.bind fun _ source _ _ => ?_
    refine Moves.bind (.of_agree (hcalls.callSymbol trivial _ fun _ _ => trivial)) fun _ v _ _ => ?_
    exact (moves_setLast v).next (List.mem_singleton.2 rfl)
  | methodInvocation count =>
    rw [hpops rfl rfl]
    refine moves_pop.bind fun _ callee _ _ => (moves_popMany count).bind fun _ args _ _ => ?_
    refine Moves.bind (.of_agree he.call) fun _ v _ _ => ?_
    exact (moves_setLast v).next (List.mem_singleton.2 rfl)
  | assignIdentifier name =>
    rw [hpops rfl rfl]
    refine moves_pop.bind fun _ v _ _ => ?_
    exact (moves_assign name v).next (List.mem_singleton.2 rfl)
  | assignSelector name =>
    rw [hpops rfl rfl]
    refine moves_pop.bind fun _ receiver _ _ => moves_pop.bind fun _ value _ _ => ?_
    exact (Moves.of_agree (Likeness.agree_setMember receiver name (k := .value value)
      trivial)).next (List.mem_singleton.2 rfl)
  | assignIndex =>
    rw [hpops rfl rfl]
    refine moves_pop.bind fun _ position _ _ => moves_pop.bind fun _ receiver _ _ => ?_
    refine moves_pop.bind fun _ element _ _ => ?_
    exact (Moves.of_agree (hcalls.callSymbol trivial .assign fun _ _ => trivial).discard).next
      (List.mem_singleton.2 rfl)
  | jump offset =>
    refine .pure ⟨_, List.mem_singleton.2 rfl, ?_⟩
    rw [hc.jump offset (.inl rfl)]
  | jumpBack offset => exact moves_goBack h.back (List.mem_singleton.2 rfl)
  | ifJump offset =>
    rw [hpops rfl rfl]
    refine (moves_popCondition he).bind fun _ b _ _ => ?_
    cases b with
    | true => exact .pure ⟨_, List.mem_cons_self, rfl⟩
    | false =>
      refine .pure ⟨_, List.mem_cons_of_mem _ (List.mem_singleton.2 rfl), ?_⟩
      exact hc.jump offset (.inr (.inl rfl))
  | unlessJump offset =>
    rw [hpops rfl rfl]
    refine (moves_popCondition he).bind fun _ b _ _ => ?_
    cases b with
    | true =>
      refine .pure ⟨_, List.mem_cons_of_mem _ (List.mem_singleton.2 rfl), ?_⟩
      exact hc.jump offset (.inr (.inr rfl))
    | false => exact .pure ⟨_, List.mem_cons_self, rfl⟩
  | ifJumpBack offset =>
    rw [hpops rfl rfl]
    refine (moves_popCondition he).bind fun _ b _ _ => ?_
    cases b with
    | true => exact .pure ⟨_, List.mem_cons_self, rfl⟩
    | false => exact moves_goBack h.back (List.mem_cons_of_mem _ (List.mem_singleton.2 rfl))
  | unlessJumpBack offset =>
    rw [hpops rfl rfl]
    refine (moves_popCondition he).bind fun _ b _ _ => ?_
    cases b with
    | true => exact moves_goBack h.back (List.mem_cons_of_mem _ (List.mem_singleton.2 rfl))
    | false => exact .pure ⟨_, List.mem_cons_self, rfl⟩
  | nop => exact .pure ⟨_, List.mem_singleton.2 rfl, rfl⟩
  | redoMark | continueMark | breakMark =>
    have hmarked := (h.mark rfl).1
    rw [hmode] at hmarked
    cases hmarked
  | loadArguments names =>
    rw [hpops rfl rfl]
    exact (moves_loadArguments names).next (List.mem_singleton.2 rfl)
  | newFunction info =>
    simp only [Op.bodyLength, Op.body?, Option.elim] at hcut
    refine (moves_newFunction hcut (hbody _ rfl)).bind fun _ r _ hr => ?_
    obtain ⟨v, after⟩ := r
    subst hr
    dsimp only
    cases info.name with
    | some name =>
      refine (moves_assign name v).bind fun _ _ _ _ => (moves_setLast v).bind fun _ _ _ _ => ?_
      exact .pure ⟨_, List.mem_singleton.2 rfl, rfl⟩
    | none => exact (moves_setLast v).bind fun _ _ _ _ => .pure ⟨_, List.mem_singleton.2 rfl, rfl⟩
  | newLambda info =>
    simp only [Op.bodyLength, Op.body?, Option.elim] at hcut
    refine (moves_newFunction hcut (hbody _ rfl)).bind fun _ r _ hr => ?_
    obtain ⟨v, after⟩ := r
    subst hr
    exact (moves_setLast v).bind fun _ _ _ _ => .pure ⟨_, List.mem_singleton.2 rfl, rfl⟩
  | newMethod info =>
    simp only [Op.bodyLength, Op.body?, Option.elim] at hcut
    exact (moves_newMethod hcut (hbody _ rfl)).nextAt (List.mem_singleton.2 rfl)
  | newGenerator info =>
    rw [hpops rfl rfl]
    simp only [Op.bodyLength, Op.body?, Option.elim] at hcut
    exact (moves_newGenerator he hcut (hbody _ rfl)).nextAt (List.mem_singleton.2 rfl)
  | newClass info | newInterface info =>
    rw [hpops rfl rfl]
    simp only [Op.bodyLength, Op.body?, Option.elim] at hcut
    exact (moves_newClass hcut (hbody _ rfl)).nextAt (List.mem_singleton.2 rfl)
  | newModule info =>
    simp only [Op.bodyLength, Op.body?, Option.elim] at hcut
    exact (moves_newModule he hcut (hbody _ rfl)).nextAt (List.mem_singleton.2 rfl)
  | exit count =>
    rw [hpops rfl rfl]
    refine (moves_popMany count).bind fun _ vs _ _ => ?_
    exact (moves_exitValue vs).bind fun _ _ _ _ => .pure ⟨⟨count, rfl⟩, rfl⟩
  | raise =>
    rw [hpops rfl rfl]
    exact moves_pop.bind fun _ _ _ _ => .fail rfl

end step
end ScriptVM
