import Mathlib
import ScriptVM.Proofs.Expression.Evaluate
import ScriptVM.Proofs.Expression.Tracking

/-!
# Code of expressions computes their values

The code of an expression does what direct evaluation does, in the same order, and leaves the value
in the register of the last object; in push mode it is on top of the operands too.
-/
namespace ScriptVM

open Run

/-- The operands after a value was produced. -/
def Aside.produced (push : Bool) (a : Aside) (v : Value) : Aside :=
  ⟨if push then v :: a.stack else a.stack, some v⟩

section correctness

variable {e : Engine} {id : FrameId} {w : CallStack} {right left : Aside} {c c₁ after : Cursor}
  {push : Bool} {span : Span}

/-! ## Steps of expressions -/

theorem produce_bind {β : Type} (k : Kind) (K : Unit → Run β) :
    (Engine.produce id k >>= K) = newObject k >>= fun v => setLast id v >>= K := by
  simp [Engine.produce]

/-- A computation whose value becomes the last object. -/
theorem tracks_produce {x : Run Value} {p : Aside → Aside → CallStack → Value → Prop}
    (h : ∀ left right, (Likeness.sparing (some id) left right).Agree w x x (p left right)) :
    Tracks id w right left (do setLast id (← x); return Flow.next c₁) x fun flow v left' =>
      ∃ c', flow = .next c' ∧ c' = c₁ ∧ left' = ⟨left.stack, some v⟩ :=
  .self h fun _ => .setLast (.pure ⟨c₁, rfl, rfl, rfl⟩)

/-- A new object that becomes the last one. -/
theorem tracks_newObject (k : Kind) :
    Tracks id w right left (do Engine.produce id k; return Flow.next c₁) (newObject k)
      fun flow v left' => ∃ c', flow = .next c' ∧ c' = c₁ ∧ left' = ⟨left.stack, some v⟩ := by
  rw [produce_bind]
  exact tracks_produce fun _ _ => Likeness.agree_newObject (Likeness.soundKind_sparing _ _)

/-- What the code of an expression leaves behind. -/
def Produced (push : Bool) (left : Aside) (c₁ : Cursor) (v : Value) (c : Cursor) (left' : Aside) :
    Prop :=
  c = c₁ ∧ left' = left.produced push v

/-- An instruction that produces a value, and the push behind it. -/
theorem computes_produce {i : Instruction} {x : Run Value} (hnext : c.next? = some (i, after))
    (hi : i.span = span) (hpush : c₁.At (pushIf push span)) {left₀ : Aside}
    (h : Tracks id w right left₀ (e.step id after i.op) x fun flow v left' =>
      ∃ c', flow = .next c' ∧ c' = c₁ ∧ left' = ⟨left.stack, some v⟩) :
    Computes e id w right c left₀ (located span x)
      (Produced push left (c₁.skip (pushIf push span).length)) := by
  subst hi
  refine (Computes.step hnext h).andThen ?_
  rintro v c' left' ⟨rfl, rfl⟩
  cases push with
  | false => exact .pure ⟨rfl, rfl⟩
  | true => exact .move hpush.next? (.last (.push (.pure ⟨_, rfl, rfl, rfl⟩)))

theorem located_newObject (span : Span) (k : Kind) : located span (newObject k) = newObject k := rfl

/-- The code of a literal. -/
theorem computes_literal {op : Op} {k : Kind} (h : c.At ([op.at span] ++ pushIf push span))
    (hop : ∀ after, e.step id after op = do Engine.produce id k; return Flow.next after) :
    Computes e id w right c left (newObject k)
      (Produced push left (c.skip ([op.at span] ++ pushIf push span).length)) := by
  obtain ⟨hnext, hpush⟩ := Cursor.at_append.1 h
  rw [List.length_append, ← Cursor.skip_skip, ← located_newObject span k]
  refine computes_produce hnext.next? rfl hpush ?_
  rw [Op.at, hop]
  exact tracks_newObject k

/-! ## Hashes -/

/-- Filling a hash takes keys and values off the operands. -/
theorem tracks_fillHash (he : ∀ left right, (Likeness.sparing (some id) left right).Calls e e)
    (owner : Value) (entries : List (Value × Value)) (rest : List Value) (last : Option Value) :
    Tracks id w right ⟨entries.flatMap (fun entry => [entry.1, entry.2]) ++ rest, last⟩
      (e.fillHash id owner entries.length) (e.storeAll owner entries)
      fun _ _ left' => left' = ⟨rest, last⟩ := by
  induction entries with
  | nil => exact .pure rfl
  | cons entry entries ih =>
    refine .pop (.pop ?_)
    rw [Engine.keep_of_plain (he ⟨[], none⟩ right).plain.1]
    exact .then (fun left right => (he left right).store trivial trivial trivial) fun _ => ih

theorem tracks_newHash (he : ∀ left right, (Likeness.sparing (some id) left right).Calls e e)
    (entries : List (Value × Value)) (rest : List Value) (last : Option Value) :
    Tracks id w right ⟨entries.flatMap (fun entry => [entry.1, entry.2]) ++ rest, last⟩
      (e.step id c₁ (.newHash entries.length)) (e.newHash entries)
      fun flow v left' => ∃ c', flow = .next c' ∧ c' = c₁ ∧ left' = ⟨rest, some v⟩ := by
  refine .then (fun _ _ => Likeness.agree_newObject (Likeness.soundKind_sparing _ _)) fun owner => ?_
  refine (tracks_fillHash he owner entries rest last).bind ?_
  rintro _ _ left' rfl
  exact .setLast (.pure ⟨c₁, rfl, rfl, rfl⟩)

/-! ## Other steps -/

variable (he : ∀ left right, (Likeness.sparing (some id) left right).Calls e e)

include he

theorem tracks_unary (operator : UnaryOperator) (v : Value) (rest : List Value)
    (last : Option Value) :
    Tracks id w right ⟨v :: rest, last⟩ (e.step id c₁ (.unary operator))
      (e.callSymbol v operator.symbol [])
      fun flow v left' => ∃ c', flow = .next c' ∧ c' = c₁ ∧ left' = ⟨rest, some v⟩ :=
  .pop (tracks_produce fun left right => (he left right).callSymbol trivial _ (by simp))

theorem tracks_binary (operator : BinaryOperator) (a b : Value) (rest : List Value)
    (last : Option Value) :
    Tracks id w right ⟨a :: b :: rest, last⟩ (e.step id c₁ (.binary operator))
      (e.operation operator a b)
      fun flow v left' => ∃ c', flow = .next c' ∧ c' = c₁ ∧ left' = ⟨rest, some v⟩ :=
  .pop (.pop (by
    rw [Engine.keep_of_plain (he ⟨[], none⟩ right).plain.1]
    exact tracks_produce fun left right => (he left right).operation operator trivial trivial))

theorem tracks_index (source position : Value) (rest : List Value) (last : Option Value) :
    Tracks id w right ⟨position :: source :: rest, last⟩ (e.step id c₁ .index)
      (e.callSymbol source .index [position])
      fun flow v left' => ∃ c', flow = .next c' ∧ c' = c₁ ∧ left' = ⟨rest, some v⟩ :=
  .pop (.pop (tracks_produce fun left right =>
    (he left right).callSymbol trivial _ fun _ _ => trivial))

theorem tracks_call (callee : Value) (args rest : List Value) (last : Option Value) :
    Tracks id w right ⟨callee :: (args ++ rest), last⟩
      (e.step id c₁ (.methodInvocation args.length)) (e.call callee args)
      fun flow v left' => ∃ c', flow = .next c' ∧ c' = c₁ ∧ left' = ⟨rest, some v⟩ :=
  .pop (.popMany rfl (tracks_produce fun left right =>
    (he left right).call trivial fun _ _ => trivial))

theorem tracks_generator (source : Value) (rest : List Value) (last : Option Value)
    {body : Block} (hbody : c₁.At body) (hne : body ≠ []) (receivers : Nat) :
    Tracks id w right ⟨source :: rest, last⟩
      (e.step id c₁ (.newGenerator ⟨receivers, body.length⟩))
      (e.newGeneratorOver id source receivers body)
      fun flow v left' => ∃ c', flow = .next c' ∧ c' = c₁.skip body.length ∧
        left' = ⟨rest, some v⟩ := by
  simp only [Engine.step, Engine.newGenerator, hbody.cut hne, bind_assoc, pure_bind, produce_bind]
  refine .pop (.then (fun left right => (he left right).iteratorOf trivial) fun source => ?_)
  refine .then (fun _ _ => Likeness.agree_retain id) fun scope => ?_
  exact tracks_produce fun _ _ => Likeness.agree_newObject (Likeness.soundKind_sparing _ _)

theorem tracks_condition (v : Value) (rest : List Value) (last : Option Value)
    (target : Bool → Cursor) :
    Tracks id w right ⟨v :: rest, last⟩
      (do return Flow.next (target (← e.popCondition id))) (e.truthy v)
      fun flow b left' => ∃ c', flow = .next c' ∧ c' = target b ∧ left' = ⟨rest, last⟩ := by
  simp only [Engine.popCondition, bind_assoc]
  refine .pop (.self (fun left right => (he left right).truthy trivial) fun b => ?_)
  exact .pure ⟨target b, rfl, rfl, rfl⟩

omit he

theorem tracks_named (name : String) :
    Tracks id w right left (e.step id c₁ (.getIdentifier name)) (Engine.named id name)
      fun flow v left' => ∃ c', flow = .next c' ∧ c' = c₁ ∧ left' = ⟨left.stack, some v⟩ := by
  refine .then (fun _ _ => Likeness.agree_resolve id name) fun r => ?_
  cases r with
  | some v => exact .setLast (.pure ⟨c₁, rfl, rfl, rfl⟩)
  | none => exact .fail

theorem tracks_select (source : Value) (name : String) (rest : List Value)
    (last : Option Value) :
    Tracks id w right ⟨source :: rest, last⟩ (e.step id c₁ (.selectName name))
      (Engine.select source name)
      fun flow v left' => ∃ c', flow = .next c' ∧ c' = c₁ ∧ left' = ⟨rest, some v⟩ := by
  refine .pop (.then (fun _ _ => Likeness.agree_lookup trivial name) fun r => ?_)
  cases r with
  | some v => exact .setLast (.pure ⟨c₁, rfl, rfl, rfl⟩)
  | none => exact .then (fun _ _ => Likeness.agree_typeName source) fun _ => .fail

theorem tracks_lambda {body : Block} (hbody : c₁.At body) (hne : body ≠ []) (arity : Nat) :
    Tracks id w right left (e.step id c₁ (.newLambda ⟨none, body.length, arity⟩))
      (Engine.newLambda id arity body)
      fun flow v left' => ∃ c', flow = .next c' ∧ c' = c₁.skip body.length ∧
        left' = ⟨left.stack, some v⟩ := by
  simp only [Engine.step, Engine.newFunction, hbody.cut hne, bind_assoc, pure_bind]
  refine .then (fun _ _ => Likeness.agree_retain id) fun scope => ?_
  exact tracks_produce fun _ _ => Likeness.agree_newObject (Likeness.soundKind_sparing _ _)

/-! ## Choices -/

theorem length_choiceCode (inverted : Bool) (condition chosen alternative : Block) (span : Span) :
    (choiceCode inverted condition chosen alternative span).length =
      condition.length + 1 + chosen.length + 1 + alternative.length := by
  simp [choiceCode]
  omega

theorem Cursor.At.condition {inverted : Bool} {condition chosen alternative : Block}
    (h : c.At (choiceCode inverted condition chosen alternative span)) : c.At condition := by
  simp only [choiceCode, List.append_assoc] at h
  exact (Cursor.at_append.1 h).1

/-- The code of a choice computes the piece that its condition chooses. -/
theorem computes_choice (he : ∀ left right, (Likeness.sparing (some id) left right).Calls e e)
    {inverted : Bool} {condition chosen alternative : Block}
    (hat : c.At (choiceCode inverted condition chosen alternative span))
    (hfits : c.length ≤ Text.maxCount) {x y z : Run Value}
    (hx : Computes e id w right c left x (Produced true left (c.skip condition.length)))
    (hy : ∀ {c : Cursor} {left : Aside}, c.At chosen → c.length ≤ Text.maxCount →
      Computes e id w right c left y (Produced push left (c.skip chosen.length)))
    (hz : ∀ {c : Cursor} {left : Aside}, c.At alternative → c.length ≤ Text.maxCount →
      Computes e id w right c left z (Produced push left (c.skip alternative.length))) :
    Computes e id w right c left
      (do if (← located span (e.truthy (← x))) != inverted then y else z)
      (Produced push left (c.skip (choiceCode inverted condition chosen alternative span).length)) := by
  have hne : choiceCode inverted condition chosen alternative span ≠ [] := by simp [choiceCode]
  have hbound := hat.index_add_length_le hne
  rw [length_choiceCode] at hbound
  obtain ⟨hat, halternative⟩ := Cursor.at_append.1 hat
  obtain ⟨hat, hjump⟩ := Cursor.at_append.1 hat
  obtain ⟨hat, hchosen⟩ := Cursor.at_append.1 hat
  obtain ⟨-, htest⟩ := Cursor.at_append.1 hat
  simp only [List.length_append, List.length_singleton, ← Cursor.skip_skip]
    at hchosen hjump halternative
  simp only [length_choiceCode, ← Cursor.skip_skip]
  refine hx.bind ?_
  rintro v c₁ left₁ ⟨rfl, rfl⟩
  have hskip : ((c.skip condition.length).skip 1).jump (chosen.length + 1) =
      (((c.skip condition.length).skip 1).skip chosen.length).skip 1 := by
    rw [Cursor.jump_eq_skip (by simp only [Cursor.index_skip]; omega), ← Cursor.skip_skip]
  have hstep : Tracks id w right (left.produced true v)
      (e.step id ((c.skip condition.length).skip 1)
        (if inverted then Op.unlessJump (chosen.length + 1) else Op.ifJump (chosen.length + 1)))
      (e.truthy v) fun flow b left' => ∃ c', flow = .next c' ∧
        c' = (if (b != inverted) = true then (c.skip condition.length).skip 1
          else (((c.skip condition.length).skip 1).skip chosen.length).skip 1) ∧
        left' = ⟨left.stack, some v⟩ := by
    rw [← hskip]
    cases inverted with
    | false =>
      refine (tracks_condition he v left.stack (some v) fun b => if b then _ else _).mono ?_
      rintro _ b _ ⟨c', rfl, rfl, rfl⟩
      exact ⟨_, rfl, by cases b <;> rfl, rfl⟩
    | true =>
      refine (tracks_condition he v left.stack (some v) fun b => if b then _ else _).mono ?_
      rintro _ b _ ⟨c', rfl, rfl, rfl⟩
      exact ⟨_, rfl, by cases b <;> rfl, rfl⟩
  refine (Computes.step htest.next? hstep).bind ?_
  rintro b c₂ left₂ ⟨rfl, rfl⟩
  split
  · refine (hy hchosen hfits).andThen ?_
    rintro r c₃ left₃ ⟨rfl, rfl⟩
    refine .move hjump.next? (.pure ⟨_, rfl, ?_, rfl⟩)
    exact Cursor.jump_eq_skip (by simp only [Cursor.index_skip]; omega)
  · exact hz halternative hfits

/-! ## Expressions -/

section expressions

variable (he : ∀ left right, (Likeness.sparing (some id) left right).Calls e e)

include he

set_option linter.unusedSectionVars false in
mutual

/-- The code of an expression computes its value. -/
theorem Expr.computes : ∀ (x : Expr) {push : Bool} {code : Block} {c : Cursor} {left : Aside},
    x.code push = .ok code → c.At code → c.length ≤ Text.maxCount →
    Computes e id w right c left (x.eval e id) (Produced push left (c.skip code.length))
  | .integer span text, push, code, c, left, hcode, hat, _ => by
    simp only [Expr.code] at hcode
    simp only [Expr.eval]
    cases hn : integerLiteral? text with
    | none =>
      rw [hn] at hcode
      cases hcode
    | some n =>
      rw [hn] at hcode
      cases hcode
      exact computes_literal hat fun _ => rfl
  | .float span text, push, code, c, left, hcode, hat, _ => by
    simp only [Expr.code] at hcode
    simp only [Expr.eval]
    cases hx : floatLiteral? text with
    | none =>
      rw [hx] at hcode
      cases hcode
    | some x =>
      rw [hx] at hcode
      cases hcode
      exact computes_literal hat fun _ => by
        rw [Engine.step, FloatBits.value, FloatBits.ofFloat, Float.ofBits_toBits]
  | .string span text, push, code, c, left, hcode, hat, _ => by
    simp only [Expr.code] at hcode
    cases hcode
    exact computes_literal hat fun _ => rfl
  | .bytes span content, push, code, c, left, hcode, hat, _ => by
    simp only [Expr.code] at hcode
    cases hcode
    exact computes_literal hat fun _ => rfl
  | .bool span value, push, code, c, left, hcode, hat, _ => by
    simp only [Expr.code] at hcode
    cases hcode
    cases value with
    | false => exact computes_literal hat fun _ => rfl
    | true => exact computes_literal hat fun _ => rfl
  | .none span, push, code, c, left, hcode, hat, _ => by
    simp only [Expr.code] at hcode
    cases hcode
    exact computes_literal hat fun _ => rfl
  | .tuple span values, push, code, c, left, hcode, hat, hfits => by
    simp only [Expr.code] at hcode
    obtain ⟨items, hitems, hcode⟩ := bind_eq_ok hcode
    cases hcode
    obtain ⟨hat, hpush⟩ := Cursor.at_append.1 hat
    obtain ⟨hat, hop⟩ := Cursor.at_append.1 hat
    simp only [List.length_append, List.length_singleton, ← Cursor.skip_skip] at hpush ⊢
    refine (computes_reversed values hitems hat hfits).bind ?_
    rintro vs c₁ left₁ ⟨rfl, hcount, last, rfl⟩
    rw [← located_newObject span (.tuple vs)]
    refine computes_produce hop.next? rfl hpush ?_
    exact .popMany hcount (tracks_newObject (.tuple vs))
  | .array span values, push, code, c, left, hcode, hat, hfits => by
    simp only [Expr.code] at hcode
    obtain ⟨items, hitems, hcode⟩ := bind_eq_ok hcode
    cases hcode
    obtain ⟨hat, hpush⟩ := Cursor.at_append.1 hat
    obtain ⟨hat, hop⟩ := Cursor.at_append.1 hat
    simp only [List.length_append, List.length_singleton, ← Cursor.skip_skip] at hpush ⊢
    refine (computes_reversed values hitems hat hfits).bind ?_
    rintro vs c₁ left₁ ⟨rfl, hcount, last, rfl⟩
    rw [← located_newObject span (.array vs)]
    refine computes_produce hop.next? rfl hpush ?_
    exact .popMany hcount (tracks_newObject (.array vs))
  | .hash span entries, push, code, c, left, hcode, hat, hfits => by
    simp only [Expr.code] at hcode
    obtain ⟨pairs, hpairs, hcode⟩ := bind_eq_ok hcode
    cases hcode
    obtain ⟨hat, hpush⟩ := Cursor.at_append.1 hat
    obtain ⟨hat, hop⟩ := Cursor.at_append.1 hat
    simp only [List.length_append, List.length_singleton, ← Cursor.skip_skip] at hpush ⊢
    refine (computes_entries entries hpairs hat hfits).bind ?_
    rintro vs c₁ left₁ ⟨rfl, hcount, last, rfl⟩
    refine computes_produce hop.next? rfl hpush ?_
    rw [Op.at, ← hcount]
    exact tracks_newHash he vs left.stack last
  | .identifier span name, push, code, c, left, hcode, hat, _ => by
    simp only [Expr.code] at hcode
    cases hcode
    obtain ⟨hop, hpush⟩ := Cursor.at_append.1 hat
    rw [List.length_append, ← Cursor.skip_skip]
    exact computes_produce hop.next? rfl hpush (tracks_named name)
  | .selector span object name, push, code, c, left, hcode, hat, hfits => by
    simp only [Expr.code] at hcode
    obtain ⟨object', hobject, hcode⟩ := bind_eq_ok hcode
    cases hcode
    obtain ⟨hat, hpush⟩ := Cursor.at_append.1 hat
    obtain ⟨hat, hop⟩ := Cursor.at_append.1 hat
    simp only [List.length_append, List.length_singleton, ← Cursor.skip_skip] at hpush ⊢
    refine (Expr.computes object hobject hat hfits).bind ?_
    rintro v c₁ left₁ ⟨rfl, rfl⟩
    exact computes_produce hop.next? rfl hpush (tracks_select v name left.stack _)
  | .index span source position, push, code, c, left, hcode, hat, hfits => by
    simp only [Expr.code] at hcode
    obtain ⟨source', hsource, hcode⟩ := bind_eq_ok hcode
    obtain ⟨position', hposition, hcode⟩ := bind_eq_ok hcode
    cases hcode
    obtain ⟨hat, hpush⟩ := Cursor.at_append.1 hat
    obtain ⟨hat, hop⟩ := Cursor.at_append.1 hat
    obtain ⟨hat, hat'⟩ := Cursor.at_append.1 hat
    simp only [List.length_append, List.length_singleton, ← Cursor.skip_skip] at hop hpush ⊢
    refine (Expr.computes source hsource hat hfits).bind ?_
    rintro v c₁ left₁ ⟨rfl, rfl⟩
    refine (Expr.computes position hposition hat' hfits).bind ?_
    rintro p c₂ left₂ ⟨rfl, rfl⟩
    exact computes_produce hop.next? rfl hpush (tracks_index he v p left.stack _)
  | .call span callee arguments, push, code, c, left, hcode, hat, hfits => by
    simp only [Expr.code] at hcode
    obtain ⟨items, hitems, hcode⟩ := bind_eq_ok hcode
    obtain ⟨callee', hcallee, hcode⟩ := bind_eq_ok hcode
    cases hcode
    obtain ⟨hat, hpush⟩ := Cursor.at_append.1 hat
    obtain ⟨hat, hop⟩ := Cursor.at_append.1 hat
    obtain ⟨hat, hat'⟩ := Cursor.at_append.1 hat
    simp only [List.length_append, List.length_singleton, ← Cursor.skip_skip] at hop hpush ⊢
    refine (computes_reversed arguments hitems hat hfits).bind ?_
    rintro vs c₁ left₁ ⟨rfl, hcount, last, rfl⟩
    refine (Expr.computes callee hcallee hat' hfits).bind ?_
    rintro f c₂ left₂ ⟨rfl, rfl⟩
    refine computes_produce hop.next? rfl hpush ?_
    rw [Op.at, ← hcount]
    exact tracks_call he f vs left.stack _
  | .binary span l operator r, push, code, c, left, hcode, hat, hfits => by
    simp only [Expr.code] at hcode
    obtain ⟨r', hr, hcode⟩ := bind_eq_ok hcode
    obtain ⟨l', hl, hcode⟩ := bind_eq_ok hcode
    cases hcode
    obtain ⟨hat, hpush⟩ := Cursor.at_append.1 hat
    obtain ⟨hat, hop⟩ := Cursor.at_append.1 hat
    obtain ⟨hat, hat'⟩ := Cursor.at_append.1 hat
    simp only [List.length_append, List.length_singleton, ← Cursor.skip_skip] at hop hpush ⊢
    refine (Expr.computes r hr hat hfits).bind ?_
    rintro b c₁ left₁ ⟨rfl, rfl⟩
    refine (Expr.computes l hl hat' hfits).bind ?_
    rintro a c₂ left₂ ⟨rfl, rfl⟩
    exact computes_produce hop.next? rfl hpush (tracks_binary he _ a b left.stack _)
  | .unary span operator operand, push, code, c, left, hcode, hat, hfits => by
    simp only [Expr.code] at hcode
    simp only [Expr.eval]
    cases hoperator : operator.operator? with
    | none =>
      rw [hoperator] at hcode
      cases hcode
    | some machineOperator =>
      rw [hoperator] at hcode
      obtain ⟨operand', hoperand, hcode⟩ := bind_eq_ok hcode
      cases hcode
      obtain ⟨hat, hpush⟩ := Cursor.at_append.1 hat
      obtain ⟨hat, hop⟩ := Cursor.at_append.1 hat
      simp only [List.length_append, List.length_singleton, ← Cursor.skip_skip] at hpush ⊢
      refine (Expr.computes operand hoperand hat hfits).bind ?_
      rintro v c₁ left₁ ⟨rfl, rfl⟩
      exact computes_produce hop.next? rfl hpush (tracks_unary he _ v left.stack _)
  | .parentheses _ inner, push, code, c, left, hcode, hat, hfits => by
    simp only [Expr.code] at hcode
    simp only [Expr.eval]
    exact Expr.computes inner hcode hat hfits
  | .ifElse span condition result alternative, push, code, c, left, hcode, hat, hfits => by
    simp only [Expr.code] at hcode
    obtain ⟨condition', hcondition, hcode⟩ := bind_eq_ok hcode
    obtain ⟨result', hresult, hcode⟩ := bind_eq_ok hcode
    obtain ⟨alternative', halternative, hcode⟩ := bind_eq_ok hcode
    cases hcode
    have hchoice : Computes e id w right c left _ _ := computes_choice he hat hfits
      (Expr.computes condition hcondition (Cursor.At.condition hat) hfits)
      (fun hat hfits => Expr.computes result hresult hat hfits)
      (fun hat hfits => computes_alternative alternative halternative hat hfits)
    simpa only [Expr.eval, Bool.bne_false] using hchoice
  | .unlessElse span condition result alternative, push, code, c, left, hcode, hat, hfits => by
    simp only [Expr.code] at hcode
    obtain ⟨condition', hcondition, hcode⟩ := bind_eq_ok hcode
    obtain ⟨result', hresult, hcode⟩ := bind_eq_ok hcode
    obtain ⟨alternative', halternative, hcode⟩ := bind_eq_ok hcode
    cases hcode
    have hchoice : Computes e id w right c left _ _ := computes_choice he hat hfits
      (Expr.computes condition hcondition (Cursor.At.condition hat) hfits)
      (fun hat hfits => Expr.computes result hresult hat hfits)
      (fun hat hfits => computes_alternative alternative halternative hat hfits)
    have hswap : ∀ (b : Bool) (x y : Run Value),
        (if (b != true) = true then x else y) = if b = true then y else x := by
      intro b x y
      cases b <;> rfl
    simpa only [Expr.eval, hswap] using hchoice
  | .lambda span parameters output, push, code, c, left, hcode, hat, _ => by
    simp only [Expr.code] at hcode
    obtain ⟨output', houtput, hcode⟩ := bind_eq_ok hcode
    cases hcode
    simp only [Expr.eval, houtput]
    obtain ⟨hat, hpush⟩ := Cursor.at_append.1 hat
    obtain ⟨hop, hbody⟩ := Cursor.at_append.1 hat
    simp only [List.length_append, List.length_singleton, ← Cursor.skip_skip] at hpush ⊢
    exact computes_produce hop.next? rfl hpush
      (tracks_lambda hbody (by simp [lambdaBody]) parameters.length)
  | .generator span operation receivers source, push, code, c, left, hcode, hat, hfits => by
    simp only [Expr.code] at hcode
    obtain ⟨source', hsource, hcode⟩ := bind_eq_ok hcode
    obtain ⟨operation', hoperation, hcode⟩ := bind_eq_ok hcode
    cases hcode
    simp only [Expr.eval, hoperation]
    obtain ⟨hat, hpush⟩ := Cursor.at_append.1 hat
    obtain ⟨hat, hbody⟩ := Cursor.at_append.1 hat
    obtain ⟨hat, hop⟩ := Cursor.at_append.1 hat
    simp only [List.length_append, List.length_singleton, ← Cursor.skip_skip] at hbody hpush ⊢
    refine (Expr.computes source hsource hat hfits).bind ?_
    rintro v c₁ left₁ ⟨rfl, rfl⟩
    exact computes_produce hop.next? rfl hpush
      (tracks_generator he v left.stack _ hbody (by simp [lambdaBody]) receivers.length)

/-- The code of values computes them from the last to the first, and leaves the first one on top of
the operands. -/
theorem computes_reversed : ∀ (xs : List Expr) {code : Block} {c : Cursor} {left : Aside},
    reversedCode xs = .ok code → c.At code → c.length ≤ Text.maxCount →
    Computes e id w right c left (evalReversed e id xs) fun vs c' left' =>
      c' = c.skip code.length ∧ vs.length = xs.length ∧ ∃ last, left' = ⟨vs ++ left.stack, last⟩
  | [], code, c, left, hcode, _, _ => by
    cases hcode
    exact .pure ⟨rfl, rfl, left.last, rfl⟩
  | x :: rest, code, c, left, hcode, hat, hfits => by
    simp only [reversedCode] at hcode
    obtain ⟨later, hlater, hcode⟩ := bind_eq_ok hcode
    obtain ⟨first, hfirst, hcode⟩ := bind_eq_ok hcode
    cases hcode
    obtain ⟨hat, hat'⟩ := Cursor.at_append.1 hat
    simp only [List.length_append, ← Cursor.skip_skip]
    refine (computes_reversed rest hlater hat hfits).bind ?_
    rintro vs c₁ left₁ ⟨rfl, hcount, last, rfl⟩
    refine (Expr.computes x hfirst hat' hfits).bind ?_
    rintro v c₂ left₂ ⟨rfl, rfl⟩
    exact .pure ⟨rfl, by simp [hcount], some v, rfl⟩

/-- The code of the entries of a hash computes them from the last to the first, and leaves the key
of the first one on top of the operands. -/
theorem computes_entries : ∀ (xs : List (Expr × Expr)) {code : Block} {c : Cursor} {left : Aside},
    entriesCode xs = .ok code → c.At code → c.length ≤ Text.maxCount →
    Computes e id w right c left (evalEntries e id xs) fun vs c' left' =>
      c' = c.skip code.length ∧ vs.length = xs.length ∧
        ∃ last, left' = ⟨vs.flatMap (fun entry => [entry.1, entry.2]) ++ left.stack, last⟩
  | [], code, c, left, hcode, _, _ => by
    cases hcode
    exact .pure ⟨rfl, rfl, left.last, rfl⟩
  | (key, value) :: rest, code, c, left, hcode, hat, hfits => by
    simp only [entriesCode] at hcode
    obtain ⟨later, hlater, hcode⟩ := bind_eq_ok hcode
    obtain ⟨value', hvalue, hcode⟩ := bind_eq_ok hcode
    obtain ⟨key', hkey, hcode⟩ := bind_eq_ok hcode
    cases hcode
    obtain ⟨hat, hat₂⟩ := Cursor.at_append.1 hat
    obtain ⟨hat, hat₁⟩ := Cursor.at_append.1 hat
    simp only [List.length_append, ← Cursor.skip_skip] at hat₂ ⊢
    refine (computes_entries rest hlater hat hfits).bind ?_
    rintro vs c₁ left₁ ⟨rfl, hcount, last, rfl⟩
    refine (Expr.computes value hvalue hat₁ hfits).bind ?_
    rintro v c₂ left₂ ⟨rfl, rfl⟩
    refine (Expr.computes key hkey hat₂ hfits).bind ?_
    rintro k c₃ left₃ ⟨rfl, rfl⟩
    exact .pure ⟨rfl, by simp [hcount], some k, rfl⟩

/-- The code of the alternative of a choice computes its value. -/
theorem computes_alternative : ∀ (x : Option Expr) {push : Bool} {span : Span} {code : Block}
    {c : Cursor} {left : Aside},
    alternativeCode push span x = .ok code → c.At code → c.length ≤ Text.maxCount →
    Computes e id w right c left (evalAlternative e id x) (Produced push left (c.skip code.length))
  | some x, push, span, code, c, left, hcode, hat, hfits => by
    simp only [alternativeCode] at hcode
    simp only [evalAlternative]
    exact Expr.computes x hcode hat hfits
  | none, push, span, code, c, left, hcode, hat, _ => by
    cases hcode
    exact computes_literal hat fun _ => rfl

end

end expressions

end correctness
end ScriptVM
