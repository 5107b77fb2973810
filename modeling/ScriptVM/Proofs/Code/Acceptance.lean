import ScriptVM.Proofs.Code.Construct
import ScriptVM.Proofs.Code.Place
import Mathlib.Tactic.Tauto

/-!
# Which programs have code

A program has code exactly when each of its constructs is in order by itself, and the error of a
program without code is the fault of one of its constructs. Whether a loop is around a node is taken
down into conditionals and switches, set for the body of a loop and forgotten in every other body.
-/
namespace ScriptVM

section tells

variable {α β : Type} {x : Except CompileError α} {cs ds : List Construct}

/-- Making code tells the faults of some constructs: it succeeds when none of them is at fault, and
otherwise fails with the fault of one of them. -/
def Tells (x : Except CompileError α) (cs : List Construct) : Prop :=
  match x with
  | .ok _ => ∀ c ∈ cs, c.fault? = none
  | .error e => ∃ c ∈ cs, c.fault? = some e

namespace Tells

theorem nil (a : α) : Tells (.ok a) [] := by
  intro c hc
  cases hc

theorem fault {c : Construct} {e : CompileError} (h : c.fault? = some e) (cs : List Construct) :
    Tells (.error e : Except CompileError α) (c :: cs) :=
  ⟨c, List.mem_cons_self, h⟩

/-- A construct that is in order by itself may be added. -/
theorem cons {c : Construct} (hc : c.fault? = none) (h : Tells x cs) : Tells x (c :: cs) := by
  cases x with
  | error e =>
    obtain ⟨d, hd, he⟩ := h
    exact ⟨d, List.mem_cons_of_mem _ hd, he⟩
  | ok a =>
    intro d hd
    rcases List.mem_cons.1 hd with rfl | hd
    · exact hc
    · exact h d hd

/-- The faults of a construct that is in order by itself are those of the others. -/
theorem tail {c : Construct} (hc : c.fault? = none) (h : Tells x (c :: cs)) : Tells x cs := by
  cases x with
  | error e =>
    obtain ⟨d, hd, he⟩ := h
    rcases List.mem_cons.1 hd with rfl | hd
    · rw [hc] at he
      cases he
    · exact ⟨d, hd, he⟩
  | ok a => exact fun d hd => h d (List.mem_cons_of_mem _ hd)

theorem congr (h : Tells x cs) (hmem : ∀ c, c ∈ cs ↔ c ∈ ds) : Tells x ds := by
  cases x with
  | error e =>
    obtain ⟨c, hc, he⟩ := h
    exact ⟨c, (hmem c).1 hc, he⟩
  | ok a => exact fun c hc => h c ((hmem c).2 hc)

/-- Once a fault is among the constructs, more of them make no difference. -/
theorem widen {c : Construct} {e : CompileError} (h : Tells x cs) (hc : c ∈ cs)
    (he : c.fault? = some e) (hsub : cs ⊆ ds) : Tells x ds := by
  cases x with
  | error f =>
    obtain ⟨d, hd, hf⟩ := h
    exact ⟨d, hsub hd, hf⟩
  | ok a =>
    rw [h c hc] at he
    cases he

theorem swap (h : Tells x (cs ++ ds)) : Tells x (ds ++ cs) :=
  h.congr fun c => by rw [List.mem_append, List.mem_append, or_comm]

theorem bind {f : α → Except CompileError β} (h : Tells x cs) (hf : ∀ a, Tells (f a) ds) :
    Tells (x >>= f) (cs ++ ds) := by
  cases x with
  | error e =>
    obtain ⟨c, hc, he⟩ := h
    exact ⟨c, List.mem_append_left ds hc, he⟩
  | ok a =>
    have hds := hf a
    change Tells (f a) (cs ++ ds)
    cases hfa : f a with
    | error e =>
      rw [hfa] at hds
      obtain ⟨c, hc, he⟩ := hds
      exact ⟨c, List.mem_append_right cs hc, he⟩
    | ok b =>
      rw [hfa] at hds
      intro c hc
      rcases List.mem_append.1 hc with hc | hc
      · exact h c hc
      · exact hds c hc

theorem map {f : α → β} (h : Tells x cs) : Tells (x >>= fun a => return f a) cs := by
  have hbind := h.bind fun a => nil (f a)
  rwa [List.append_nil] at hbind

/-- The faults that code made without an error tells are none, and those of an error are at least
one. -/
theorem ok_iff (h : Tells x cs) : (∃ a, x = .ok a) ↔ ∀ c ∈ cs, c.fault? = none := by
  cases x with
  | error e =>
    obtain ⟨c, hc, he⟩ := h
    constructor
    · rintro ⟨a, ha⟩
      cases ha
    · intro hall
      rw [hall c hc] at he
      cases he
  | ok a => exact ⟨fun _ => h, fun _ => ⟨a, rfl⟩⟩

end Tells
end tells

section expressions

mutual

/-- Making the code of an expression tells the faults of everything in it. -/
theorem Expr.tells : ∀ (x : Expr) (push : Bool), Tells (x.code push) x.constructs
  | .integer span text, push => by
    simp only [Expr.code, Expr.constructs]
    cases h : integerLiteral? text with
    | none => exact .fault (by simp [Construct.fault?, exprFault?, h]) []
    | some n => exact .cons (by simp [Construct.fault?, exprFault?, h]) (.nil _)
  | .float span text, push => by
    simp only [Expr.code, Expr.constructs]
    cases h : floatLiteral? text with
    | none => exact .fault (by simp [Construct.fault?, exprFault?, h]) []
    | some n => exact .cons (by simp [Construct.fault?, exprFault?, h]) (.nil _)
  | .string span text, push => .cons rfl (.nil _)
  | .bytes span content, push => .cons rfl (.nil _)
  | .bool span value, push => .cons rfl (.nil _)
  | .none span, push => .cons rfl (.nil _)
  | .tuple span values, push => by
    simp only [Expr.code, Expr.constructs]
    exact .cons rfl (reversedCode_tells values).map
  | .array span values, push => by
    simp only [Expr.code, Expr.constructs]
    exact .cons rfl (reversedCode_tells values).map
  | .hash span entries, push => by
    simp only [Expr.code, Expr.constructs]
    exact .cons rfl (entriesCode_tells entries).map
  | .identifier span name, push => .cons rfl (.nil _)
  | .selector span object name, push => by
    simp only [Expr.code, Expr.constructs]
    exact .cons rfl (Expr.tells object true).map
  | .index span source position, push => by
    simp only [Expr.code, Expr.constructs]
    exact .cons rfl ((Expr.tells source true).bind fun _ => (Expr.tells position true).map)
  | .call span callee arguments, push => by
    simp only [Expr.code, Expr.constructs]
    exact .cons rfl ((reversedCode_tells arguments).bind fun _ => (Expr.tells callee true).map).swap
  | .binary span left operator right, push => by
    simp only [Expr.code, Expr.constructs]
    exact .cons rfl ((Expr.tells right true).bind fun _ => (Expr.tells left true).map).swap
  | .unary span operator operand, push => by
    simp only [Expr.code, Expr.constructs]
    cases operator with
    | plus => exact .fault rfl _
    | negateBits => exact .cons rfl (Expr.tells operand true).map
    | not => exact .cons rfl (Expr.tells operand true).map
    | minus => exact .cons rfl (Expr.tells operand true).map
  | .parentheses span inner, push => by
    simp only [Expr.code, Expr.constructs]
    exact .cons rfl (Expr.tells inner push)
  | .ifElse span condition result alternative, push => by
    simp only [Expr.code, Expr.constructs, List.append_assoc]
    exact .cons rfl ((Expr.tells condition true).bind fun _ => (Expr.tells result push).bind
      fun _ => (alternativeCode_tells alternative push span).map)
  | .unlessElse span condition result alternative, push => by
    simp only [Expr.code, Expr.constructs, List.append_assoc]
    exact .cons rfl ((Expr.tells condition true).bind fun _ => (Expr.tells result push).bind
      fun _ => (alternativeCode_tells alternative push span).map)
  | .lambda span parameters output, push => by
    simp only [Expr.code, Expr.constructs]
    exact .cons rfl (Expr.tells output true).map
  | .generator span operation receivers source, push => by
    simp only [Expr.code, Expr.constructs]
    exact .cons rfl ((Expr.tells source true).bind fun _ => (Expr.tells operation true).map).swap

theorem reversedCode_tells : ∀ xs : List Expr, Tells (reversedCode xs) (exprConstructs xs)
  | [] => .nil _
  | x :: rest => by
    simp only [reversedCode, exprConstructs]
    exact ((reversedCode_tells rest).bind fun _ => (Expr.tells x true).map).swap

theorem entriesCode_tells : ∀ xs : List (Expr × Expr),
    Tells (entriesCode xs) (entryConstructs xs)
  | [] => .nil _
  | (key, value) :: rest => by
    simp only [entriesCode, entryConstructs]
    refine ((entriesCode_tells rest).bind fun _ => ?_).swap
    exact ((Expr.tells value true).bind fun _ => (Expr.tells key true).map).swap

theorem alternativeCode_tells : ∀ (x : Option Expr) (push : Bool) (span : Span),
    Tells (alternativeCode push span x) (alternativeConstructs x)
  | some x, push, _ => Expr.tells x push
  | none, _, _ => .nil _

end

end expressions

section statements

variable {s : Surroundings} {span : Span}

theorem basesCode_tells (bases : List Expr) : Tells (basesCode bases) (exprConstructs bases) := by
  induction bases with
  | nil => exact .nil _
  | cons base rest ih => exact (Expr.tells base true).bind fun _ => ih.map

/-- Making the code that stores into a target that is a place tells the faults of the target. -/
theorem targetCode_tells {target : Expr} (h : targetFault? target = none) (span : Span) :
    Tells (targetCode target span) target.constructs := by
  unfold targetFault? at h
  split at h
  · exact .cons rfl (.nil _)
  · simp only [targetCode, Expr.constructs]
    exact .cons rfl (Expr.tells _ true).map
  · simp only [targetCode, Expr.constructs]
    exact .cons rfl ((Expr.tells _ true).bind fun _ => (Expr.tells _ true).map)
  · cases h

/-- A target that is no place is refused. -/
theorem targetCode_eq_error {target : Expr} {e : CompileError} (h : targetFault? target = some e)
    (span : Span) : targetCode target span = .error e := by
  cases target <;> cases h <;> rfl

/-- The value and the store of an assignment tell the faults of the assignment when the value tells
those of everything in it that the store does not. -/
theorem Tells.store {inLoop : Bool} {target value : Expr} {operator : AssignOp}
    {x : Except CompileError Block} {cs : List Construct} (h : Tells x cs)
    (hmem : ∀ c, c ∈ cs ++ target.constructs ↔ c ∈ target.constructs ++ value.constructs) :
    Tells (do
        let code ← x
        let store ← targetCode target span
        return code ++ store)
      (.node inLoop (.assign span target operator value) ::
        (target.constructs ++ value.constructs)) := by
  cases hfault : targetFault? target with
  | none =>
    exact .cons hfault ((h.bind fun _ => (targetCode_tells hfault span).map).congr hmem)
  | some e =>
    simp only [targetCode_eq_error hfault]
    have hnode : (Construct.node inLoop (.assign span target operator value)).fault? = some e :=
      hfault
    have hrefused := (h.bind fun _ => fault (α := Block) hnode []).swap
    refine hrefused.widen List.mem_cons_self hnode fun c hc => ?_
    rcases List.mem_cons.1 hc with rfl | hc
    · exact List.mem_cons_self
    · exact List.mem_cons_of_mem _ ((hmem c).1 (List.mem_append_left _ hc))

theorem assignCode_tells (inLoop : Bool) (target : Expr) (operator : AssignOp) (value : Expr)
    (span : Span) :
    Tells (assignCode target operator value span)
      (.node inLoop (.assign span target operator value) ::
        (target.constructs ++ value.constructs)) := by
  unfold assignCode
  split
  · rename_i op _
    have hvalue := Expr.tells (.binary span target op value) true
    rw [Expr.constructs] at hvalue
    refine (hvalue.tail rfl).store fun c => ?_
    simp only [List.mem_append]
    tauto
  · refine (Expr.tells value true).store fun c => ?_
    simp only [List.mem_append, or_comm]

theorem loopMarkCode_tells {mark : Op} {name : String} {n : Node}
    (h : nodeFault? s.inLoop n =
      if s.inLoop then none else some (.loopControlOutsideLoop name span)) :
    Tells (loopMarkCode s mark name span) [.node s.inLoop n] := by
  unfold loopMarkCode
  change (Construct.node s.inLoop n).fault? = _ at h
  split at h <;> rename_i hloop
  · rw [if_pos hloop]
    exact .cons h (.nil _)
  · rw [if_neg hloop]
    exact .fault h []

mutual

/-- Making the code of a node tells the faults of everything in it. -/
theorem Node.tells : ∀ (node : Node) (s : Surroundings),
    Tells (node.code s) (node.constructs s.inLoop)
  | .expr e, s => by
    simp only [Node.code, Node.constructs]
    exact .cons rfl (Expr.tells e false)
  | .assign span target operator value, s => by
    simp only [Node.code, Node.constructs]
    exact assignCode_tells s.inLoop target operator value span
  | .conditional span inverted first others alternative, s => by
    simp only [Node.code, Node.constructs, List.append_assoc]
    exact .cons rfl ((branchCode_tells first s).bind fun _ => (branchesCode_tells others s).bind
      fun _ => (optionalCode_tells alternative s).map)
  | .switch span target cases alternative, s => by
    simp only [Node.code, Node.constructs]
    exact .cons rfl ((casesCode_tells cases target span s).bind
      fun _ => (optionalCode_tells alternative s).map)
  | .loop span inverted condition body, s => by
    simp only [Node.code, Node.constructs]
    exact .cons rfl ((Expr.tells condition true).bind
      fun _ => (blockCode_tells body s.insideLoop).map)
  | .doWhile span body condition, s => by
    simp only [Node.code, Node.constructs]
    exact .cons rfl ((blockCode_tells body s.insideLoop).bind
      fun _ => (Expr.tells condition true).map)
  | .forIn span receivers source body, s => by
    simp only [Node.code, Node.constructs]
    exact .fault rfl _
  | .redoLoop span, s => by
    simp only [Node.code, Node.constructs]
    exact loopMarkCode_tells rfl
  | .continueLoop span, s => by
    simp only [Node.code, Node.constructs]
    exact loopMarkCode_tells rfl
  | .breakLoop span, s => by
    simp only [Node.code, Node.constructs]
    exact loopMarkCode_tells rfl
  | .pass span, s => by
    simp only [Node.code, Node.constructs]
    exact .cons rfl (.nil _)
  | .exit span values, s => by
    simp only [Node.code, Node.constructs]
    exact .cons rfl (reversedCode_tells values).map
  | .raise span value, s => by
    simp only [Node.code, Node.constructs]
    exact .cons rfl (Expr.tells value true).map
  | .guarded span body handlers alternative cleanup, s => by
    simp only [Node.code, Node.constructs]
    exact .fault rfl _
  | .function span decl, s => by
    simp only [Node.code, Node.constructs]
    exact .cons rfl (declCode_tells decl s span)
  | .classDef span name bases body, s => by
    simp only [Node.code, Node.constructs]
    exact .cons rfl ((basesCode_tells bases).bind
      fun _ => (blockCode_tells body .inClassBody).map)
  | .interfaceDef span name bases methods, s => by
    simp only [Node.code, Node.constructs]
    exact .cons rfl ((basesCode_tells bases).bind
      fun _ => (methodsCode_tells methods .inClassBody span).map)
  | .moduleDef span name body, s => by
    simp only [Node.code, Node.constructs]
    exact .cons rfl (blockCode_tells body .inFunction).map

theorem blockCode_tells : ∀ (block : List Node) (s : Surroundings),
    Tells (blockCode s block) (blockConstructs s.inLoop block)
  | [], s => .nil _
  | node :: rest, s => by
    simp only [blockCode, blockConstructs]
    exact (Node.tells node s).bind fun _ => (blockCode_tells rest s).map

theorem optionalCode_tells : ∀ (block : Option (List Node)) (s : Surroundings),
    Tells (optionalCode s block) (optionalConstructs s.inLoop block)
  | some block, s => by
    simp only [optionalCode, optionalConstructs]
    exact blockCode_tells block s
  | none, s => .nil _

theorem branchCode_tells : ∀ (branch : Branch Node) (s : Surroundings),
    Tells (branchCode s branch) (branchConstructs s.inLoop branch)
  | ⟨condition, body⟩, s => by
    simp only [branchCode, branchConstructs]
    exact (Expr.tells condition true).bind fun _ => (blockCode_tells body s).map

theorem branchesCode_tells : ∀ (branches : List (Branch Node)) (s : Surroundings),
    Tells (branchesCode s branches) (branchesConstructs s.inLoop branches)
  | [], s => .nil _
  | branch :: rest, s => by
    simp only [branchesCode, branchesConstructs]
    exact (branchCode_tells branch s).bind fun _ => (branchesCode_tells rest s).map

/-- The code of a case holds the target of its switch as well. -/
theorem caseCode_tells : ∀ (block : CaseBlock Node) (target : Expr) (span : Span)
    (s : Surroundings),
    Tells (caseCode s target span block) (target.constructs ++ caseConstructs s.inLoop block)
  | ⟨values, body⟩, target, span, s => by
    have hcondition := Expr.tells (caseCondition target values span) true
    simp only [caseCondition, Expr.constructs] at hcondition
    simp only [caseCode, caseConstructs]
    refine (((hcondition.tail rfl).swap.tail rfl).swap.bind
      fun _ => (blockCode_tells body s).map).congr fun c => ?_
    rw [List.append_assoc]

/-- The codes of cases hold the target of their switch when there is a case. -/
theorem casesCode_tells : ∀ (cases : List (CaseBlock Node)) (target : Expr) (span : Span)
    (s : Surroundings),
    Tells (casesCode s target span cases)
      ((if cases.isEmpty then [] else target.constructs) ++ casesConstructs s.inLoop cases)
  | [], target, span, s => .nil _
  | block :: rest, target, span, s => by
    simp only [casesCode, casesConstructs]
    refine ((caseCode_tells block target span s).bind
      fun _ => (casesCode_tells rest target span s).map).congr fun c => ?_
    cases rest <;> simp
    tauto

theorem declCode_tells : ∀ (decl : FunctionDecl Node) (s : Surroundings) (span : Span),
    Tells (declCode s span decl) (declConstructs decl)
  | ⟨name, parameters, body⟩, s, span => by
    simp only [declCode, declConstructs]
    exact (blockCode_tells body .inFunction).map

theorem methodsCode_tells : ∀ (methods : List (FunctionDecl Node)) (s : Surroundings)
    (span : Span), Tells (methodsCode s span methods) (methodsConstructs methods)
  | [], s, span => .nil _
  | method :: rest, s, span => by
    simp only [methodsCode, methodsConstructs]
    exact (declCode_tells method s span).bind fun _ => (methodsCode_tells rest s span).map

end

/-- Making the code of a program tells the faults of its constructs. -/
theorem Program.tells (p : Program) : Tells p.code p.constructs := by
  unfold Program.code Program.constructs
  rw [List.append_assoc]
  exact (blockCode_tells p.prologue .inFunction).bind fun _ =>
    (blockCode_tells p.body .inFunction).bind fun _ =>
      (blockCode_tells p.epilogue .inFunction).map

/-- A program compiles exactly when it is well-formed, and the error of a program that does not
compile is the fault of one of its constructs. -/
theorem Program.compile_acceptance (p : Program) :
    ((∃ c, p.compile = .ok c) ↔ p.WellFormed) ∧
      ∀ e, p.compile = .error e → ∃ c ∈ p.constructs, c.fault? = some e := by
  have h := p.tells
  unfold Program.compile
  constructor
  · rw [Program.WellFormed, ← h.ok_iff]
    constructor
    · rintro ⟨c, hc⟩
      cases hcode : p.code with
      | error e =>
        rw [hcode] at hc
        cases hc
      | ok code => exact ⟨code, rfl⟩
    · rintro ⟨code, hcode⟩
      exact ⟨Cursor.ofList code, by rw [hcode]; rfl⟩
  · intro e he
    cases hcode : p.code with
    | error f =>
      rw [hcode] at he h
      cases he
      exact h
    | ok code =>
      rw [hcode] at he
      cases he

/-- A loop around a class whose body leaves a loop. -/
def Program.breakInClass : Program :=
  .ofBody [.loop (.onLine 1) false (.bool (.onLine 1) true)
    [.classDef (.onLine 2) "A" [] [.breakLoop (.onLine 3)]]]

/-- A loop around a class is not around what stands in the body of the class. -/
theorem Program.compile_acceptance_break :
    Program.breakInClass.compile = .error (.loopControlOutsideLoop "break" (.onLine 3)) ∧
      ¬ Program.breakInClass.WellFormed ∧
      ∃ c ∈ Program.breakInClass.constructs,
        c.fault? = some (.loopControlOutsideLoop "break" (.onLine 3)) := by
  have hrefused : Program.breakInClass.compile =
      .error (.loopControlOutsideLoop "break" (.onLine 3)) := rfl
  obtain ⟨hiff, herror⟩ := Program.compile_acceptance Program.breakInClass
  refine ⟨hrefused, fun hformed => ?_, herror _ hrefused⟩
  obtain ⟨c, hc⟩ := hiff.2 hformed
  rw [hrefused] at hc
  cases hc

end statements
end ScriptVM
