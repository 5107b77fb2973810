import ScriptVM.Lowering.Statement

/-!
# Constructs of a program

The expressions and nodes that stand anywhere in a program, each node with the answer to whether a
loop of its own body is around it. A construct is looked at alone: a literal that is no number, an
operator or a statement that has no code, an assignment to something else than a place, and a loop
control outside of loops are at fault, and nothing else is.
-/
namespace ScriptVM

/-- An expression, or a node and whether a loop of the same body encloses it. -/
inductive Construct where
  | expr (e : Expr)
  | node (inLoop : Bool) (n : Node)

/-- The fault of an expression by itself. -/
def exprFault? : Expr → Option CompileError
  | .integer span text =>
    if (integerLiteral? text).isNone then some (.invalidLiteral "integer" text span) else none
  | .float span text =>
    if (floatLiteral? text).isNone then some (.invalidLiteral "float" text span) else none
  | .unary span .plus _ => some (.unsupportedOperator "+" "unary expression" span)
  | _ => none

/-- The fault of an expression as the target of an assignment. -/
def targetFault? : Expr → Option CompileError
  | .identifier .. | .selector .. | .index .. => none
  | other => some (.invalidAssignmentTarget other.kindName other.span)

/-- The fault of a node by itself. -/
def nodeFault? (inLoop : Bool) : Node → Option CompileError
  | .assign _ target _ _ => targetFault? target
  | .forIn span .. => some (.unsupportedStatement "for" span)
  | .guarded span .. => some (.unsupportedStatement "try" span)
  | .redoLoop span => if inLoop then none else some (.loopControlOutsideLoop "redo" span)
  | .continueLoop span => if inLoop then none else some (.loopControlOutsideLoop "continue" span)
  | .breakLoop span => if inLoop then none else some (.loopControlOutsideLoop "break" span)
  | _ => none

/-- The fault of a construct by itself. -/
def Construct.fault? : Construct → Option CompileError
  | .expr e => exprFault? e
  | .node inLoop n => nodeFault? inLoop n

mutual

/-- An expression and everything in it. -/
def Expr.constructs : Expr → List Construct
  | .tuple span values => .expr (.tuple span values) :: exprConstructs values
  | .array span values => .expr (.array span values) :: exprConstructs values
  | .hash span entries => .expr (.hash span entries) :: entryConstructs entries
  | .selector span object name => .expr (.selector span object name) :: object.constructs
  | .index span source position =>
    .expr (.index span source position) :: (source.constructs ++ position.constructs)
  | .call span callee arguments =>
    .expr (.call span callee arguments) :: (callee.constructs ++ exprConstructs arguments)
  | .binary span left operator right =>
    .expr (.binary span left operator right) :: (left.constructs ++ right.constructs)
  | .unary span operator operand => .expr (.unary span operator operand) :: operand.constructs
  | .parentheses span inner => .expr (.parentheses span inner) :: inner.constructs
  | .ifElse span condition result alternative =>
    .expr (.ifElse span condition result alternative) ::
      (condition.constructs ++ result.constructs ++ alternativeConstructs alternative)
  | .unlessElse span condition result alternative =>
    .expr (.unlessElse span condition result alternative) ::
      (condition.constructs ++ result.constructs ++ alternativeConstructs alternative)
  | .lambda span parameters output => .expr (.lambda span parameters output) :: output.constructs
  | .generator span operation receivers source =>
    .expr (.generator span operation receivers source) ::
      (operation.constructs ++ source.constructs)
  | leaf => [.expr leaf]

/-- Everything in some expressions. -/
def exprConstructs : List Expr → List Construct
  | [] => []
  | e :: rest => e.constructs ++ exprConstructs rest

/-- Everything in the entries of a hash. -/
def entryConstructs : List (Expr × Expr) → List Construct
  | [] => []
  | (key, value) :: rest => key.constructs ++ value.constructs ++ entryConstructs rest

/-- Everything in an expression that may be absent. -/
def alternativeConstructs : Option Expr → List Construct
  | some e => e.constructs
  | none => []

end

mutual

/-- A node and everything in it. A loop is around its body, and around nothing in a body of a
function, a class, an interface or a module that stands there. The target of a switch without cases
is no part of it. -/
def Node.constructs (inLoop : Bool) : Node → List Construct
  | .expr e => .node inLoop (.expr e) :: e.constructs
  | .assign span target operator value =>
    .node inLoop (.assign span target operator value) :: (target.constructs ++ value.constructs)
  | .conditional span inverted first others alternative =>
    .node inLoop (.conditional span inverted first others alternative) ::
      (branchConstructs inLoop first ++ branchesConstructs inLoop others ++
        optionalConstructs inLoop alternative)
  | .switch span target cases alternative =>
    .node inLoop (.switch span target cases alternative) ::
      ((if cases.isEmpty then [] else target.constructs) ++ casesConstructs inLoop cases ++
        optionalConstructs inLoop alternative)
  | .loop span inverted condition body =>
    .node inLoop (.loop span inverted condition body) ::
      (condition.constructs ++ blockConstructs true body)
  | .doWhile span body condition =>
    .node inLoop (.doWhile span body condition) ::
      (blockConstructs true body ++ condition.constructs)
  | .forIn span receivers source body =>
    .node inLoop (.forIn span receivers source body) ::
      (source.constructs ++ blockConstructs true body)
  | .exit span values => .node inLoop (.exit span values) :: exprConstructs values
  | .raise span value => .node inLoop (.raise span value) :: value.constructs
  | .guarded span body handlers alternative cleanup =>
    .node inLoop (.guarded span body handlers alternative cleanup) ::
      (blockConstructs inLoop body ++ handlersConstructs inLoop handlers ++
        optionalConstructs inLoop alternative ++ optionalConstructs inLoop cleanup)
  | .function span decl => .node inLoop (.function span decl) :: declConstructs decl
  | .classDef span name bases body =>
    .node inLoop (.classDef span name bases body) ::
      (exprConstructs bases ++ blockConstructs false body)
  | .interfaceDef span name bases methods =>
    .node inLoop (.interfaceDef span name bases methods) ::
      (exprConstructs bases ++ methodsConstructs methods)
  | .moduleDef span name body =>
    .node inLoop (.moduleDef span name body) :: blockConstructs false body
  | leaf => [.node inLoop leaf]

/-- Everything in a block. -/
def blockConstructs (inLoop : Bool) : List Node → List Construct
  | [] => []
  | node :: rest => node.constructs inLoop ++ blockConstructs inLoop rest

/-- Everything in a block that may be absent. -/
def optionalConstructs (inLoop : Bool) : Option (List Node) → List Construct
  | some block => blockConstructs inLoop block
  | none => []

/-- Everything in a guard and its block. -/
def branchConstructs (inLoop : Bool) : Branch Node → List Construct
  | ⟨condition, body⟩ => condition.constructs ++ blockConstructs inLoop body

/-- Everything in guards and their blocks. -/
def branchesConstructs (inLoop : Bool) : List (Branch Node) → List Construct
  | [] => []
  | branch :: rest => branchConstructs inLoop branch ++ branchesConstructs inLoop rest

/-- Everything in a case. -/
def caseConstructs (inLoop : Bool) : CaseBlock Node → List Construct
  | ⟨values, body⟩ => exprConstructs values ++ blockConstructs inLoop body

/-- Everything in the cases of a switch. -/
def casesConstructs (inLoop : Bool) : List (CaseBlock Node) → List Construct
  | [] => []
  | block :: rest => caseConstructs inLoop block ++ casesConstructs inLoop rest

/-- Everything in a handler of guarded code. -/
def handlerConstructs (inLoop : Bool) : ExceptBlock Node → List Construct
  | ⟨targets, _, body⟩ => exprConstructs targets ++ blockConstructs inLoop body

/-- Everything in the handlers of guarded code. -/
def handlersConstructs (inLoop : Bool) : List (ExceptBlock Node) → List Construct
  | [] => []
  | handler :: rest => handlerConstructs inLoop handler ++ handlersConstructs inLoop rest

/-- Everything in a function. -/
def declConstructs : FunctionDecl Node → List Construct
  | ⟨_, _, body⟩ => blockConstructs false body

/-- Everything in the methods of an interface. -/
def methodsConstructs : List (FunctionDecl Node) → List Construct
  | [] => []
  | method :: rest => declConstructs method ++ methodsConstructs rest

end

namespace Program

/-- The constructs of a program. -/
def constructs (p : Program) : List Construct :=
  blockConstructs false p.prologue ++ blockConstructs false p.body ++
    blockConstructs false p.epilogue

/-- No construct is at fault. -/
def WellFormed (p : Program) : Prop := ∀ c ∈ p.constructs, c.fault? = none

end Program
end ScriptVM
