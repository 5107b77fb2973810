import ScriptVM.Code.Op
import ScriptVM.Lowering.Error
import ScriptVM.Lowering.Literal
import ScriptVM.Syntax.Expr

/-!
# Code of expressions

Every expression leaves its value in the last-object register; in push mode it also moves it
onto the operand stack. Operands that an instruction pops in source order are pushed in reverse,
so the right operand of an operator is evaluated before the left one, and the elements of a
container and the arguments of a call from the last to the first.
-/
namespace ScriptVM

/-- A run of instructions made from one construct. -/
abbrev Block := List Instruction

/-- The instruction for an operation at a place. -/
def Op.at (op : Op) (span : Span) : Instruction := ⟨op, span.line⟩

/-- The instruction that pushes the last object, in push mode. -/
def pushIf (push : Bool) (span : Span) : Block := if push then [Op.push.at span] else []

/-- The machine's operator for a binary operator of the source. -/
def BinaryOp.operator : BinaryOp → BinaryOperator
  | .add => .add
  | .sub => .sub
  | .mul => .mul
  | .div => .div
  | .floorDiv => .floorDiv
  | .mod => .mod
  | .pow => .pow
  | .bitXor => .bitXor
  | .bitAnd => .bitAnd
  | .bitOr => .bitOr
  | .bitLeft => .bitLeft
  | .bitRight => .bitRight
  | .and => .and
  | .or => .or
  | .xor => .xor
  | .equals => .equals
  | .notEquals => .notEquals
  | .greaterThan => .greaterThan
  | .lessThan => .lessThan
  | .greaterOrEqual => .greaterThanOrEqual
  | .lessOrEqual => .lessThanOrEqual
  | .contains => .contains

/-- The machine's operator for a unary operator of the source; a plus sign has none. -/
def UnaryOp.operator? : UnaryOp → Option UnaryOperator
  | .negateBits => some .negateBits
  | .not => some .boolNegate
  | .minus => some .negative
  | .plus => none

/-- The code of a choice between two pieces of code, after its condition. -/
def choiceCode (inverted : Bool) (condition chosen alternative : Block) (span : Span) : Block :=
  let skip := chosen.length + 1
  condition ++ [(if inverted then Op.unlessJump skip else Op.ifJump skip).at span] ++
    chosen ++ [(Op.jump alternative.length).at span] ++ alternative

/-- The body of a lambda or of a generator: bind the names, evaluate, leave with the value. -/
def lambdaBody (names : List String) (output : Block) (span : Span) : Block :=
  [(Op.loadArguments names).at span] ++ output ++ [(Op.exit 1).at span]

mutual

/-- The code of an expression. -/
def Expr.code (push : Bool) : Expr → Except CompileError Block
  | .integer span text =>
    match integerLiteral? text with
    | some n => .ok ([(Op.newInteger n).at span] ++ pushIf push span)
    | none => .error (.invalidLiteral "integer" text span)
  | .float span text =>
    match floatLiteral? text with
    | some x => .ok ([(Op.newFloat (.ofFloat x)).at span] ++ pushIf push span)
    | none => .error (.invalidLiteral "float" text span)
  | .string span text => .ok ([(Op.newString text).at span] ++ pushIf push span)
  | .bytes span content => .ok ([(Op.newBytes content).at span] ++ pushIf push span)
  | .bool span value =>
    .ok ([(if value then Op.getTrue else Op.getFalse).at span] ++ pushIf push span)
  | .none span => .ok ([Op.getNone.at span] ++ pushIf push span)
  | .tuple span values => do
    let items ← reversedCode values
    return items ++ [(Op.newTuple values.length).at span] ++ pushIf push span
  | .array span values => do
    let items ← reversedCode values
    return items ++ [(Op.newArray values.length).at span] ++ pushIf push span
  | .hash span entries => do
    let pairs ← entriesCode entries
    return pairs ++ [(Op.newHash entries.length).at span] ++ pushIf push span
  | .identifier span name => .ok ([(Op.getIdentifier name).at span] ++ pushIf push span)
  | .selector span object name => do
    let object ← object.code true
    return object ++ [(Op.selectName name).at span] ++ pushIf push span
  | .index span source position => do
    let source ← source.code true
    let position ← position.code true
    return source ++ position ++ [Op.index.at span] ++ pushIf push span
  | .call span callee arguments => do
    let items ← reversedCode arguments
    let callee ← callee.code true
    return items ++ callee ++ [(Op.methodInvocation arguments.length).at span] ++ pushIf push span
  | .binary span left operator right => do
    let right ← right.code true
    let left ← left.code true
    return right ++ left ++ [(Op.binary operator.operator).at span] ++ pushIf push span
  | .unary span operator operand =>
    match operator.operator? with
    | some machineOperator => do
      let operand ← operand.code true
      return operand ++ [(Op.unary machineOperator).at span] ++ pushIf push span
    | none => .error (.unsupportedOperator operator.text "unary expression" span)
  | .parentheses _ inner => inner.code push
  | .ifElse span condition result alternative => do
    let condition ← condition.code true
    let result ← result.code push
    let alternative ← alternativeCode push span alternative
    return choiceCode false condition result alternative span
  | .unlessElse span condition result alternative => do
    let condition ← condition.code true
    let result ← result.code push
    let alternative ← alternativeCode push span alternative
    return choiceCode true condition result alternative span
  | .lambda span parameters output => do
    let output ← output.code true
    let body := lambdaBody parameters output span
    let info : FunctionInfo := ⟨none, body.length, parameters.length⟩
    return [(Op.newLambda info).at span] ++ body ++ pushIf push span
  | .generator span operation receivers source => do
    let source ← source.code true
    let operation ← operation.code true
    let body := lambdaBody receivers operation span
    let info : GeneratorInfo := ⟨receivers.length, body.length⟩
    return source ++ [(Op.newGenerator info).at span] ++ body ++ pushIf push span

/-- The code that pushes values from the last to the first. -/
def reversedCode : List Expr → Except CompileError Block
  | [] => .ok []
  | e :: rest => do
    let later ← reversedCode rest
    let first ← e.code true
    return later ++ first

/-- The code that pushes the entries of a hash from the last to the first, each value before
its key. -/
def entriesCode : List (Expr × Expr) → Except CompileError Block
  | [] => .ok []
  | (key, value) :: rest => do
    let later ← entriesCode rest
    let value ← value.code true
    let key ← key.code true
    return later ++ value ++ key

/-- The code of the alternative of a choice, `None` when there is none. -/
def alternativeCode (push : Bool) (span : Span) : Option Expr → Except CompileError Block
  | some e => e.code push
  | none => .ok ([Op.getNone.at span] ++ pushIf push span)

end

end ScriptVM
