import ScriptVM.Lowering.Expression
import ScriptVM.Code.Cursor
import ScriptVM.Syntax.Program

/-!
# Code of statements and programs

Every construct becomes a run of instructions of its own, and runs are joined once their lengths
are known, from which jumps and body lengths are computed. A definition is its descriptor
followed by its body, which the machine sets aside and never runs in place.

Loop controls stay in the code of a body as marks until the loop around them is complete; then each
mark becomes the jump that its position calls for. The marks of inner loops have already become jumps
by then.
-/
namespace ScriptVM

/-! ## Loops -/

/-- The shape of a loop around its body. -/
structure LoopLayout where
  bodyLength : Nat
  conditionLength : Nat
  /-- Whether the test follows the body. -/
  testsAfter : Bool

/-- The jump that a mark at a position of the body becomes; other operations stay. -/
def LoopLayout.resolve (layout : LoopLayout) (position : Nat) : Op → Op
  | .breakMark =>
    if layout.testsAfter then .jump (layout.bodyLength + layout.conditionLength - position)
    else .jump (layout.bodyLength - position)
  | .continueMark => .jump (layout.bodyLength - position - 1)
  | .redoMark => .jumpBack (position + 1)
  | op => op

/-- A body from a position on, with its marks turned into jumps. -/
def LoopLayout.resolveFrom (layout : LoopLayout) (position : Nat) : Block → Block
  | [] => []
  | i :: rest =>
    { i with op := layout.resolve position i.op } :: layout.resolveFrom (position + 1) rest

/-- A loop that tests first: test, exit jump, body, jump back to the test. -/
def testFirstCode (inverted : Bool) (condition body : Block) (span : Span) : Block :=
  let layout : LoopLayout := ⟨body.length, condition.length, false⟩
  let skip := body.length + 1
  condition ++ [(if inverted then Op.unlessJump skip else Op.ifJump skip).at span] ++
    layout.resolveFrom 0 body ++ [(Op.jumpBack (condition.length + body.length + 2)).at span]

/-- A loop that tests last: body, test, jump back to the body. -/
def testLastCode (body condition : Block) (span : Span) : Block :=
  let layout : LoopLayout := ⟨body.length, condition.length, true⟩
  layout.resolveFrom 0 body ++ condition ++
    [(Op.unlessJumpBack (body.length + condition.length + 1)).at span]

@[simp] theorem length_resolveFrom (layout : LoopLayout) (position : Nat) (body : Block) :
    (layout.resolveFrom position body).length = body.length := by
  induction body generalizing position with
  | nil => rfl
  | cons i rest ih => simp [LoopLayout.resolveFrom, ih]

/-! ## Statements -/

/-- What surrounds the code being made. -/
structure Surroundings where
  /-- Whether a loop of the same body encloses the code. -/
  inLoop : Bool
  /-- Whether functions defined here become methods of the object under construction. -/
  inClass : Bool
  deriving DecidableEq, Repr

namespace Surroundings

/-- The start of a program, of a function body or of a module body. -/
def inFunction : Surroundings := ⟨false, false⟩

/-- The start of a class or interface body. -/
def inClassBody : Surroundings := ⟨false, true⟩

/-- The body of a loop. -/
def insideLoop (s : Surroundings) : Surroundings := { s with inLoop := true }

end Surroundings

/-- The membership test that decides a case of a switch. -/
def caseCondition (target : Expr) (values : List Expr) (span : Span) : Expr :=
  .binary span target .contains (.tuple span values)

/-- A chain of guarded blocks and what runs when no guard holds. Every block ends with a jump
over the rest of the chain. Only the first guard may be inverted. -/
def chainCode (span : Span) (inverted : Bool) : List (Block × Block) → Block → Block
  | [], alternative => alternative
  | (condition, body) :: rest, alternative =>
    choiceCode inverted condition body (chainCode span false rest alternative) span

/-- The code that stores the value on the operand stack into a target. -/
def targetCode (target : Expr) (span : Span) : Except CompileError Block :=
  match target with
  | .identifier _ name => .ok [(Op.assignIdentifier name).at span]
  | .selector _ object name => do
    let object ← object.code true
    return object ++ [(Op.assignSelector name).at span]
  | .index _ source position => do
    let source ← source.code true
    let position ← position.code true
    return source ++ position ++ [Op.assignIndex.at span]
  | other => .error (.invalidAssignmentTarget other.kindName other.span)

/-- The code of an assignment. A compound one applies its operator to target and value. -/
def assignCode (target : Expr) (operator : AssignOp) (value : Expr) (span : Span) :
    Except CompileError Block := do
  let value ←
    match operator.binary? with
    | some op => (Expr.binary span target op value).code true
    | none => value.code true
  let store ← targetCode target span
  return value ++ store

/-- The mark of a loop control, refused outside of loops. -/
def loopMarkCode (s : Surroundings) (mark : Op) (name : String) (span : Span) :
    Except CompileError Block :=
  if s.inLoop then .ok [mark.at span] else .error (.loopControlOutsideLoop name span)

/-- The code of a function whose block has been made. -/
def functionCode (s : Surroundings) (name : String) (parameters : List String) (block : Block)
    (span : Span) : Block :=
  let body := [(Op.loadArguments parameters).at span] ++ block
  let info : FunctionInfo := ⟨some name, body.length, parameters.length⟩
  [(if s.inClass then Op.newMethod info else Op.newFunction info).at span] ++ body

/-- The code of bases, pushed in source order. -/
def basesCode : List Expr → Except CompileError Block
  | [] => .ok []
  | base :: rest => do
    let first ← base.code true
    let later ← basesCode rest
    return first ++ later

mutual

/-- The code of a node. -/
def Node.code (s : Surroundings) : Node → Except CompileError Block
  | .expr e => e.code false
  | .assign span target operator value => assignCode target operator value span
  | .conditional span inverted first others alternative => do
    let first ← branchCode s first
    let others ← branchesCode s others
    let alternative ← optionalCode s alternative
    return chainCode span inverted (first :: others) alternative
  | .switch span target cases alternative => do
    let cases ← casesCode s target span cases
    let alternative ← optionalCode s alternative
    return chainCode span false cases alternative
  | .loop span inverted condition body => do
    let condition ← condition.code true
    let body ← blockCode s.insideLoop body
    return testFirstCode inverted condition body span
  | .doWhile span body condition => do
    let body ← blockCode s.insideLoop body
    let condition ← condition.code true
    return testLastCode body condition span
  | .forIn span _ _ _ => .error (.unsupportedStatement "for" span)
  | .redoLoop span => loopMarkCode s .redoMark "redo" span
  | .continueLoop span => loopMarkCode s .continueMark "continue" span
  | .breakLoop span => loopMarkCode s .breakMark "break" span
  | .pass span => .ok [Op.nop.at span]
  | .exit span values => do
    let items ← reversedCode values
    return items ++ [(Op.exit values.length).at span]
  | .raise span value => do
    let value ← value.code true
    return value ++ [Op.raise.at span]
  | .guarded span _ _ _ _ => .error (.unsupportedStatement "try" span)
  | .function span decl => declCode s span decl
  | .classDef span name bases body => do
    let bases' ← basesCode bases
    let body ← blockCode .inClassBody body
    let info : ClassInfo := ⟨name, body.length, bases.length⟩
    return bases' ++ [(Op.newClass info).at span] ++ body
  | .interfaceDef span name bases methods => do
    let bases' ← basesCode bases
    let body ← methodsCode .inClassBody span methods
    let info : ClassInfo := ⟨name, body.length, bases.length⟩
    return bases' ++ [(Op.newInterface info).at span] ++ body
  | .moduleDef span name body => do
    let body ← blockCode .inFunction body
    let info : ClassInfo := ⟨name, body.length, 0⟩
    return [(Op.newModule info).at span] ++ body

/-- The code of a block: the codes of its nodes one after the other. -/
def blockCode (s : Surroundings) : List Node → Except CompileError Block
  | [] => .ok []
  | node :: rest => do
    let first ← node.code s
    let later ← blockCode s rest
    return first ++ later

/-- The code of a block that may be absent. -/
def optionalCode (s : Surroundings) : Option (List Node) → Except CompileError Block
  | some block => blockCode s block
  | none => .ok []

/-- The codes of a guard and its block. -/
def branchCode (s : Surroundings) : Branch Node → Except CompileError (Block × Block)
  | ⟨condition, body⟩ => do
    let condition ← condition.code true
    let body ← blockCode s body
    return (condition, body)

/-- The codes of guards and their blocks. -/
def branchesCode (s : Surroundings) : List (Branch Node) → Except CompileError (List (Block × Block))
  | [] => .ok []
  | branch :: rest => do
    let first ← branchCode s branch
    let later ← branchesCode s rest
    return first :: later

/-- The codes of the test and the block of a case. -/
def caseCode (s : Surroundings) (target : Expr) (span : Span) :
    CaseBlock Node → Except CompileError (Block × Block)
  | ⟨values, body⟩ => do
    let condition ← (caseCondition target values span).code true
    let body ← blockCode s body
    return (condition, body)

/-- The codes of the tests and blocks of cases. -/
def casesCode (s : Surroundings) (target : Expr) (span : Span) :
    List (CaseBlock Node) → Except CompileError (List (Block × Block))
  | [] => .ok []
  | block :: rest => do
    let first ← caseCode s target span block
    let later ← casesCode s target span rest
    return first :: later

/-- The code of a function definition. -/
def declCode (s : Surroundings) (span : Span) : FunctionDecl Node → Except CompileError Block
  | ⟨name, parameters, body⟩ => do
    let block ← blockCode .inFunction body
    return functionCode s name parameters block span

/-- The code of methods, one after the other. -/
def methodsCode (s : Surroundings) (span : Span) :
    List (FunctionDecl Node) → Except CompileError Block
  | [] => .ok []
  | method :: rest => do
    let first ← declCode s span method
    let later ← methodsCode s span rest
    return first ++ later

end

/-- The code of a program: its three blocks one after the other. -/
def Program.code (p : Program) : Except CompileError Block := do
  let prologue ← blockCode .inFunction p.prologue
  let body ← blockCode .inFunction p.body
  let epilogue ← blockCode .inFunction p.epilogue
  return prologue ++ body ++ epilogue

/-- The code of a program with a cursor at its start. -/
def Program.compile (p : Program) : Except CompileError Cursor := p.code.map Cursor.ofList

end ScriptVM
