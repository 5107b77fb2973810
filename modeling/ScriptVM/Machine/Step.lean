import ScriptVM.Machine.Call

/-!
# Single instructions

What each operation does in a frame. A step tells where the body goes on, or that it is left
with a value.
-/
namespace ScriptVM

/-- How a body goes on after an instruction. -/
inductive Flow where
  | next (cursor : Cursor)
  /-- The body is left with a value; the cursor stands behind the instruction that left it. -/
  | leave (value : Value) (cursor : Cursor)

namespace Engine

open Run

/-- Produces an object: it becomes the last one of the frame. -/
def produce (id : FrameId) (kind : Kind) : Run Unit := do setLast id (← newObject kind)

/-! ## Aggregates -/

/-- Pops entries, each key before its value, into a hash. -/
def fillHash (e : Engine) (id : FrameId) (owner : Value) : Nat → Run Unit
  | 0 => return ()
  | count + 1 => do
    let key ← pop id
    let value ← pop id
    e.keep [.value owner] (e.store owner key value)
    e.fillHash id owner count

/-! ## Control -/

/-- Pops a condition. -/
def popCondition (e : Engine) (id : FrameId) : Run Bool := do e.truthy (← pop id)

/-- Goes back, or fails when this leads out of the running code. -/
def goBack (c : Cursor) (offset : Nat) : Run Flow :=
  match c.jumpBack? offset with
  | some c => return .next c
  | none => fail .jumpOutOfRange

/-- The value that a body is left with: none, a single one, or several as a tuple. -/
def exitValue : List Value → Run Value
  | [] => newNone
  | [v] => return v
  | vs => newObject (.tuple vs)

/-! ## Definitions -/

/-- Binds arguments from the operands to names, in order. -/
def loadArguments (id : FrameId) : List String → Run Unit
  | [] => return ()
  | name :: rest => do
    define id name (← pop id)
    loadArguments id rest

/-- Makes a function whose body comes next in the code. -/
def newFunction (id : FrameId) (c : Cursor) (info : FunctionInfo) : Run (Value × Cursor) := do
  let (body, after) := c.cut info.bodyLength
  let scope ← retain id
  let v ← newObject (.function ⟨.code ⟨info.name, info.arity, body, scope⟩, none⟩)
  return (v, after)

/-- Installs a method on the object that is under construction. -/
def newMethod (id : FrameId) (c : Cursor) (info : FunctionInfo) : Run Cursor := do
  let (body, after) := c.cut info.bodyLength
  let target ← top id
  let name := info.name.getD ""
  let scope ← retain (← methodScope id)
  modifyHeap fun h => h.setMember target name (.method ⟨some name, info.arity, body, scope⟩)
  return after

/-- Makes a generator over what is popped; its body comes next in the code. -/
def newGenerator (e : Engine) (id : FrameId) (c : Cursor) (info : GeneratorInfo) : Run Cursor := do
  let source ← e.iteratorOf (← pop id)
  let (body, after) := c.cut info.operationLength
  let scope ← retain id
  produce id (.generator ⟨source, body, info.receiverCount, scope, none, .fresh, none⟩)
  return after

/-- Fails unless every value is a type. -/
def expectTypes (vs : List Value) : Run Unit :=
  vs.forM fun v => do
    match ← kindOf v with
    | .type _ => return ()
    | _ => failType v ["Type"]

/-- Makes a class whose body comes next in the code. The body runs once per object. -/
def newClass (id : FrameId) (c : Cursor) (info : ClassInfo) : Run Cursor := do
  let bases := (← popMany id info.baseCount).reverse
  expectTypes bases
  let (body, after) := c.cut info.bodyLength
  let scope ← retain id
  let cls ← newObject (.type (.ofClass ⟨info.name, bases, body, scope⟩))
  assign id info.name cls
  setLast id cls
  return after

/-- Makes a module and runs its body, which comes next in the code, at once. -/
def newModule (e : Engine) (id : FrameId) (c : Cursor) (info : ClassInfo) : Run Cursor := do
  let (body, after) := c.cut info.bodyLength
  let module ← newObject (.module info.name)
  discard (e.keep [.value module] (e.runIn id (some module) true module [] body))
  assign id info.name module
  setLast id module
  return after

/-! ## Steps -/

/-- Executes an operation in a frame; the cursor stands behind it. -/
def step (e : Engine) (id : FrameId) (c : Cursor) (op : Op) : Run Flow := do
  match op with
  | .newString s => do produce id (.string s); return .next c
  | .newBytes content => do produce id (.bytes content); return .next c
  | .newInteger n => do produce id (.integer n); return .next c
  | .newFloat x => do produce id (.float x.value); return .next c
  | .getTrue => do produce id (.bool true); return .next c
  | .getFalse => do produce id (.bool false); return .next c
  | .getNone => do produce id .none; return .next c
  | .newTuple count => do
    produce id (.tuple (← popMany id count))
    return .next c
  | .newArray count => do
    produce id (.array (← popMany id count))
    return .next c
  | .newHash count => do
    let owner ← newObject (.hash .empty)
    e.fillHash id owner count
    setLast id owner
    return .next c
  | .push => do
    match ← last id with
    | some v => push id v
    | none => push id (← newNone)
    return .next c
  | .unary operator => do
    let operand ← pop id
    setLast id (← e.callSymbol operand operator.symbol [])
    return .next c
  | .binary operator => do
    let left ← pop id
    let right ← pop id
    setLast id (← e.keep [.value left, .value right] (e.operation operator left right))
    return .next c
  | .getIdentifier name => do
    match ← resolve id name with
    | some v => setLast id v
    | none => fail (.undefinedIdentifier name)
    return .next c
  | .selectName name => do
    let source ← pop id
    match ← lookup source name with
    | some v => setLast id v
    | none => fail (.missingSymbol (← typeName source) name)
    return .next c
  | .index => do
    let index ← pop id
    let source ← pop id
    setLast id (← e.callSymbol source .index [index])
    return .next c
  | .methodInvocation count => do
    let callee ← pop id
    let args ← popMany id count
    setLast id (← e.call callee args)
    return .next c
  | .assignIdentifier name => do
    assign id name (← pop id)
    return .next c
  | .assignSelector name => do
    let receiver ← pop id
    let value ← pop id
    modifyHeap fun h => h.setValue receiver name value
    return .next c
  | .assignIndex => do
    let index ← pop id
    let receiver ← pop id
    let element ← pop id
    discard (e.callSymbol receiver .assign [index, element])
    return .next c
  | .jump offset => return .next (c.jump offset)
  | .jumpBack offset => goBack c offset
  | .ifJump offset => return .next (if ← e.popCondition id then c else c.jump offset)
  | .unlessJump offset => return .next (if ← e.popCondition id then c.jump offset else c)
  | .ifJumpBack offset =>
    if ← e.popCondition id then return .next c else goBack c offset
  | .unlessJumpBack offset =>
    if ← e.popCondition id then goBack c offset else return .next c
  | .nop => return .next c
  | .redoMark | .continueMark | .breakMark => fail .unresolvedLoopControl
  | .loadArguments names => do
    loadArguments id names
    return .next c
  | .newFunction info => do
    let (v, after) ← newFunction id c info
    match info.name with
    | some name => assign id name v
    | none => pure ()
    setLast id v
    return .next after
  | .newLambda info => do
    let (v, after) ← newFunction id c info
    setLast id v
    return .next after
  | .newMethod info => return .next (← newMethod id c info)
  | .newGenerator info => return .next (← e.newGenerator id c info)
  | .newClass info | .newInterface info => return .next (← newClass id c info)
  | .newModule info => return .next (← e.newModule id c info)
  | .exit count => do
    let v ← exitValue (← popMany id count)
    return .leave v c
  | .raise => do fail (.raised (← pop id))

end Engine
end ScriptVM
