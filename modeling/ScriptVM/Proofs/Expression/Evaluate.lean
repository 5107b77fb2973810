import ScriptVM.Machine.Step
import ScriptVM.Lowering.Expression

/-!
# Direct evaluation of expressions

The meaning of an expression in a frame, by recursion over the expression and without an operand
stack. The right operand of an operator comes before the left one, elements and arguments from the
last to the first, and the callee after the arguments. Only the bodies of lambdas and generators are
made into code, because functions and generators hold code.
-/
namespace ScriptVM

open Run

namespace Engine

/-- A member of a value, by its name. -/
def select (source : Value) (name : String) : Run Value := do
  match ← lookup source name with
  | some v => return v
  | none => fail (.missingSymbol (← typeName source) name)

/-- What a name means in a frame. -/
def named (id : FrameId) (name : String) : Run Value := do
  match ← resolve id name with
  | some v => return v
  | none => fail (.undefinedIdentifier name)

/-- Stores entries in order. -/
def storeAll (e : Engine) (owner : Value) : List (Value × Value) → Run Unit
  | [] => return ()
  | (key, value) :: rest => do
    e.store owner key value
    e.storeAll owner rest

/-- A hash with entries. -/
def newHash (e : Engine) (entries : List (Value × Value)) : Run Value := do
  let owner ← newObject (.hash .empty)
  e.storeAll owner entries
  return owner

/-- A function without a name that closes over a frame. -/
def newLambda (id : FrameId) (arity : Nat) (body : Block) : Run Value := do
  let scope ← retain id
  newObject (.function ⟨.code ⟨none, arity, .ofList body, scope⟩, none⟩)

/-- A generator over a value that closes over a frame. -/
def newGeneratorOver (e : Engine) (id : FrameId) (source : Value) (receivers : Nat) (body : Block) :
    Run Value := do
  let source ← e.iteratorOf source
  let scope ← retain id
  newObject (.generator ⟨source, .ofList body, receivers, scope, none, .fresh, none⟩)

end Engine

mutual

/-- The value of an expression in a frame. An expression that has no code has no value. -/
def Expr.eval (e : Engine) (id : FrameId) : Expr → Run Value
  | .integer _ text =>
    match integerLiteral? text with
    | some n => newObject (.integer n)
    | none => giveUp
  | .float _ text =>
    match floatLiteral? text with
    | some x => newObject (.float x)
    | none => giveUp
  | .string _ text => newObject (.string text)
  | .bytes _ content => newObject (.bytes content)
  | .bool _ value => newObject (.bool value)
  | .none _ => newObject .none
  | .tuple _ values => do newObject (.tuple (← evalReversed e id values))
  | .array _ values => do newObject (.array (← evalReversed e id values))
  | .hash span entries => do
    let entries ← evalEntries e id entries
    located span (e.newHash entries)
  | .identifier span name => located span (Engine.named id name)
  | .selector span object name => do
    let source ← object.eval e id
    located span (Engine.select source name)
  | .index span source position => do
    let source ← source.eval e id
    let position ← position.eval e id
    located span (e.callSymbol source .index [position])
  | .call span callee arguments => do
    let arguments ← evalReversed e id arguments
    let callee ← callee.eval e id
    located span (e.call callee arguments)
  | .binary span left operator right => do
    let right ← right.eval e id
    let left ← left.eval e id
    located span (e.operation operator.operator left right)
  | .unary span operator operand =>
    match operator.operator? with
    | some machineOperator => do
      let operand ← operand.eval e id
      located span (e.callSymbol operand machineOperator.symbol [])
    | none => giveUp
  | .parentheses _ inner => inner.eval e id
  | .ifElse span condition result alternative => do
    let condition ← condition.eval e id
    if ← located span (e.truthy condition) then result.eval e id
    else evalAlternative e id alternative
  | .unlessElse span condition result alternative => do
    let condition ← condition.eval e id
    if ← located span (e.truthy condition) then evalAlternative e id alternative
    else result.eval e id
  | .lambda span parameters output =>
    match output.code true with
    | .ok output =>
      located span (Engine.newLambda id parameters.length (lambdaBody parameters output span))
    | .error _ => giveUp
  | .generator span operation receivers source =>
    match operation.code true with
    | .ok operation => do
      let source ← source.eval e id
      located span
        (e.newGeneratorOver id source receivers.length (lambdaBody receivers operation span))
    | .error _ => giveUp

/-- The values of expressions in source order, evaluated from the last to the first. -/
def evalReversed (e : Engine) (id : FrameId) : List Expr → Run (List Value)
  | [] => return []
  | x :: rest => do
    let later ← evalReversed e id rest
    let first ← x.eval e id
    return first :: later

/-- The entries of a hash in source order, evaluated from the last to the first and each value
before its key. -/
def evalEntries (e : Engine) (id : FrameId) : List (Expr × Expr) → Run (List (Value × Value))
  | [] => return []
  | (key, value) :: rest => do
    let later ← evalEntries e id rest
    let value ← value.eval e id
    let key ← key.eval e id
    return (key, value) :: later

/-- The value of the alternative of a choice, `None` when there is none. -/
def evalAlternative (e : Engine) (id : FrameId) : Option Expr → Run Value
  | some x => x.eval e id
  | none => newObject .none

end

end ScriptVM
