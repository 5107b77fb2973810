import ScriptVM.Machine.Protocol

/-!
# Built-in methods

The form of built-in behaviour: a function of a receiver and a fixed number of arguments.
-/
namespace ScriptVM

/-- A built-in method: what it does for a receiver and arguments. -/
abbrev Method := Engine → Value → List Value → Run Value

namespace Method

open Run

/-- A method without arguments. -/
def nullary (body : Engine → Value → Run Value) : Method := fun e this args =>
  match args with
  | [] => body e this
  | _ => fail (.argumentCount 0 args.length)

/-- A method with one argument. -/
def unary (body : Engine → Value → Value → Run Value) : Method := fun e this args =>
  match args with
  | [x] => body e this x
  | _ => fail (.argumentCount 1 args.length)

/-- A method with two arguments. -/
def binary (body : Engine → Value → Value → Value → Run Value) : Method := fun e this args =>
  match args with
  | [x, y] => body e this x y
  | _ => fail (.argumentCount 2 args.length)

/-- A method that only returns its receiver. -/
def self : Method := nullary fun _ this => return this

/-- A question with one argument; `negated` turns the answer around. -/
def question (negated : Bool) (body : Engine → Value → Value → Run Bool) : Method :=
  unary fun e this other => do newBool (negated != (← body e this other))

/-- The hash of a value, computed once and remembered. A hash of zero is computed every time. -/
def rememberedHash (compute : Engine → Value → Run Int64) : Method := nullary fun e this => do
  match ← read fun m => m.heap.hash? this with
  | some hash => newInteger hash
  | none => do
    let hash ← compute e this
    modifyHeap fun h => h.setHash this hash
    newInteger hash

end Method
end ScriptVM
