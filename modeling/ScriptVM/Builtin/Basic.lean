import ScriptVM.Builtin.Method

/-!
# Behaviour of every value

Equality is identity, everything counts as true and shows its text, and the hash comes from the
type and the identity. Types replace what they know better.
-/
namespace ScriptVM.Builtin

open Run

/-- Whether two values are the same object. -/
def isSame (_ : Engine) (this other : Value) : Run Bool := return this = other

/-- The hash of an object as itself. -/
def identityHash (e : Engine) (this : Value) : Run Int64 := do
  return e.digests.text ((← typeName this) ++ "@" ++ toString this.address)

/-- Joins the truth of two values. Both are asked. -/
def connective (join : Bool → Bool → Bool) : Method :=
  .unary fun e this other => do
    let left ← e.truthy this
    let right ← e.truthy other
    newBool (join left right)

/-- The type of a value: its class, or the built-in type. -/
def classOf (_ : Engine) (this : Value) : Run Value := do
  match ← kindOf this with
  | .object cls => return cls
  | kind => builtinType kind.tag

/-- The behaviour behind a symbol that all values have. -/
def common? : Symbol → Option Method
  | .initializer => some (.nullary fun _ _ => newNone)
  | .equals | .rightEquals => some (.question false isSame)
  | .notEquals => some (.question true Engine.equals)
  | .rightNotEquals => some (.question true isSame)
  | .hash => some (.rememberedHash identityHash)
  | .toBool => some (.nullary fun _ _ => newBool true)
  | .toText => some (.nullary fun _ this => do newString (← display this))
  | .negate => some (.nullary fun e this => do newBool (! (← e.truthy this)))
  | .and | .rightAnd => some (connective and)
  | .or | .rightOr => some (connective or)
  | .xor | .rightXor => some (connective xor)
  | .classOf => some (.nullary classOf)
  | .copy => some .self
  | _ => none

/-- A method for each of the four symbols of equality. -/
def equality? (equal : Engine → Value → Value → Run Bool) : Symbol → Option Method
  | .equals | .rightEquals => some (.question false equal)
  | .notEquals | .rightNotEquals => some (.question true equal)
  | _ => none

/-! ## None, Bool and types -/

/-- Every `None` equals every other. -/
def none? : Symbol → Option Method
  | .hash => some (.nullary fun e _ => newInteger (e.digests.text "None"))
  | .toBool => some (.nullary fun _ _ => newBool false)
  | .toText => some (.nullary fun _ _ => newString "None")
  | s => equality? (fun _ _ other => read fun m => m.heap.isNone other) s

/-- The number of a flag. -/
def flagNumber (this : Value) : Run Int64 := do
  return if (← read fun m => m.heap.bool? this) = some true then 1 else 0

/-- Flags are equal by value. -/
def equalFlags (_ : Engine) (this other : Value) : Run Bool := read fun m =>
  match m.heap.bool? this, m.heap.bool? other with
  | some a, some b => a = b
  | _, _ => false

/-- The behaviour of Bools. -/
def bool? : Symbol → Option Method
  | .hash | .toInteger => some (.nullary fun _ this => do newInteger (← flagNumber this))
  | .toFloat => some (.nullary fun _ this => do newFloat (← flagNumber this).toFloat)
  | .toBool => some .self
  | s => equality? equalFlags s

/-- The bases of a type. -/
def basesOf (_ : Engine) (this : Value) : Run Value := do
  match ← kindOf this with
  | .type (.ofClass c) => newObject (.tuple c.bases)
  | .type (.builtin _) => newObject (.tuple [])
  | _ => failType this ["Type"]

/-- The behaviour of types. -/
def type? : Symbol → Option Method
  | .subClasses => some (.nullary basesOf)
  | _ => none

end ScriptVM.Builtin
