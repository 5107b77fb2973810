import ScriptVM.Builtin.Basic
import ScriptVM.Text.FloatText

/-!
# Numbers

Arithmetic and comparison of integers and floats. Two integers are computed with as 64-bit words
that wrap; as soon as one operand is a float, both are. Division gives a float, and floor
division and remainder round towards negative infinity. The reflected symbols are asked of the
right operand, so they swap the operands first.
-/
namespace ScriptVM

/-- A number of either kind. -/
inductive Number where
  | integer (n : Int64)
  | float (x : Float)

namespace Number

/-- The number as a float. -/
def toFloat : Number → Float
  | .integer n => n.toFloat
  | .float x => x

/-- The number that a payload is. -/
def ofKind? : Kind → Option Number
  | .integer n => some (.integer n)
  | .float x => some (.float x)
  | _ => none

/-- The payload of a number. -/
def toKind : Number → Kind
  | .integer n => .integer n
  | .float x => .float x

/-- Whether two numbers are equal. -/
def equal : Number → Number → Bool
  | .integer a, .integer b => a = b
  | a, b => a.toFloat == b.toFloat

end Number

/-- The arithmetic operations. -/
inductive Arithmetic where
  | add | sub | mul | div | floorDiv | mod | pow
  deriving DecidableEq, Repr

/-- The power of a word, by squaring. -/
def wordPower (base : Int64) (exponent : Nat) : Int64 :=
  if exponent = 0 then 1
  else
    let half := wordPower (base * base) (exponent / 2)
    if exponent % 2 = 1 then base * half else half
termination_by exponent
decreasing_by omega

/-- The largest exponent that a power of integers counts with. -/
def maxExponent : Nat := 0xFFFFFFFF

/-- Floor division of words: a quotient that was rounded up towards zero is one too large. -/
def wordFloorDiv (a b : Int64) : Int64 :=
  let quotient := a / b
  if a % b ≠ 0 ∧ ¬(a < 0 ↔ b < 0) then quotient - 1 else quotient

/-- The remainder of floor division: a remainder whose sign is not that of the divisor is off by
the divisor. -/
def wordFloorMod (a b : Int64) : Int64 :=
  let remainder := a % b
  if remainder ≠ 0 ∧ ¬(remainder < 0 ↔ b < 0) then remainder + b else remainder

namespace Arithmetic

/-- The operation on integers. -/
def onIntegers (op : Arithmetic) (a b : Int64) : Except Cause Number :=
  match op with
  | .add => .ok (.integer (a + b))
  | .sub => .ok (.integer (a - b))
  | .mul => .ok (.integer (a * b))
  | .div => if b = 0 then .error .divisionByZero else .ok (.float (a.toFloat / b.toFloat))
  | .floorDiv =>
    if b = 0 then .error .divisionByZero
    else .ok (.integer (wordFloorDiv a b))
  | .mod =>
    if b = 0 then .error .divisionByZero
    else .ok (.integer (wordFloorMod a b))
  | .pow =>
    if 0 ≤ b then .ok (.integer (wordPower a (min b.toInt.toNat maxExponent)))
    else .ok (.float (a.toFloat.pow b.toFloat))

/-- The operation on floats. -/
def onFloats (op : Arithmetic) (a b : Float) : Except Cause Number :=
  match op with
  | .add => .ok (.float (a + b))
  | .sub => .ok (.float (a - b))
  | .mul => .ok (.float (a * b))
  | .div => if b == 0 then .error .divisionByZero else .ok (.float (a / b))
  | .floorDiv => if b == 0 then .error .divisionByZero else .ok (.float (a / b).floor)
  | .mod => if b == 0 then .error .divisionByZero else .ok (.float (a - b * (a / b).floor))
  | .pow => .ok (.float (a.pow b))

/-- The operation on numbers. -/
def compute (op : Arithmetic) : Number → Number → Except Cause Number
  | .integer a, .integer b => op.onIntegers a b
  | a, b => op.onFloats a.toFloat b.toFloat

end Arithmetic

/-- The comparisons. -/
inductive Comparison where
  | greater | less | greaterOrEqual | lessOrEqual
  deriving DecidableEq, Repr

/-- Whether a comparison holds. -/
def Comparison.holds (c : Comparison) : Number → Number → Bool
  | .integer a, .integer b =>
    match c with
    | .greater => b < a
    | .less => a < b
    | .greaterOrEqual => b ≤ a
    | .lessOrEqual => a ≤ b
  | a, b =>
    match c with
    | .greater => b.toFloat < a.toFloat
    | .less => a.toFloat < b.toFloat
    | .greaterOrEqual => b.toFloat ≤ a.toFloat
    | .lessOrEqual => a.toFloat ≤ b.toFloat

/-- The operations on the bits of integers. -/
inductive Bitwise where
  | xor | and | or | left | right
  deriving DecidableEq, Repr

/-- The operation on words. Shifts take the distance modulo 64, and shifting right keeps the
sign. -/
def Bitwise.compute (op : Bitwise) (a b : Int64) : Int64 :=
  match op with
  | .xor => a ^^^ b
  | .and => a &&& b
  | .or => a ||| b
  | .left => a <<< b
  | .right => a >>> b

namespace Symbol

/-- The arithmetic operation of a symbol, and whether the symbol is the reflected one. -/
def arithmetic? : Symbol → Option (Arithmetic × Bool)
  | .add => some (.add, false)
  | .rightAdd => some (.add, true)
  | .sub => some (.sub, false)
  | .rightSub => some (.sub, true)
  | .mul => some (.mul, false)
  | .rightMul => some (.mul, true)
  | .div => some (.div, false)
  | .rightDiv => some (.div, true)
  | .floorDiv => some (.floorDiv, false)
  | .rightFloorDiv => some (.floorDiv, true)
  | .mod => some (.mod, false)
  | .rightMod => some (.mod, true)
  | .pow => some (.pow, false)
  | .rightPow => some (.pow, true)
  | _ => none

/-- The comparison of a symbol, and whether the symbol is the reflected one. -/
def comparison? : Symbol → Option (Comparison × Bool)
  | .greaterThan => some (.greater, false)
  | .rightGreaterThan => some (.greater, true)
  | .lessThan => some (.less, false)
  | .rightLessThan => some (.less, true)
  | .greaterThanOrEqual => some (.greaterOrEqual, false)
  | .rightGreaterThanOrEqual => some (.greaterOrEqual, true)
  | .lessThanOrEqual => some (.lessOrEqual, false)
  | .rightLessThanOrEqual => some (.lessOrEqual, true)
  | _ => none

/-- The operation of a symbol on bits, and whether the symbol is the reflected one. -/
def bitwise? : Symbol → Option (Bitwise × Bool)
  | .bitXor => some (.xor, false)
  | .rightBitXor => some (.xor, true)
  | .bitAnd => some (.and, false)
  | .rightBitAnd => some (.and, true)
  | .bitOr => some (.or, false)
  | .rightBitOr => some (.or, true)
  | .bitLeft => some (.left, false)
  | .rightBitLeft => some (.left, true)
  | .bitRight => some (.right, false)
  | .rightBitRight => some (.right, true)
  | _ => none

end Symbol

namespace Builtin

open Run

/-- A number, or a failure. -/
def expectNumber (v : Value) : Run Number := do
  match Number.ofKind? (← kindOf v) with
  | some n => return n
  | none => failType v ["Integer", "Float"]

/-- A float, or a failure. -/
def expectFloat (v : Value) : Run Float := do
  match ← kindOf v with
  | .float x => return x
  | _ => failType v ["Float"]

/-- The operands in source order; `reflected` says that the receiver is the right one. -/
def inOrder {α : Type} (reflected : Bool) (this other : α) : α × α :=
  if reflected then (other, this) else (this, other)

/-- The method of an arithmetic operation. -/
def arithmetic (op : Arithmetic) (reflected : Bool) : Method :=
  .unary fun _ this other => do
    let thisNumber ← expectNumber this
    let otherNumber ← expectNumber other
    let (left, right) := inOrder reflected thisNumber otherNumber
    match op.compute left right with
    | .ok n => newObject n.toKind
    | .error cause => fail cause

/-- The method of a comparison. -/
def comparison (c : Comparison) (reflected : Bool) : Method :=
  .unary fun _ this other => do
    let thisNumber ← expectNumber this
    let otherNumber ← expectNumber other
    let (left, right) := inOrder reflected thisNumber otherNumber
    newBool (c.holds left right)

/-- The method of an operation on bits. -/
def bitwise (op : Bitwise) (reflected : Bool) : Method :=
  .unary fun _ this other => do
    let thisWord ← Engine.expectInteger this
    let otherWord ← Engine.expectInteger other
    let (left, right) := inOrder reflected thisWord otherWord
    newInteger (op.compute left right)

/-- Numbers are equal by value, and to nothing else. -/
def equalNumbers (_ : Engine) (this other : Value) : Run Bool := read fun m =>
  match Number.ofKind? (m.heap.kind this), Number.ofKind? (m.heap.kind other) with
  | some a, some b => a.equal b
  | _, _ => false

/-- The behaviour that integers and floats share. -/
def number? (s : Symbol) : Option Method :=
  match s.arithmetic?, s.comparison? with
  | some (op, reflected), _ => some (arithmetic op reflected)
  | none, some (c, reflected) => some (comparison c reflected)
  | none, none => equality? equalNumbers s

/-- A method that computes with an integer. -/
def onInteger (body : Int64 → Run Value) : Method :=
  .nullary fun _ this => do body (← Engine.expectInteger this)

/-- A method that computes with a float. -/
def onFloat (body : Float → Run Value) : Method :=
  .nullary fun _ this => do body (← expectFloat this)

/-- The behaviour of Integers. -/
def integer? (s : Symbol) : Option Method :=
  match s with
  | .negBits => some (onInteger fun n => newInteger (~~~n))
  | .negative => some (onInteger fun n => newInteger (-n))
  | .hash => some (onInteger newInteger)
  | .toInteger => some .self
  | .toFloat => some (onInteger fun n => newFloat n.toFloat)
  | .toBool => some (onInteger fun n => newBool (n ≠ 0))
  | s =>
    match s.bitwise? with
    | some (op, reflected) => some (bitwise op reflected)
    | none => number? s

/-- The hash of a float comes from its text. -/
def floatHash (e : Engine) (this : Value) : Run Int64 := do
  return e.digests.text ("Float-" ++ Text.formatFloat (← expectFloat this))

/-- The behaviour of Floats. -/
def float? (s : Symbol) : Option Method :=
  match s with
  | .negative => some (onFloat fun x => newFloat (-x))
  | .hash => some (.rememberedHash floatHash)
  | .toInteger => some (onFloat fun x => newInteger x.toInt64)
  | .toFloat => some .self
  | .toBool => some (onFloat fun x => newBool (x != 0))
  | s => number? s

end Builtin
end ScriptVM
