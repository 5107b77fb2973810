import ScriptVM.Code.Op
import ScriptVM.Value.Symbol

/-!
# Operators and their symbols

The symbols that the operators of the instruction set ask for.
-/
namespace ScriptVM

/-- The symbol asked of the operand. -/
def UnaryOperator.symbol : UnaryOperator → Symbol
  | .negateBits => .negBits
  | .boolNegate => .negate
  | .negative => .negative

/-- The symbol tried on the left operand. -/
def BinaryOperator.forward : BinaryOperator → Symbol
  | .add => .add
  | .sub => .sub
  | .mul => .mul
  | .div => .div
  | .floorDiv => .floorDiv
  | .mod => .mod
  | .pow => .pow
  | .bitXor => .bitXor
  | .bitAnd => .bitAnd
  | .bitOr => .bitOr
  | .bitLeft => .bitLeft
  | .bitRight => .bitRight
  | .and => .and
  | .or => .or
  | .xor => .xor
  | .equals => .equals
  | .notEquals => .notEquals
  | .greaterThan => .greaterThan
  | .lessThan => .lessThan
  | .greaterThanOrEqual => .greaterThanOrEqual
  | .lessThanOrEqual => .lessThanOrEqual
  | .contains => .rightContains

/-- The symbol tried on the right operand when the forward one is missing or fails. -/
def BinaryOperator.reflected : BinaryOperator → Symbol
  | .add => .rightAdd
  | .sub => .rightSub
  | .mul => .rightMul
  | .div => .rightDiv
  | .floorDiv => .rightFloorDiv
  | .mod => .rightMod
  | .pow => .rightPow
  | .bitXor => .rightBitXor
  | .bitAnd => .rightBitAnd
  | .bitOr => .rightBitOr
  | .bitLeft => .rightBitLeft
  | .bitRight => .rightBitRight
  | .and => .rightAnd
  | .or => .rightOr
  | .xor => .rightXor
  | .equals => .rightEquals
  | .notEquals => .rightNotEquals
  | .greaterThan => .rightGreaterThan
  | .lessThan => .rightLessThan
  | .greaterThanOrEqual => .rightGreaterThanOrEqual
  | .lessThanOrEqual => .rightLessThanOrEqual
  | .contains => .contains

end ScriptVM
