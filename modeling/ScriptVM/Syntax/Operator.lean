/-!
# Source operators

The operators of the source language as they are written, and the binary operator that a
compound assignment applies.
-/
namespace ScriptVM

/-- A binary operator of the source. -/
inductive BinaryOp where
  | add | sub | mul | div | floorDiv | mod | pow
  | bitXor | bitAnd | bitOr | bitLeft | bitRight
  | and | or | xor
  | equals | notEquals | greaterThan | lessThan | greaterOrEqual | lessOrEqual
  /-- Membership: the right operand is asked whether it contains the left one. -/
  | contains
  deriving DecidableEq, Repr

/-- A unary operator of the source. -/
inductive UnaryOp where
  | negateBits | not | minus | plus
  deriving DecidableEq, Repr

/-- How a unary operator is written. -/
def UnaryOp.text : UnaryOp → String
  | .negateBits => "~"
  | .not => "not"
  | .minus => "-"
  | .plus => "+"

/-- An assignment: plain, or combined with one of the arithmetic and bitwise operators. -/
inductive AssignOp where
  | assign | add | sub | mul | div | floorDiv | mod | pow
  | bitXor | bitAnd | bitOr | bitLeft | bitRight
  deriving DecidableEq, Repr

/-- The operator that a compound assignment applies to its target and value. -/
def AssignOp.binary? : AssignOp → Option BinaryOp
  | .assign => none
  | .add => some .add
  | .sub => some .sub
  | .mul => some .mul
  | .div => some .div
  | .floorDiv => some .floorDiv
  | .mod => some .mod
  | .pow => some .pow
  | .bitXor => some .bitXor
  | .bitAnd => some .bitAnd
  | .bitOr => some .bitOr
  | .bitLeft => some .bitLeft
  | .bitRight => some .bitRight

end ScriptVM
