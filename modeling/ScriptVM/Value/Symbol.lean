/-!
# Symbols

The names under which values are asked for behaviour: operators, conversions, hashing, indexing,
iteration. Every operator has a forward symbol, asked of the left operand, and a reflected one,
asked of the right operand. Membership is the exception: it is asked of the container, so its
forward symbol is the reflected one of the container's question.
-/
namespace ScriptVM

/-- A name with a meaning of its own. -/
inductive Symbol where
  | initializer | negBits | negate | negative | add | rightAdd | sub | rightSub | mul | rightMul
  | div | rightDiv | floorDiv | rightFloorDiv | mod | rightMod | pow | rightPow | bitXor
  | rightBitXor | bitAnd | rightBitAnd | bitOr | rightBitOr | bitLeft | rightBitLeft | bitRight
  | rightBitRight | and | rightAnd | or | rightOr | xor | rightXor | equals | rightEquals
  | notEquals | rightNotEquals | greaterThan | rightGreaterThan | lessThan | rightLessThan
  | greaterThanOrEqual | rightGreaterThanOrEqual | lessThanOrEqual | rightLessThanOrEqual
  | contains | rightContains | hash | copy | index | assign | call | iter | hasNext | next
  | classOf | subClasses | toInteger | toFloat | toText | toBool | toArray | toTuple
  deriving DecidableEq, Repr

namespace Symbol

/-- All symbols. -/
def all : List Symbol :=
  [.initializer, .negBits, .negate, .negative, .add, .rightAdd, .sub, .rightSub, .mul,
   .rightMul, .div, .rightDiv, .floorDiv, .rightFloorDiv, .mod, .rightMod, .pow, .rightPow,
   .bitXor, .rightBitXor, .bitAnd, .rightBitAnd, .bitOr, .rightBitOr, .bitLeft, .rightBitLeft,
   .bitRight, .rightBitRight, .and, .rightAnd, .or, .rightOr, .xor, .rightXor, .equals,
   .rightEquals, .notEquals, .rightNotEquals, .greaterThan, .rightGreaterThan, .lessThan,
   .rightLessThan, .greaterThanOrEqual, .rightGreaterThanOrEqual, .lessThanOrEqual,
   .rightLessThanOrEqual, .contains, .rightContains, .hash, .copy, .index, .assign, .call,
   .iter, .hasNext, .next, .classOf, .subClasses, .toInteger, .toFloat, .toText, .toBool,
   .toArray, .toTuple]

/-- The name of a symbol in programs. -/
def name : Symbol → String
  | .initializer => "Initialize"
  | .negBits => "NegBits"
  | .negate => "Negate"
  | .negative => "Negative"
  | .add => "Add"
  | .rightAdd => "RightAdd"
  | .sub => "Sub"
  | .rightSub => "RightSub"
  | .mul => "Mul"
  | .rightMul => "RightMul"
  | .div => "Div"
  | .rightDiv => "RightDiv"
  | .floorDiv => "FloorDiv"
  | .rightFloorDiv => "RightFloorDiv"
  | .mod => "Mod"
  | .rightMod => "RightMod"
  | .pow => "Pow"
  | .rightPow => "RightPow"
  | .bitXor => "BitXor"
  | .rightBitXor => "RightBitXor"
  | .bitAnd => "BitAnd"
  | .rightBitAnd => "RightBitAnd"
  | .bitOr => "BitOr"
  | .rightBitOr => "RightBitOr"
  | .bitLeft => "BitLeft"
  | .rightBitLeft => "RightBitLeft"
  | .bitRight => "BitRight"
  | .rightBitRight => "RightBitRight"
  | .and => "And"
  | .rightAnd => "RightAnd"
  | .or => "Or"
  | .rightOr => "RightOr"
  | .xor => "Xor"
  | .rightXor => "RightXor"
  | .equals => "Equals"
  | .rightEquals => "RightEquals"
  | .notEquals => "NotEquals"
  | .rightNotEquals => "RightNotEquals"
  | .greaterThan => "GreaterThan"
  | .rightGreaterThan => "RightGreaterThan"
  | .lessThan => "LessThan"
  | .rightLessThan => "RightLessThan"
  | .greaterThanOrEqual => "GreaterThanOrEqual"
  | .rightGreaterThanOrEqual => "RightGreaterThanOrEqual"
  | .lessThanOrEqual => "LessThanOrEqual"
  | .rightLessThanOrEqual => "RightLessThanOrEqual"
  | .contains => "Contains"
  | .rightContains => "RightContains"
  | .hash => "Hash"
  | .copy => "Copy"
  | .index => "Index"
  | .assign => "Assign"
  | .call => "Call"
  | .iter => "Iter"
  | .hasNext => "HasNext"
  | .next => "Next"
  | .classOf => "Class"
  | .subClasses => "SubClasses"
  | .toInteger => "ToInteger"
  | .toFloat => "ToFloat"
  | .toText => "ToString"
  | .toBool => "ToBool"
  | .toArray => "ToArray"
  | .toTuple => "ToTuple"

/-- How many arguments the behaviour behind a symbol takes. -/
def arity : Symbol → Nat
  | .initializer | .negBits | .negate | .negative | .hash | .copy | .call | .iter | .hasNext |
  .next | .classOf | .subClasses | .toInteger | .toFloat | .toText | .toBool | .toArray |
  .toTuple => 0
  | .assign => 2
  | _ => 1

/-- The symbol with a name. -/
def ofName? (name : String) : Option Symbol := all.find? fun s => s.name = name

theorem mem_all (s : Symbol) : s ∈ all := by
  cases s <;> decide

end Symbol

/-- The name under which a body finds the value it works on. -/
def selfName : String := "self"

end ScriptVM
