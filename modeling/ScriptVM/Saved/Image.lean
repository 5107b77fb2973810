import ScriptVM.Code.Listing
import ScriptVM.Saved.Tree

/-!
# Images of code

Saved code is a record of a format number and a list of instructions. An operation without
operand is its name; every other one is a map from its name to its operand. Writing goes to a
`Tree`, and reading comes from one, so that the text form and the binary form share both.
-/
namespace ScriptVM

/-- The format number of the images that this library writes and reads. -/
def imageFormat : Nat := 1

/-- The names of the operations in images, in the order that numbers them. -/
def opTags : List String :=
  ["NewString", "NewBytes", "NewInteger", "NewFloat", "GetTrue", "GetFalse", "GetNone", "NewTuple",
   "NewArray", "NewHash", "Push", "Unary", "Binary", "GetIdentifier", "SelectNameFromObject",
   "Index", "MethodInvocation", "AssignIdentifier", "AssignSelector", "AssignIndex", "Jump",
   "RJump", "IfJump", "UnlessJump", "RIfJump", "RUnlessJump", "Nop", "Redo", "Continue", "Break",
   "LoadFunctionArguments", "NewFunction", "NewLambdaFunction", "NewClassFunction",
   "NewGenerator", "NewClass", "NewInterface", "NewModule", "Return", "Raise"]

/-- The unary operators in the order that numbers them. -/
def unaryOperators : List UnaryOperator := [.negateBits, .boolNegate, .negative]

/-- The binary operators in the order that numbers them. -/
def binaryOperators : List BinaryOperator :=
  [.add, .sub, .mul, .div, .floorDiv, .mod, .pow, .bitXor, .bitAnd, .bitOr, .bitLeft, .bitRight,
   .and, .or, .xor, .equals, .notEquals, .greaterThan, .lessThan, .greaterThanOrEqual,
   .lessThanOrEqual, .contains]

namespace FunctionInfo

/-- The names of the fields. -/
def fieldNames : List String := ["name", "body_length", "arg_count"]

/-- The record of a function descriptor. -/
def toTree (info : FunctionInfo) : Tree :=
  .record [("name", info.name.elim .null .text), ("body_length", .integer info.bodyLength),
    ("arg_count", .integer info.arity)]

/-- A function descriptor from its record. -/
def ofTree? (d : Dialect) (t : Tree) : Option FunctionInfo := do
  match ← t.fields? d fieldNames with
  | [name, bodyLength, arity] => do
    let name ← (name.getD .null).optional? Tree.text?
    let bodyLength ← bodyLength.bind Tree.count?
    let arity ← arity.bind Tree.count?
    return ⟨name, bodyLength, arity⟩
  | _ => none

end FunctionInfo

namespace ClassInfo

/-- The names of the fields. -/
def fieldNames : List String := ["name", "body_length", "base_count"]

/-- The record of a class descriptor. -/
def toTree (info : ClassInfo) : Tree :=
  .record [("name", .text info.name), ("body_length", .integer info.bodyLength),
    ("base_count", .integer info.baseCount)]

/-- A class descriptor from its record. -/
def ofTree? (d : Dialect) (t : Tree) : Option ClassInfo := do
  match ← t.fields? d fieldNames with
  | [name, bodyLength, baseCount] => do
    let name ← name.bind Tree.text?
    let bodyLength ← bodyLength.bind Tree.count?
    let baseCount ← baseCount.bind Tree.count?
    return ⟨name, bodyLength, baseCount⟩
  | _ => none

end ClassInfo

namespace GeneratorInfo

/-- The names of the fields. -/
def fieldNames : List String := ["receiver_count", "operation_length"]

/-- The record of a generator descriptor. -/
def toTree (info : GeneratorInfo) : Tree :=
  .record [("receiver_count", .integer info.receiverCount),
    ("operation_length", .integer info.operationLength)]

/-- A generator descriptor from its record. -/
def ofTree? (d : Dialect) (t : Tree) : Option GeneratorInfo := do
  match ← t.fields? d fieldNames with
  | [receiverCount, operationLength] => do
    let receiverCount ← receiverCount.bind Tree.count?
    let operationLength ← operationLength.bind Tree.count?
    return ⟨receiverCount, operationLength⟩
  | _ => none

end GeneratorInfo

/-- An operator from its name or number; it carries nothing. -/
def operatorOfTree? {α : Type} (d : Dialect) (operators : List α) (name : α → String)
    (t : Tree) : Option α := do
  let (i, payload) ← t.tagged? d (operators.map name)
  match payload with
  | none | some .null => operators[i]?
  | some _ => none

namespace Op

/-- The name of an operation in images. -/
def tag : Op → String
  | .newString _ => "NewString"
  | .newBytes _ => "NewBytes"
  | .newInteger _ => "NewInteger"
  | .newFloat _ => "NewFloat"
  | .getTrue => "GetTrue"
  | .getFalse => "GetFalse"
  | .getNone => "GetNone"
  | .newTuple _ => "NewTuple"
  | .newArray _ => "NewArray"
  | .newHash _ => "NewHash"
  | .push => "Push"
  | .unary _ => "Unary"
  | .binary _ => "Binary"
  | .getIdentifier _ => "GetIdentifier"
  | .selectName _ => "SelectNameFromObject"
  | .index => "Index"
  | .methodInvocation _ => "MethodInvocation"
  | .assignIdentifier _ => "AssignIdentifier"
  | .assignSelector _ => "AssignSelector"
  | .assignIndex => "AssignIndex"
  | .jump _ => "Jump"
  | .jumpBack _ => "RJump"
  | .ifJump _ => "IfJump"
  | .unlessJump _ => "UnlessJump"
  | .ifJumpBack _ => "RIfJump"
  | .unlessJumpBack _ => "RUnlessJump"
  | .nop => "Nop"
  | .redoMark => "Redo"
  | .continueMark => "Continue"
  | .breakMark => "Break"
  | .loadArguments _ => "LoadFunctionArguments"
  | .newFunction _ => "NewFunction"
  | .newLambda _ => "NewLambdaFunction"
  | .newMethod _ => "NewClassFunction"
  | .newGenerator _ => "NewGenerator"
  | .newClass _ => "NewClass"
  | .newInterface _ => "NewInterface"
  | .newModule _ => "NewModule"
  | .exit _ => "Return"
  | .raise => "Raise"

/-- The operand of an operation in images, if it has one. -/
def payload? (op : Op) : Option Tree :=
  match op.operand with
  | .none => none
  | .integer n => some (.integer n.toInt)
  | .float x => some (.float x)
  | .string s => some (.text s)
  | .bytes content => some (.list (content.map fun b => .integer b.toNat))
  | .names names => some (.list (names.map .text))
  | .count n | .offset n => some (.integer n)
  | .unary operator => some (.text operator.name)
  | .binary operator => some (.text operator.name)
  | .function info => some info.toTree
  | .classInfo info => some info.toTree
  | .generator info => some info.toTree

/-- The tree of an operation. -/
def toTree (op : Op) : Tree :=
  match op.payload? with
  | none => .text op.tag
  | some payload => .map [(.text op.tag, payload)]

/-- The operation with a given number that has no operand. -/
def plain? : Nat → Option Op
  | 4 => some .getTrue
  | 5 => some .getFalse
  | 6 => some .getNone
  | 10 => some .push
  | 15 => some .index
  | 19 => some .assignIndex
  | 26 => some .nop
  | 27 => some .redoMark
  | 28 => some .continueMark
  | 29 => some .breakMark
  | 39 => some .raise
  | _ => none

/-- The operation with a given number and operand. -/
def withPayload? (d : Dialect) (number : Nat) (t : Tree) : Option Op :=
  match number with
  | 0 => t.text?.map .newString
  | 1 => (t.list? Tree.byte?).map .newBytes
  | 2 => t.int64?.map .newInteger
  | 3 => t.float?.map .newFloat
  | 7 => t.count?.map .newTuple
  | 8 => t.count?.map .newArray
  | 9 => t.count?.map .newHash
  | 11 => (operatorOfTree? d unaryOperators UnaryOperator.name t).map .unary
  | 12 => (operatorOfTree? d binaryOperators BinaryOperator.name t).map .binary
  | 13 => t.text?.map .getIdentifier
  | 14 => t.text?.map .selectName
  | 16 => t.count?.map .methodInvocation
  | 17 => t.text?.map .assignIdentifier
  | 18 => t.text?.map .assignSelector
  | 20 => t.count?.map .jump
  | 21 => t.count?.map .jumpBack
  | 22 => t.count?.map .ifJump
  | 23 => t.count?.map .unlessJump
  | 24 => t.count?.map .ifJumpBack
  | 25 => t.count?.map .unlessJumpBack
  | 30 => (t.list? Tree.text?).map .loadArguments
  | 31 => (FunctionInfo.ofTree? d t).map .newFunction
  | 32 => (FunctionInfo.ofTree? d t).map .newLambda
  | 33 => (FunctionInfo.ofTree? d t).map .newMethod
  | 34 => (GeneratorInfo.ofTree? d t).map .newGenerator
  | 35 => (ClassInfo.ofTree? d t).map .newClass
  | 36 => (ClassInfo.ofTree? d t).map .newInterface
  | 37 => (ClassInfo.ofTree? d t).map .newModule
  | 38 => t.count?.map .exit
  | number =>
    match t with
    | .null => plain? number
    | _ => none

/-- An operation from its tree. An operation without operand may also carry null. -/
def ofTree? (d : Dialect) (t : Tree) : Option Op := do
  match ← t.tagged? d opTags with
  | (number, none) => plain? number
  | (number, some payload) => withPayload? d number payload

end Op

namespace Instruction

/-- The names of the fields. -/
def fieldNames : List String := ["op", "line"]

/-- The record of an instruction. -/
def toTree (i : Instruction) : Tree :=
  .record [("op", i.op.toTree), ("line", i.line.elim .null fun n => .integer n)]

/-- An instruction from its record. -/
def ofTree? (d : Dialect) (t : Tree) : Option Instruction := do
  match ← t.fields? d fieldNames with
  | [op, line] => do
    let op ← op.bind (Op.ofTree? d.inner)
    let line ← (line.getD .null).optional? Tree.count?
    return ⟨op, line⟩
  | _ => none

end Instruction

/-- Saved code as it was read, before its format number is looked at. -/
structure Image where
  format : Nat
  instructions : List Instruction

namespace Image

/-- The names of the fields. -/
def fieldNames : List String := ["format", "instructions"]

/-- The image of a list of instructions. -/
def ofCode (code : List Instruction) : Image := ⟨imageFormat, code⟩

/-- The record of an image. -/
def toTree (image : Image) : Tree :=
  .record [("format", .integer image.format),
    ("instructions", .list (image.instructions.map Instruction.toTree))]

/-- An image from its record. -/
def ofTree? (d : Dialect) (t : Tree) : Option Image := do
  match ← t.fields? d fieldNames with
  | [format, instructions] => do
    let format ← format.bind (Tree.natural? 0xFFFFFFFF)
    let instructions ← instructions.bind (Tree.list? (Instruction.ofTree? d.inner.inner))
    return ⟨format, instructions⟩
  | _ => none

end Image
end ScriptVM
