import ScriptVM.Span

/-!
# Instructions

The instruction set of the machine. Each operation has exactly one shape of operand; counts,
offsets and lengths are unsigned machine words. An instruction is an operation and the source
line it was made from, when there is one.
-/
namespace ScriptVM

/-- A float as an instruction carries it: its 64 bits, so that every NaN keeps its own. -/
structure FloatBits where
  bits : UInt64
  deriving Repr, Inhabited

namespace FloatBits

/-- The number that the bits stand for. -/
def value (x : FloatBits) : Float := .ofBits x.bits

/-- The bits of a number. -/
def ofFloat (x : Float) : FloatBits := ⟨x.toBits⟩

instance : Coe FloatBits Float := ⟨value⟩

/-- Bits are compared as numbers: a NaN equals nothing, and both zeros are equal. -/
instance : BEq FloatBits := ⟨fun x y => x.value == y.value⟩

end FloatBits

/-- Describes the definition of a function, a lambda or a method. Its body is the run of
instructions right after the definition. -/
structure FunctionInfo where
  /-- No name for a lambda. -/
  name : Option String
  bodyLength : Nat
  arity : Nat
  deriving DecidableEq, Repr

/-- Describes the definition of a class, an interface or a module. -/
structure ClassInfo where
  name : String
  bodyLength : Nat
  /-- How many bases are taken from the operand stack; modules have none. -/
  baseCount : Nat
  deriving DecidableEq, Repr

/-- Describes a generator expression. -/
structure GeneratorInfo where
  receiverCount : Nat
  operationLength : Nat
  deriving DecidableEq, Repr

/-- The operator of a unary instruction. -/
inductive UnaryOperator where
  | negateBits | boolNegate | negative
  deriving DecidableEq, Repr

/-- The operator of a binary instruction. -/
inductive BinaryOperator where
  | add | sub | mul | div | floorDiv | mod | pow
  | bitXor | bitAnd | bitOr | bitLeft | bitRight
  | and | or | xor
  | equals | notEquals | greaterThan | lessThan | greaterThanOrEqual | lessThanOrEqual
  | contains
  deriving DecidableEq, Repr

/-- An operation of the machine. -/
inductive Op where
  | newString (text : String)
  | newBytes (content : List UInt8)
  | newInteger (value : Int64)
  | newFloat (value : FloatBits)
  | getTrue
  | getFalse
  | getNone
  /-- Pops values in source order into a tuple. -/
  | newTuple (count : Nat)
  /-- Pops values in source order into an array. -/
  | newArray (count : Nat)
  /-- Pops pairs, each key before its value, into a hash. -/
  | newHash (count : Nat)
  /-- Pushes the last produced object onto the operand stack. -/
  | push
  | unary (operator : UnaryOperator)
  /-- Pops the left operand, then the right one. -/
  | binary (operator : BinaryOperator)
  | getIdentifier (name : String)
  | selectName (name : String)
  /-- Pops the index, then the source. -/
  | index
  /-- Pops the callee, then the arguments in source order. -/
  | methodInvocation (count : Nat)
  | assignIdentifier (name : String)
  /-- Pops the receiver, then the value. -/
  | assignSelector (name : String)
  /-- Pops the index, the receiver and the element. -/
  | assignIndex
  /-- Skips instructions forward. -/
  | jump (offset : Nat)
  /-- Goes back over instructions, this one included. -/
  | jumpBack (offset : Nat)
  /-- Pops a condition and skips forward when it is false. -/
  | ifJump (offset : Nat)
  /-- Pops a condition and skips forward when it is true. -/
  | unlessJump (offset : Nat)
  /-- Pops a condition and goes back when it is false. -/
  | ifJumpBack (offset : Nat)
  /-- Pops a condition and goes back when it is true. -/
  | unlessJumpBack (offset : Nat)
  | nop
  /-- A loop control that stands for a jump until its loop is complete. -/
  | redoMark
  | continueMark
  | breakMark
  /-- Pops one argument per name into the current scope. -/
  | loadArguments (names : List String)
  | newFunction (info : FunctionInfo)
  | newLambda (info : FunctionInfo)
  /-- Installs a method on the object under construction. -/
  | newMethod (info : FunctionInfo)
  /-- Pops the source and makes a generator over it. -/
  | newGenerator (info : GeneratorInfo)
  | newClass (info : ClassInfo)
  | newInterface (info : ClassInfo)
  | newModule (info : ClassInfo)
  /-- Pops results and leaves the running body. -/
  | exit (count : Nat)
  /-- Pops a value and fails with it. -/
  | raise
  deriving BEq, Repr, Inhabited

/-- What an operation carries. -/
inductive Operand where
  | none
  | integer (value : Int64)
  | float (value : FloatBits)
  | string (text : String)
  | bytes (content : List UInt8)
  | names (names : List String)
  | count (n : Nat)
  | offset (n : Nat)
  | unary (operator : UnaryOperator)
  | binary (operator : BinaryOperator)
  | function (info : FunctionInfo)
  | classInfo (info : ClassInfo)
  | generator (info : GeneratorInfo)

namespace Op

/-- The mnemonic in listings and traces. -/
def mnemonic : Op → String
  | .newString _ => "NEW_STRING"
  | .newBytes _ => "NEW_BYTES"
  | .newInteger _ => "NEW_INTEGER"
  | .newFloat _ => "NEW_FLOAT"
  | .getTrue => "GET_TRUE"
  | .getFalse => "GET_FALSE"
  | .getNone => "GET_NONE"
  | .newTuple _ => "NEW_TUPLE"
  | .newArray _ => "NEW_ARRAY"
  | .newHash _ => "NEW_HASH"
  | .push => "PUSH"
  | .unary _ => "UNARY"
  | .binary _ => "BINARY"
  | .getIdentifier _ => "GET_IDENTIFIER"
  | .selectName _ => "SELECT_NAME"
  | .index => "INDEX"
  | .methodInvocation _ => "METHOD_INVOCATION"
  | .assignIdentifier _ => "ASSIGN_IDENTIFIER"
  | .assignSelector _ => "ASSIGN_SELECTOR"
  | .assignIndex => "ASSIGN_INDEX"
  | .jump _ => "JUMP"
  | .jumpBack _ => "RJUMP"
  | .ifJump _ => "IF_JUMP"
  | .unlessJump _ => "UNLESS_JUMP"
  | .ifJumpBack _ => "RIF_JUMP"
  | .unlessJumpBack _ => "RUNLESS_JUMP"
  | .nop => "NOP"
  | .redoMark => "REDO"
  | .continueMark => "CONTINUE"
  | .breakMark => "BREAK"
  | .loadArguments _ => "LOAD_ARGUMENTS"
  | .newFunction _ => "NEW_FUNCTION"
  | .newLambda _ => "NEW_LAMBDA"
  | .newMethod _ => "NEW_CLASS_FUNCTION"
  | .newGenerator _ => "NEW_GENERATOR"
  | .newClass _ => "NEW_CLASS"
  | .newInterface _ => "NEW_INTERFACE"
  | .newModule _ => "NEW_MODULE"
  | .exit _ => "RETURN"
  | .raise => "RAISE"

/-- What the operation carries. -/
def operand : Op → Operand
  | .newString s | .getIdentifier s | .selectName s | .assignIdentifier s | .assignSelector s =>
    .string s
  | .newBytes content => .bytes content
  | .newInteger n => .integer n
  | .newFloat x => .float x
  | .newTuple n | .newArray n | .newHash n | .methodInvocation n | .exit n => .count n
  | .jump n | .jumpBack n | .ifJump n | .unlessJump n | .ifJumpBack n | .unlessJumpBack n =>
    .offset n
  | .unary operator => .unary operator
  | .binary operator => .binary operator
  | .loadArguments names => .names names
  | .newFunction info | .newLambda info | .newMethod info => .function info
  | .newGenerator info => .generator info
  | .newClass info | .newInterface info | .newModule info => .classInfo info
  | .getTrue | .getFalse | .getNone | .push | .index | .assignIndex | .nop | .redoMark
  | .continueMark | .breakMark | .raise => .none

/-- Whether the operation is a loop control that has not become a jump. -/
def isLoopMark : Op → Bool
  | .redoMark | .continueMark | .breakMark => true
  | _ => false

/-- Whether the operation's offset counts backwards. -/
def goesBack : Op → Bool
  | .jumpBack _ | .ifJumpBack _ | .unlessJumpBack _ => true
  | _ => false

end Op

/-- An operation and the source line it was made from. -/
structure Instruction where
  op : Op
  line : Option Nat
  deriving BEq, Repr, Inhabited

/-- Where the instruction stands in the source. -/
def Instruction.span (i : Instruction) : Span := ⟨i.line⟩

end ScriptVM
