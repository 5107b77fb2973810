import ScriptVM.Span
import ScriptVM.Value.Display

/-!
# Failures

Why a running program stops, and where. A failure is made without a place; on its way out it
takes the first known place among the instructions that it leaves, innermost first.
-/
namespace ScriptVM

/-- Why a program fails. -/
inductive Cause where
  | invalidType (received : String) (expected : List String)
  | argumentCount (expected received : Nat)
  /-- A value has neither a member nor a behaviour of that name. -/
  | missingSymbol (type name : String)
  | undefinedIdentifier (name : String)
  | indexOutOfRange (length : Nat) (index : Int64)
  | keyNotFound (key : String)
  | unhashable (type : String)
  | integerSyntax (text : String)
  | floatSyntax (text : String)
  | divisionByZero
  | repetitionTooLarge (length : Nat) (times : Int64)
  | notCallable (type : String)
  | callDepthExceeded (depth : Nat)
  | stackUnderflow
  /-- A loop control that never became a jump. -/
  | unresolvedLoopControl
  | jumpOutOfRange
  | frameNotFound (number : Nat)
  /-- A value that the program raised. -/
  | raised (value : Value)

namespace Cause

/-- The name of the kind of failure, which error values carry. -/
def kindName : Cause → String
  | .invalidType .. => "InvalidTypeError"
  | .argumentCount .. => "InvalidNumberOfArgumentsError"
  | .missingSymbol .. => "ObjectWithNameNotFoundError"
  | .undefinedIdentifier _ => "ObjectWithNameNotFoundError"
  | .indexOutOfRange .. => "IndexOutOfRangeError"
  | .keyNotFound _ => "KeyNotFoundError"
  | .unhashable _ => "UnhashableTypeError"
  | .integerSyntax _ => "IntegerParsingError"
  | .floatSyntax _ => "FloatParsingError"
  | .divisionByZero => "DivisionByZeroError"
  | .repetitionTooLarge .. => "RepetitionTooLargeError"
  | .notCallable _ => "ObjectNotCallableError"
  | .callDepthExceeded _ => "StackOverflowError"
  | .stackUnderflow => "StackUnderflowError"
  | .unresolvedLoopControl => "UnresolvedLoopControlError"
  | .jumpOutOfRange => "JumpOutOfRangeError"
  | .frameNotFound _ => "FrameNotFoundError"
  | .raised _ => "RaisedError"

/-- What went wrong, in words, without the place. Only a raised value can be without a text. -/
def problem? (h : Heap) : Cause → Option String
  | .invalidType received expected =>
    some ("Invalid type: received " ++ received ++ ", expected " ++ " or ".intercalate expected)
  | .argumentCount expected received =>
    some ("Invalid number of arguments: expected " ++ toString expected ++ ", received " ++
      toString received)
  | .missingSymbol type name =>
    some ("Object of type " ++ type ++ " has no symbol named '" ++ name ++ "'")
  | .undefinedIdentifier name => some ("Identifier '" ++ name ++ "' is not defined")
  | .indexOutOfRange length index =>
    some ("Index " ++ toString index.toInt ++ " out of range (length " ++ toString length ++ ")")
  | .keyNotFound key => some ("Key " ++ key ++ " not found")
  | .unhashable type => some ("Unhashable type " ++ type)
  | .integerSyntax text => some ("Could not parse '" ++ text ++ "' as an integer")
  | .floatSyntax text => some ("Could not parse '" ++ text ++ "' as a float")
  | .divisionByZero => some "Division by zero"
  | .repetitionTooLarge length times =>
    some ("Cannot repeat a sequence of length " ++ toString length ++ " " ++
      toString times.toInt ++ " times")
  | .notCallable type => some ("Object of type " ++ type ++ " is not callable")
  | .callDepthExceeded depth => some ("Maximum call depth of " ++ toString depth ++ " exceeded")
  | .stackUnderflow => some "Operand stack underflow"
  | .unresolvedLoopControl =>
    some "Loop control instruction executed outside of a resolved loop"
  | .jumpOutOfRange => some "Jump target outside of the running code"
  | .frameNotFound number => some ("Frame " ++ toString number ++ " is not live")
  | .raised value => (h.display? value).map fun text => "Raised " ++ text

end Cause

/-- A failure: its cause and its place. -/
structure Failure where
  cause : Cause
  span : Span

namespace Failure

/-- A failure whose place is not known yet. -/
def of (cause : Cause) : Failure := ⟨cause, .unknown⟩

/-- Takes a place, unless the failure has one. -/
def placedAt (f : Failure) (span : Span) : Failure := { f with span := f.span.orElse span }

/-- What went wrong and where, in words. -/
def message? (h : Heap) (f : Failure) : Option String :=
  (f.cause.problem? h).map fun problem => problem ++ " at " ++ f.span.describe

/-- The failure as a value: what was raised, or a new error value. -/
def toValue? (h : Heap) (f : Failure) : Option (Value × Heap) :=
  match f.cause with
  | .raised value => some (value, h)
  | cause => (f.message? h).map fun message => h.alloc (.error cause.kindName message)

end Failure
end ScriptVM
