import ScriptVM.Span

/-!
# Compile errors

Why a program has no code, and where.
-/
namespace ScriptVM

/-- Why a program cannot be compiled. Every error has the place of the construct at fault. -/
inductive CompileError where
  /-- A number literal that does not read as a number of its kind. -/
  | invalidLiteral (kind literal : String) (span : Span)
  | unsupportedOperator (operator construct : String) (span : Span)
  | unsupportedStatement (name : String) (span : Span)
  /-- An assignment to something that is not a name, a member or an element. -/
  | invalidAssignmentTarget (kind : String) (span : Span)
  | loopControlOutsideLoop (name : String) (span : Span)
  deriving DecidableEq, Repr

namespace CompileError

/-- Where the construct at fault stands. -/
def span : CompileError → Span
  | .invalidLiteral _ _ s | .unsupportedOperator _ _ s | .unsupportedStatement _ s
  | .invalidAssignmentTarget _ s | .loopControlOutsideLoop _ s => s

/-- The name of the kind of error. -/
def kindName : CompileError → String
  | .invalidLiteral .. => "InvalidLiteral"
  | .unsupportedOperator .. => "UnsupportedOperator"
  | .unsupportedStatement .. => "UnsupportedStatement"
  | .invalidAssignmentTarget .. => "InvalidAssignmentTarget"
  | .loopControlOutsideLoop .. => "LoopControlOutsideLoop"

/-- What is wrong, in words. -/
def message (e : CompileError) : String :=
  let problem :=
    match e with
    | .invalidLiteral kind literal _ => "Invalid " ++ kind ++ " literal '" ++ literal ++ "'"
    | .unsupportedOperator operator construct _ =>
      "Unsupported operator '" ++ operator ++ "' in " ++ construct
    | .unsupportedStatement name _ => "Unsupported statement '" ++ name ++ "'"
    | .invalidAssignmentTarget kind _ => "Invalid assignment target '" ++ kind ++ "'"
    | .loopControlOutsideLoop name _ => "'" ++ name ++ "' outside of a loop body"
  problem ++ " at " ++ e.span.describe

end CompileError
end ScriptVM
