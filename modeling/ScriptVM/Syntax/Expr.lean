import ScriptVM.Span
import ScriptVM.Syntax.Operator

/-!
# Expressions

Expressions as a reader delivers them. Number literals keep their text, escapes in strings are
already resolved, and every expression carries its source line.
-/
namespace ScriptVM

/-- An expression. -/
inductive Expr where
  /-- An integer literal as written. -/
  | integer (span : Span) (text : String)
  /-- A float literal as written. -/
  | float (span : Span) (text : String)
  | string (span : Span) (text : String)
  | bytes (span : Span) (content : List UInt8)
  | bool (span : Span) (value : Bool)
  | none (span : Span)
  | tuple (span : Span) (values : List Expr)
  | array (span : Span) (values : List Expr)
  /-- A hash literal, each entry a key and its value. -/
  | hash (span : Span) (entries : List (Expr × Expr))
  | identifier (span : Span) (name : String)
  /-- A member of an object by its name. -/
  | selector (span : Span) (object : Expr) (name : String)
  | index (span : Span) (source position : Expr)
  | call (span : Span) (callee : Expr) (arguments : List Expr)
  | binary (span : Span) (left : Expr) (operator : BinaryOp) (right : Expr)
  | unary (span : Span) (operator : UnaryOp) (operand : Expr)
  | parentheses (span : Span) (inner : Expr)
  /-- The result when the condition holds, the alternative or `None` otherwise. -/
  | ifElse (span : Span) (condition result : Expr) (alternative : Option Expr)
  /-- The result when the condition fails, the alternative or `None` otherwise. -/
  | unlessElse (span : Span) (condition result : Expr) (alternative : Option Expr)
  | lambda (span : Span) (parameters : List String) (output : Expr)
  /-- The operation applied to each item that the source yields. -/
  | generator (span : Span) (operation : Expr) (receivers : List String) (source : Expr)
  deriving Inhabited

namespace Expr

/-- Where the expression stands. -/
def span : Expr → Span
  | .integer s _ | .float s _ | .string s _ | .bytes s _ | .bool s _ | .none s | .tuple s _
  | .array s _ | .hash s _ | .identifier s _ | .selector s _ _ | .index s _ _ | .call s _ _
  | .binary s _ _ _ | .unary s _ _ | .parentheses s _ | .ifElse s _ _ _ | .unlessElse s _ _ _
  | .lambda s _ _ | .generator s _ _ _ => s

/-- The same expression at another place. -/
def withSpan (s : Span) : Expr → Expr
  | .integer _ text => .integer s text
  | .float _ text => .float s text
  | .string _ text => .string s text
  | .bytes _ content => .bytes s content
  | .bool _ value => .bool s value
  | .none _ => .none s
  | .tuple _ values => .tuple s values
  | .array _ values => .array s values
  | .hash _ entries => .hash s entries
  | .identifier _ name => .identifier s name
  | .selector _ object name => .selector s object name
  | .index _ source position => .index s source position
  | .call _ callee arguments => .call s callee arguments
  | .binary _ left operator right => .binary s left operator right
  | .unary _ operator operand => .unary s operator operand
  | .parentheses _ inner => .parentheses s inner
  | .ifElse _ condition result alternative => .ifElse s condition result alternative
  | .unlessElse _ condition result alternative => .unlessElse s condition result alternative
  | .lambda _ parameters output => .lambda s parameters output
  | .generator _ operation receivers source => .generator s operation receivers source

/-- What error messages call the expression. -/
def kindName : Expr → String
  | .integer .. => "integer literal"
  | .float .. => "float literal"
  | .string .. => "string literal"
  | .bytes .. => "bytes literal"
  | .bool .. => "bool literal"
  | .none .. => "none literal"
  | .tuple .. => "tuple"
  | .array .. => "array"
  | .hash .. => "hash"
  | .identifier .. => "identifier"
  | .selector .. => "selector"
  | .index .. => "index"
  | .call .. => "method invocation"
  | .binary .. => "binary expression"
  | .unary .. => "unary expression"
  | .parentheses .. => "parentheses"
  | .ifElse .. => "one-liner if"
  | .unlessElse .. => "one-liner unless"
  | .lambda .. => "lambda"
  | .generator .. => "generator"

@[simp] theorem span_withSpan (s : Span) (e : Expr) : (e.withSpan s).span = s := by
  cases e <;> rfl

end Expr
end ScriptVM
