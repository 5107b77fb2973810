import ScriptVM.Syntax.Expr

/-!
# Programs

Statements, blocks and whole programs. A block is a list of nodes; a node is an expression in
statement position or a statement with its source line.
-/
namespace ScriptVM

/-- A condition and the block it guards. -/
structure Branch (node : Type) where
  condition : Expr
  body : List node

/-- The values of one case of a switch and its block. -/
structure CaseBlock (node : Type) where
  values : List Expr
  body : List node

/-- A named function with its parameters and block. -/
structure FunctionDecl (node : Type) where
  name : String
  parameters : List String
  body : List node

/-- A handler of guarded code: what it catches, the name it binds and its block. -/
structure ExceptBlock (node : Type) where
  targets : List Expr
  captureName : Option String
  body : List node

/-- A node of a block. -/
inductive Node where
  | expr (e : Expr)
  | assign (span : Span) (target : Expr) (operator : AssignOp) (value : Expr)
  /-- The first branch whose condition holds, or the alternative. An `inverted` conditional
  takes its first branch when that condition fails. -/
  | conditional (span : Span) (inverted : Bool) (first : Branch Node) (others : List (Branch Node))
      (alternative : Option (List Node))
  /-- The first case that lists a value equal to the target, or the alternative. -/
  | switch (span : Span) (target : Expr) (cases : List (CaseBlock Node))
      (alternative : Option (List Node))
  /-- Tests before each round. An `inverted` loop runs while its condition fails. -/
  | loop (span : Span) (inverted : Bool) (condition : Expr) (body : List Node)
  /-- Tests after each round. -/
  | doWhile (span : Span) (body : List Node) (condition : Expr)
  | forIn (span : Span) (receivers : List String) (source : Expr) (body : List Node)
  /-- Runs the body of the innermost loop again, without its test. -/
  | redoLoop (span : Span)
  /-- Goes to the test of the innermost loop. -/
  | continueLoop (span : Span)
  /-- Leaves the innermost loop. -/
  | breakLoop (span : Span)
  | pass (span : Span)
  /-- Leaves the running body with no value, one value or a tuple of values. -/
  | exit (span : Span) (values : List Expr)
  | raise (span : Span) (value : Expr)
  | guarded (span : Span) (body : List Node) (handlers : List (ExceptBlock Node))
      (alternative cleanup : Option (List Node))
  | function (span : Span) (decl : FunctionDecl Node)
  | classDef (span : Span) (name : String) (bases : List Expr) (body : List Node)
  | interfaceDef (span : Span) (name : String) (bases : List Expr)
      (methods : List (FunctionDecl Node))
  | moduleDef (span : Span) (name : String) (body : List Node)
  deriving Inhabited

/-- The same node at another place. -/
def Node.withSpan (s : Span) : Node → Node
  | .expr e => .expr (e.withSpan s)
  | .assign _ target operator value => .assign s target operator value
  | .conditional _ inverted first others rest => .conditional s inverted first others rest
  | .switch _ target cases rest => .switch s target cases rest
  | .loop _ inverted condition body => .loop s inverted condition body
  | .doWhile _ body condition => .doWhile s body condition
  | .forIn _ receivers source body => .forIn s receivers source body
  | .redoLoop _ => .redoLoop s
  | .continueLoop _ => .continueLoop s
  | .breakLoop _ => .breakLoop s
  | .pass _ => .pass s
  | .exit _ values => .exit s values
  | .raise _ value => .raise s value
  | .guarded _ body handlers rest cleanup => .guarded s body handlers rest cleanup
  | .function _ decl => .function s decl
  | .classDef _ name bases body => .classDef s name bases body
  | .interfaceDef _ name bases methods => .interfaceDef s name bases methods
  | .moduleDef _ name body => .moduleDef s name body

/-- A program: what runs first, the main block and what runs last. -/
structure Program where
  prologue : List Node
  body : List Node
  epilogue : List Node

/-- A program that is only a main block. -/
def Program.ofBody (body : List Node) : Program := ⟨[], body, []⟩

end ScriptVM
