import ScriptVM.Builtin.Basic
import ScriptVM.Builtin.Behaviour
import ScriptVM.Builtin.Container
import ScriptVM.Builtin.Method
import ScriptVM.Builtin.Number
import ScriptVM.Builtin.Selection
import ScriptVM.Builtin.Text
import ScriptVM.Code.Cursor
import ScriptVM.Code.Listing
import ScriptVM.Code.Op
import ScriptVM.CommandLine
import ScriptVM.Config
import ScriptVM.Failure
import ScriptVM.Frame.Arena
import ScriptVM.Frame.CallStack
import ScriptVM.Frame.Collection
import ScriptVM.Frame.Holding
import ScriptVM.Frame.Reference
import ScriptVM.Frame.Scope
import ScriptVM.Frame.Tally
import ScriptVM.Frame.Trial
import ScriptVM.Lowering.Error
import ScriptVM.Lowering.Expression
import ScriptVM.Lowering.Literal
import ScriptVM.Lowering.Statement
import ScriptVM.Machine.Call
import ScriptVM.Machine.Disposal
import ScriptVM.Machine.Execution
import ScriptVM.Machine.Iteration
import ScriptVM.Machine.Protocol
import ScriptVM.Machine.State
import ScriptVM.Machine.Step
import ScriptVM.Main
import ScriptVM.Proofs.CallStack.Discipline
import ScriptVM.Proofs.CallStack.Operands
import ScriptVM.Proofs.CallStack.Traced
import ScriptVM.Proofs.CallStack.Variables
import ScriptVM.Proofs.CallStack.Vigil
import ScriptVM.Proofs.Code.Acceptance
import ScriptVM.Proofs.Code.Assembly
import ScriptVM.Proofs.Code.Confinement
import ScriptVM.Proofs.Code.Construct
import ScriptVM.Proofs.Code.Control
import ScriptVM.Proofs.Code.Course
import ScriptVM.Proofs.Code.Label
import ScriptVM.Proofs.Code.Layout
import ScriptVM.Proofs.Code.Literal
import ScriptVM.Proofs.Code.Locality
import ScriptVM.Proofs.Code.Place
import ScriptVM.Proofs.Code.Soundness
import ScriptVM.Proofs.Collection.Abandoned
import ScriptVM.Proofs.Collection.Balance
import ScriptVM.Proofs.Collection.Complete
import ScriptVM.Proofs.Collection.Cycle
import ScriptVM.Proofs.Collection.Explore
import ScriptVM.Proofs.Collection.Garbage
import ScriptVM.Proofs.Collection.Intact
import ScriptVM.Proofs.Collection.Operation
import ScriptVM.Proofs.Collection.Orderly
import ScriptVM.Proofs.Collection.Owner
import ScriptVM.Proofs.Collection.Release
import ScriptVM.Proofs.Collection.Search
import ScriptVM.Proofs.Collection.Settled
import ScriptVM.Proofs.Collection.Standing
import ScriptVM.Proofs.Collection.Sweep
import ScriptVM.Proofs.Composition.Closed
import ScriptVM.Proofs.Composition.Frames
import ScriptVM.Proofs.Composition.Program
import ScriptVM.Proofs.Composition.Sequence
import ScriptVM.Proofs.Composition.Shift
import ScriptVM.Proofs.Composition.Text
import ScriptVM.Proofs.Composition.Withholding
import ScriptVM.Proofs.Construction.Body
import ScriptVM.Proofs.Construction.Construct
import ScriptVM.Proofs.Construction.Members
import ScriptVM.Proofs.Construction.Order
import ScriptVM.Proofs.Construction.Reserved
import ScriptVM.Proofs.Data.Comparing
import ScriptVM.Proofs.Data.Content
import ScriptVM.Proofs.Data.Equality
import ScriptVM.Proofs.Data.Keeping
import ScriptVM.Proofs.Data.Settled
import ScriptVM.Proofs.Disposal.Arena
import ScriptVM.Proofs.Disposal.Forgetting
import ScriptVM.Proofs.Disposal.Frames
import ScriptVM.Proofs.Disposal.Run
import ScriptVM.Proofs.Disposal.Session
import ScriptVM.Proofs.Expression.Agreement
import ScriptVM.Proofs.Expression.Correct
import ScriptVM.Proofs.Expression.Evaluate
import ScriptVM.Proofs.Expression.Lowering
import ScriptVM.Proofs.Expression.Tracking
import ScriptVM.Proofs.Frame.Arena
import ScriptVM.Proofs.Frame.Effect
import ScriptVM.Proofs.Frame.Family
import ScriptVM.Proofs.Frame.Forget
import ScriptVM.Proofs.Frame.Slot
import ScriptVM.Proofs.Fuel
import ScriptVM.Proofs.Generator.Asking
import ScriptVM.Proofs.Generator.Exhaustion
import ScriptVM.Proofs.Generator.Prefetch
import ScriptVM.Proofs.Growth
import ScriptVM.Proofs.Heap
import ScriptVM.Proofs.Indexed.Choice
import ScriptVM.Proofs.Indexed.Sequence
import ScriptVM.Proofs.Keyed.Asking
import ScriptVM.Proofs.Keyed.Client
import ScriptVM.Proofs.Keyed.Comparing
import ScriptVM.Proofs.Keyed.Faithful
import ScriptVM.Proofs.Keyed.Key
import ScriptVM.Proofs.Keyed.Knowing
import ScriptVM.Proofs.Keyed.Ledger
import ScriptVM.Proofs.Keyed.Storing
import ScriptVM.Proofs.Likeness
import ScriptVM.Proofs.Likeness.Builtin
import ScriptVM.Proofs.Likeness.Call
import ScriptVM.Proofs.Likeness.Fading
import ScriptVM.Proofs.Likeness.Objects
import ScriptVM.Proofs.Likeness.Protocol
import ScriptVM.Proofs.Likeness.Shared
import ScriptVM.Proofs.Likeness.Steady
import ScriptVM.Proofs.Likeness.Step
import ScriptVM.Proofs.Listing.Color
import ScriptVM.Proofs.Nested.Agreement
import ScriptVM.Proofs.Nested.Asking
import ScriptVM.Proofs.Nested.Ending
import ScriptVM.Proofs.Nested.Text
import ScriptVM.Proofs.Noting.Dialogue
import ScriptVM.Proofs.Noting.Forgetting
import ScriptVM.Proofs.Noting.Heap
import ScriptVM.Proofs.Noting.Machine
import ScriptVM.Proofs.Number.Division
import ScriptVM.Proofs.Number.Operator
import ScriptVM.Proofs.Number.Power
import ScriptVM.Proofs.Passage
import ScriptVM.Proofs.Passage.Arena
import ScriptVM.Proofs.Passage.Builtin
import ScriptVM.Proofs.Passage.Objects
import ScriptVM.Proofs.Passage.Protocol
import ScriptVM.Proofs.Passage.Rename
import ScriptVM.Proofs.Passage.Step
import ScriptVM.Proofs.Passage.Still
import ScriptVM.Proofs.Quiet
import ScriptVM.Proofs.Raise.Origin
import ScriptVM.Proofs.Raise.Surfacing
import ScriptVM.Proofs.Raise.Tripwire
import ScriptVM.Proofs.Safety.Activation
import ScriptVM.Proofs.Safety.Body
import ScriptVM.Proofs.Safety.Move
import ScriptVM.Proofs.Safety.Session
import ScriptVM.Proofs.Safety.Step
import ScriptVM.Proofs.Safety.Watch
import ScriptVM.Proofs.Saved.Image
import ScriptVM.Proofs.Saved.Json
import ScriptVM.Proofs.Saved.MessagePack
import ScriptVM.Proofs.Selection.Evaluating
import ScriptVM.Proofs.Selection.Stepping
import ScriptVM.Proofs.Selection.Switch
import ScriptVM.Proofs.Selection.Tidy
import ScriptVM.Proofs.Session.Lasting
import ScriptVM.Proofs.Session.Request
import ScriptVM.Proofs.Session.Serve
import ScriptVM.Proofs.Session.Turn
import ScriptVM.Proofs.Sparing
import ScriptVM.Proofs.Statement.Correct
import ScriptVM.Proofs.Statement.Holding
import ScriptVM.Proofs.Statement.Inline
import ScriptVM.Proofs.Statement.Keeping
import ScriptVM.Proofs.Statement.Loop
import ScriptVM.Proofs.Statement.Lowering
import ScriptVM.Proofs.Storage
import ScriptVM.Proofs.Table
import ScriptVM.Proofs.Text.Conversion
import ScriptVM.Proofs.Text.Decimal
import ScriptVM.Proofs.Text.Utf8
import ScriptVM.Saved.Image
import ScriptVM.Saved.Json
import ScriptVM.Saved.MessagePack
import ScriptVM.Saved.Store
import ScriptVM.Saved.Tree
import ScriptVM.Span
import ScriptVM.Syntax.Expr
import ScriptVM.Syntax.Operator
import ScriptVM.Syntax.Program
import ScriptVM.Text.CharacterTable
import ScriptVM.Text.Digest
import ScriptVM.Text.FloatSyntax
import ScriptVM.Text.FloatText
import ScriptVM.Text.Integer
import ScriptVM.Text.Quoted
import ScriptVM.Text.ShortestDecimal
import ScriptVM.Text.Utf8
import ScriptVM.Text.Whitespace
import ScriptVM.Value.Bindings
import ScriptVM.Value.Display
import ScriptVM.Value.Lookup
import ScriptVM.Value.Object
import ScriptVM.Value.OperatorSymbol
import ScriptVM.Value.Symbol
