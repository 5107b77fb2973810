import ScriptVM.Builtin.Behaviour

/-!
# Calls

What happens when a value is called. A function made from code runs its body in a new frame
inside the frame it was defined in; a built-in function runs its method on the receiver; a class
makes an object; a built-in type converts its argument; anything else is asked for `Call`.
-/
namespace ScriptVM.Engine

open Run

/-! ## Functions -/

/-- Runs a body in a new frame inside the frame that it was defined in, on some object and with
some operands, the first one on top. -/
def runIn (e : Engine) (scope : FrameId) (object : Option Value) (bindsObject : Bool)
    (self : Value) (operands : List Value) (body : View) : Run Value := do
  let new := self :: object.toList ++ operands
  let id ← e.newFrame (.frame scope :: new.map .value) (some scope) object bindsObject
  define id selfName self
  pushAll id operands
  return (← e.enter id (.ofView body)).1

theorem runIn_of_plain {e : Engine} (h : e.tracks = false) (scope : FrameId) (object : Option Value)
    (bindsObject : Bool) (self : Value) (operands : List Value) (body : View) :
    e.runIn scope object bindsObject self operands body = (do
      let id ← Run.newFrame (some scope) object bindsObject
      define id selfName self
      pushAll id operands
      return (← e.enter id (.ofView body)).1) := by
  simp only [runIn, newFrame_of_plain h]

/-- Runs the body of a function. The first argument is on top of the operands. -/
def callCode (e : Engine) (callee : Value) (f : CodeFunction) (receiver : Option Value)
    (args : List Value) : Run Value :=
  e.runIn f.scope receiver false (receiver.getD callee) args f.body

/-- Runs the built-in method behind a symbol. -/
def callBuiltin (e : Engine) (receiver : Value) (s : Symbol) (args : List Value) : Run Value := do
  match (← kindOf receiver).tag.method? s with
  | some method => method e receiver args
  | none => fail (.missingSymbol (← typeName receiver) s.name)

/-! ## Objects -/

/-- Runs the body of a class on an object, which lies at the bottom of the operands. -/
def runClassBody (e : Engine) (c : ClassDef) (object : Value) : Run Unit :=
  discard (e.runIn c.scope (some object) true object [object] c.body)

/-- Runs the bodies of a class and its bases on an object: the bases first, in the order of their
declaration and each with its own bases before it. Bases are nested at most so deep. -/
def buildWithin (e : Engine) (object : Value) : Nat → Value → Run Unit
  | 0, _ => giveUp
  | depth + 1, cls => do
    match ← kindOf cls with
    | .type (.ofClass c) => do
      e.keep (TypeDef.ofClass c).references do
        c.bases.forM fun base => do
          match ← kindOf base with
          | .type (.ofClass _) => e.buildWithin object depth base
          | .type (.builtin _) => return ()
          | _ => failType base ["Type"]
        e.runClassBody c object
    | _ => failType cls ["Type"]

/-- Makes an instance of a class. -/
def construct (e : Engine) (cls : Value) : Run Value := do
  let object ← newObject (.object cls)
  e.keep [.value cls, .value object] (e.buildWithin object e.fuel cls)
  return object

/-! ## Conversions -/

/-- Converts a value to a built-in type. -/
def convertValue (e : Engine) (tag : TypeTag) (v : Value) : Run Value := do
  match tag with
  | .integer => e.callSymbol v .toInteger []
  | .float => e.callSymbol v .toFloat []
  | .string => newString (← e.stringify v)
  | .bool => newBool (← e.truthy v)
  | .tuple => e.callSymbol v .toTuple []
  | .array => e.callSymbol v .toArray []
  | .bytes =>
    match ← kindOf v with
    | .string s => newObject (.bytes (Text.encodeUtf8 s))
    | .bytes content => newObject (.bytes content)
    | _ => failType v ["String", "Bytes"]
  | .iterator => e.iteratorOf v
  | .error => newObject (.error "Error" (← e.stringify v))
  | .type => e.callSymbol v .classOf []
  | tag => fail (.notCallable tag.name)

/-- Calls a built-in type: converts its argument, or makes an empty value. -/
def convert (e : Engine) (tag : TypeTag) (args : List Value) : Run Value := do
  match tag, args with
  | .hash, [] => newObject (.hash .empty)
  | .tuple, [] => newObject (.tuple [])
  | .array, [] => newObject (.array [])
  | .string, [] => newString ""
  | .object, [] => newObject (.object (← builtinType .object))
  | tag, [v] => e.convertValue tag v
  | _, args => fail (.argumentCount 1 args.length)

/-! ## Any value -/

/-- Calls a value that is neither a function nor a type. -/
def callOther (e : Engine) (callee : Value) (args : List Value) : Run Value := do
  match ← lookup callee Symbol.call.name with
  | none => fail (.notCallable (← typeName callee))
  | some method =>
    match ← kindOf method with
    | .function _ => e.call method args
    | _ => failType method ["Function"]

/-- Calls a function value. -/
def callFunction (e : Engine) (callee : Value) (f : Function) (args : List Value) : Run Value := do
  if args.length ≠ f.callable.arity then
    fail (.argumentCount f.callable.arity args.length)
  else
    match f.callable with
    | .code code => e.callCode callee code f.receiver args
    | .builtin s =>
      let receiver := f.receiver.getD callee
      e.keep (.value receiver :: args.map .value) (e.callBuiltin receiver s args)

theorem callFunction_of_plain {e : Engine} (h : e.tracks = false) (callee : Value) (f : Function)
    (args : List Value) :
    e.callFunction callee f args =
      if args.length ≠ f.callable.arity then fail (.argumentCount f.callable.arity args.length)
      else match f.callable with
        | .code code => e.callCode callee code f.receiver args
        | .builtin s => e.callBuiltin (f.receiver.getD callee) s args := by
  simp only [callFunction, keep_of_plain h]

/-- Calls a value with arguments in source order. -/
def callValue (e : Engine) (callee : Value) (args : List Value) : Run Value := do
  match ← kindOf callee with
  | .function f => e.callFunction callee f args
  | .type (.ofClass _) => do
    let object ← e.keep (args.map .value) (e.construct callee)
    discard (e.keep [.value object] (e.callSymbol object .initializer args))
    return object
  | .type (.builtin tag) => e.convert tag args
  | _ => e.callOther callee args

end ScriptVM.Engine
