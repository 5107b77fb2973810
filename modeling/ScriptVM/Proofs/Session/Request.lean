import ScriptVM.Machine.Execution

/-!
# Requests of a host

A host makes values, executes code, calls values and asks the machine about them, one request after
the other. Values in a request are given by the host; a host that keeps its values in global names
gives the names. A failed request is over, too, and the machine serves the next one.
-/
namespace ScriptVM

/-- What a host can make a value of. A hash is made empty and stored into afterwards. -/
inductive Datum (α : Type) where
  | none
  | bool (b : Bool)
  | integer (n : Int64)
  | float (x : Float)
  | string (s : String)
  | bytes (content : List UInt8)
  | tuple (items : List α)
  | array (items : List α)
  | hash
  | iterator (items : List α)
  | error (kind message : String)
  | module (name : String)

/-- The payload that is made of a datum. -/
def Datum.kind : Datum Value → Kind
  | .none => .none
  | .bool b => .bool b
  | .integer n => .integer n
  | .float x => .float x
  | .string s => .string s
  | .bytes content => .bytes content
  | .tuple items => .tuple items
  | .array items => .array items
  | .hash => .hash .empty
  | .iterator items => .iterator items []
  | .error kind message => .error kind message
  | .module name => .module name

/-- What a host can ask of a machine. -/
inductive Request (α : Type) where
  /-- Executes code in the global frame from where the cursor stands. -/
  | execute (code : Cursor)
  | make (datum : Datum α)
  | global (name : String)
  | define (name : String) (value : α)
  | call (callee : α) (args : List α)
  /-- Calls what a name means on a value. -/
  | symbol (on : α) (name : String) (args : List α)
  | operation (operator : BinaryOperator) (left right : α)
  | construct (cls : α)
  /-- Takes a step of a generator. -/
  | resume (generator : α)
  | equals (left right : α)
  | hash (value : α)
  | truthy (value : α)
  | stringify (value : α)
  | iterator (value : α)
  | hasNext (iterator : α)
  | next (iterator : α)
  | drain (iterator : α)
  | unpack (value : α) (count : Nat)
  | find (on : α) (name : String)
  | findOwn (on : α) (name : String)
  | set (on : α) (name : String) (value : α)
  | store (table key value : α)
  | reset
  | collect

/-- What a host gets for a request. What else it sees of a value is read off the objects. -/
inductive Answer where
  | done
  | value (v : Value)
  | optional (v : Option Value)
  | items (vs : List Value)
  | bool (b : Bool)
  | integer (n : Int64)
  | text (s : String)

/-- What a machine needs in order to serve a host. -/
structure Service where
  engine : Engine
  execute : Cursor → Run Value
  reset : Machine → Machine
  collect : Machine → Machine

namespace Service

/-- The machine with some fuel for each request. -/
def withFuel (fuel : Nat) (digests : Digests) : Service where
  engine := .withFuel fuel digests
  execute := (Engine.withFuel fuel digests).execute
  reset := Machine.reset
  collect := Machine.collectGarbage

/-- Serves a request. -/
def serve (s : Service) : Request Value → Run Answer
  | .execute code => Answer.value <$> s.execute code
  | .make datum => Answer.value <$> Run.newObject datum.kind
  | .global name => Answer.optional <$> Engine.global? name
  | .define name v => do
    modify fun m => m.defineGlobal name v
    return .done
  | .call callee args => Answer.value <$> s.engine.call callee args
  | .symbol on name args => Answer.value <$> s.engine.callNamed on name args
  | .operation operator left right => Answer.value <$> s.engine.operation operator left right
  | .construct cls => Answer.value <$> s.engine.construct cls
  | .resume generator => Answer.optional <$> s.engine.resume generator
  | .equals left right => Answer.bool <$> s.engine.equals left right
  | .hash v => Answer.integer <$> s.engine.hashOf v
  | .truthy v => Answer.bool <$> s.engine.truthy v
  | .stringify v => Answer.text <$> s.engine.stringify v
  | .iterator v => Answer.value <$> s.engine.iteratorOf v
  | .hasNext iterator => Answer.bool <$> s.engine.hasNext iterator
  | .next iterator => Answer.optional <$> s.engine.next iterator
  | .drain iterator => Answer.items <$> s.engine.drain iterator
  | .unpack v count => Answer.items <$> s.engine.unpack v count
  | .find on name => Answer.optional <$> Run.lookup on name
  | .findOwn on name => do
    match ← Run.read fun m => m.heap.own? on name with
    | none => return .optional none
    | some member => do
      let (v, heap) ← Run.read fun m => m.heap.bind on member
      Run.modifyHeap fun _ => heap
      return .optional v
  | .set on name v => do
    Run.modifyHeap fun h => h.setValue on name v
    return .done
  | .store table key v => do
    s.engine.store table key v
    return .done
  | .reset => do
    modify s.reset
    return .done
  | .collect => do
    modify s.collect
    return .done

end Service

/-- A computation on a machine comes to an end of its own in another machine. -/
inductive Run.EndsIn {α : Type} (x : Run α) (m : Machine) : Machine → Prop
  | ok {a : α} {m' : Machine} (h : x m = .ok a m') : EndsIn x m m'
  | failed {f : Failure} {m' : Machine} (h : x m = .error (.failed f) m') : EndsIn x m m'

/-- The machines that a host can bring about, one request after the other, each with as much fuel as
it needs. -/
inductive Machine.Reachable (config : Config) (digests : Digests) : Machine → Prop
  | new : Reachable config digests (.new config)
  | served {m m' : Machine} {fuel : Nat} {r : Request Value} (h : Reachable config digests m)
    (hend : ((Service.withFuel fuel digests).serve r).EndsIn m m') : Reachable config digests m'

end ScriptVM
