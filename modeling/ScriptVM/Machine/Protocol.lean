import ScriptVM.Machine.State
import ScriptVM.Text.Digest
import ScriptVM.Value.OperatorSymbol

/-!
# The value protocol

Calls and runs of code are the two things that everything else on the machine comes back to. An
`Engine` is a way to do both; it stands for the machine with a certain amount of fuel left. On
top of it stand the questions that the machine asks of any value: behaviour by name, operators,
equality, hashing, truth and text.
-/
namespace ScriptVM

/-- The machine with some fuel left. -/
structure Engine where
  /-- How many rounds a loop of the machine itself may take. -/
  fuel : Nat
  /-- Calls a value with arguments in source order. -/
  call : Value → List Value → Run Value
  /-- Runs code as an activation of a frame that already counts it, and tells where it stood at
  the end. -/
  enter : FrameId → Cursor → Run (Value × Cursor)
  /-- What the hashes of texts and byte strings are made with. -/
  digests : Digests
  /-- Whether it is kept track of what the machine itself holds on to. Only who frees frames while
  something runs has to know. -/
  tracks : Bool

namespace Engine

open Run

/-- Holds on to something during a computation. -/
def keep {α : Type} (e : Engine) (refs : List Reference) (x : Run α) : Run α :=
  if e.tracks then holding refs x else x

/-- A new frame with one activation, made while something is held on to. The frames that lost their
last holder are looked at first. -/
def newFrame (e : Engine) (also : List Reference) (parent : Option FrameId) (object : Option Value)
    (bindsObject : Bool) : Run FrameId := do
  if e.tracks then settleDropped also
  Run.newFrame parent object bindsObject

section plain

variable {e : Engine} (h : e.tracks = false)

include h

theorem keep_of_plain {α : Type} (refs : List Reference) (x : Run α) : e.keep refs x = x := by
  rw [keep, h]
  rfl

theorem newFrame_of_plain (also : List Reference) (parent : Option FrameId) (object : Option Value)
    (bindsObject : Bool) :
    e.newFrame also parent object bindsObject = Run.newFrame parent object bindsObject := by
  rw [newFrame, h]
  rfl

end plain

/-- Calls what a name means on a value. -/
def callNamed (e : Engine) (v : Value) (name : String) (args : List Value) : Run Value := do
  match ← lookup v name with
  | some method => e.keep [.value v] (e.call method args)
  | none => fail (.missingSymbol (← typeName v) name)

/-- Calls the behaviour of a value behind a symbol. -/
def callSymbol (e : Engine) (v : Value) (s : Symbol) (args : List Value) : Run Value :=
  e.callNamed v s.name args

/-- Asks the right operand for the reflected symbol of an operator. -/
def reflectedOperation (e : Engine) (operator : BinaryOperator) (left right : Value) : Run Value :=
  e.callSymbol right operator.reflected [left]

/-- Applies an operator: the forward symbol of the left operand first, then the reflected symbol
of the right operand when the forward one is missing or fails. -/
def operation (e : Engine) (operator : BinaryOperator) (left right : Value) : Run Value := do
  match ← lookup left operator.forward.name with
  | none => e.reflectedOperation operator left right
  | some method =>
    match ← attempt (e.call method [right]) with
    | some result => return result
    | none => e.reflectedOperation operator left right

/-- The flag of a Bool, or a failure. -/
def expectBool (v : Value) : Run Bool := do
  match ← kindOf v with
  | .bool b => return b
  | _ => failType v ["Bool"]

/-- Whether two values are equal. -/
def equals (e : Engine) (left right : Value) : Run Bool := do
  expectBool (← e.keep [.value left, .value right] (e.operation .equals left right))

/-- The number of an Integer, or a failure. -/
def expectInteger (v : Value) : Run Int64 := do
  match ← kindOf v with
  | .integer n => return n
  | _ => failType v ["Integer"]

/-- The hash of a value. -/
def hashOf (e : Engine) (v : Value) : Run Int64 := do
  match ← lookup v Symbol.hash.name with
  | some method => expectInteger (← e.keep [.value v] (e.call method []))
  | none => fail (.unhashable (← typeName v))

/-- Whether a value counts as true. -/
def truthy (e : Engine) (v : Value) : Run Bool := do
  match ← kindOf v with
  | .bool b => return b
  | _ => expectBool (← e.callSymbol v .toBool [])

/-- The text of a String, or a failure. -/
def expectText (v : Value) : Run String := do
  match ← kindOf v with
  | .string s => return s
  | _ => failType v ["String"]

/-- A value as text. -/
def stringify (e : Engine) (v : Value) : Run String := do
  match ← kindOf v with
  | .string s => return s
  | _ => expectText (← e.callSymbol v .toText [])

/-! ## Hash storage

Keys are grouped by their hash and compared inside a group, and both may run code of the program, which
may use the same Hash meanwhile. The keys of a group are therefore taken before they are compared, and a
store goes to the table as it is after the comparisons. -/

/-- The table of a Hash, or a failure. -/
def expectTable (v : Value) : Run Table := do
  match ← kindOf v with
  | .hash table => return table
  | _ => failType v ["Hash"]

/-- The position of the first candidate, counted from `position`, that is the key or equals it. -/
def positionOf (e : Engine) (key : Value) : Nat → List Value → Run (Option Nat)
  | _, [] => return none
  | position, candidate :: rest => do
    if candidate = key then return some position
    else if ← e.equals candidate key then return some position
    else e.positionOf key (position + 1) rest

/-- The hash of a key and its position in the bucket of that hash. -/
def locate (e : Engine) (owner key : Value) : Run (Int64 × Option Nat) := do
  let hash ← e.hashOf key
  let candidates := ((← expectTable owner).bucket hash).map (·.1)
  return (hash, ← e.keep (candidates.map .value) (e.positionOf key 0 candidates))

/-- The value stored under a key. -/
def stored? (e : Engine) (owner key : Value) : Run (Option Value) := do
  match ← e.keep [.value owner, .value key] (e.locate owner key) with
  | (hash, some position) =>
    return (((← expectTable owner).bucket hash)[position]?).map (·.2)
  | (_, none) => return none

/-- Whether a key is present. -/
def isStored (e : Engine) (owner key : Value) : Run Bool :=
  return (← e.keep [.value owner, .value key] (e.locate owner key)).2.isSome

/-- Stores a value under a key. A key without a hash fails before anything changes. -/
def store (e : Engine) (owner key value : Value) : Run Unit := do
  let (hash, position) ← e.keep [.value owner, .value key, .value value] (e.locate owner key)
  let table ← expectTable owner
  modifyHeap fun h => h.setKind owner (.hash (table.put hash position key value))

end Engine
end ScriptVM
