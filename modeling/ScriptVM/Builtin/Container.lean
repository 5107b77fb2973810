import ScriptVM.Builtin.Basic
import ScriptVM.Builtin.Selection
import ScriptVM.Machine.Iteration
import ScriptVM.Machine.Protocol

/-!
# Tuples, arrays, hashes and iterators

Tuples and arrays share their behaviour, and what comes out of one is of the same kind. Arrays
and hashes can be changed. The text of a container asks its elements for theirs; strings are
quoted in it.
-/
namespace ScriptVM.Builtin

open Run

/-- The text of an element of a container. -/
def elementText (e : Engine) (v : Value) : Run String := do
  match ← kindOf v with
  | .string _ => repr v
  | _ => e.stringify v

/-! ## Tuples and arrays -/

/-- The elements of a sequence, or a failure. -/
def expectItems (v : Value) : Run (List Value) := do
  match ← kindOf v with
  | .tuple items | .array items => return items
  | _ => failType v ["Tuple", "Array"]

/-- A new sequence of the same kind as another one. -/
def newLike (like : Value) (items : List Value) : Run Value := do
  match ← kindOf like with
  | .array _ => newObject (.array items)
  | _ => newObject (.tuple items)

/-- Whether two values have the same built-in type. -/
def haveSameTag (a b : Value) : Run Bool := read fun m => m.heap.tag a = m.heap.tag b

/-- Whether two lists of the same length are equal element by element, from the front. -/
def allEqual (e : Engine) : List Value → List Value → Run Bool
  | a :: as, b :: bs => do
    if ← e.equals a b then allEqual e as bs else return false
  | _, _ => return true

/-- Sequences are equal when they are of one kind and have equal elements. -/
def equalSequences (e : Engine) (this other : Value) : Run Bool := do
  if ← haveSameTag this other then
    let left ← expectItems this
    let right ← expectItems other
    if left.length = right.length then
      e.keep ((left ++ right).map .value) (allEqual e left right)
    else return false
  else return false

/-- Whether an element equals the one that is looked for. -/
def containsElement (e : Engine) (needle : Value) : List Value → Run Bool
  | [] => return false
  | element :: rest => do
    if ← e.keep (rest.map .value) (e.equals element needle) then return true
    else containsElement e needle rest

/-- Joins two sequences of one kind. -/
def joinSequences (_ : Engine) (this other : Value) : Run Value := do
  if ← haveSameTag this other then
    newLike this ((← expectItems this) ++ (← expectItems other))
  else failType other [(← kindOf this).tag.name]

/-- Repeats a sequence. -/
def repeatSequence (_ : Engine) (this times : Value) : Run Value := do
  let times ← Engine.expectInteger times
  let items ← expectItems this
  newLike this (← repetition 8 items times)

/-- The element at a position, or the stretch of a sequence. -/
def indexSequence (_ : Engine) (this index : Value) : Run Value := do
  let items ← expectItems this
  let selection ← select items.length index
  match selection, selection.pick items with
  | .single _, [item] => return item
  | _, stretch => newLike this stretch

/-- The text of a sequence. -/
def sequenceText (e : Engine) (this : Value) : Run Value := do
  let items ← expectItems this
  let parts ← e.keep (items.map .value) (items.mapM (elementText e))
  match ← kindOf this with
  | .array _ => newString (arrayText parts)
  | _ => newString (tupleText parts)

/-- The behaviour that tuples and arrays share. -/
def sequence? : Symbol → Option Method
  | .add => some (.unary joinSequences)
  | .mul => some (.unary repeatSequence)
  | .contains =>
    some (.question false fun e this needle => do containsElement e needle (← expectItems this))
  | .index => some (.unary indexSequence)
  | .iter => some (.nullary fun _ this => do newIterator (← expectItems this))
  | .copy => some (.nullary fun _ this => do newLike this (← expectItems this))
  | .toArray => some (.nullary fun _ this => do newObject (.array (← expectItems this)))
  | .toTuple => some (.nullary fun _ this => do newObject (.tuple (← expectItems this)))
  | .toText => some (.nullary sequenceText)
  | .toBool => some (.nullary fun _ this => do newBool (! (← expectItems this).isEmpty))
  | s => equality? equalSequences s

/-- Adds the hash of an element to that of the elements before it. -/
def mixHash (hash element : Int64) : Int64 := hash * 31 + element

/-- The hash of a tuple comes from those of its elements, in order. -/
def tupleHash (e : Engine) (this : Value) : Run Int64 := do
  let items ← expectItems this
  e.keep (items.map .value) (items.foldlM
    (fun hash element => return mixHash hash (← e.hashOf element)) (e.digests.text "Tuple"))

/-- The behaviour of Tuples. -/
def tuple? : Symbol → Option Method
  | .hash => some (.rememberedHash tupleHash)
  | s => sequence? s

/-- Replaces the element at a position of an array. -/
def assignElement (_ : Engine) (this index element : Value) : Run Value := do
  match ← kindOf this with
  | .array items =>
    match ← select items.length index with
    | .single position => do
      modifyHeap fun h => h.setKind this (.array (items.set position element))
      newNone
    | .stretch .. => failType index ["Integer"]
  | _ => failType this ["Array"]

/-- The behaviour of Arrays. -/
def array? : Symbol → Option Method
  | .assign => some (.binary assignElement)
  | s => sequence? s

/-! ## Hashes -/

/-- Whether every entry has its equal in another hash. -/
def entriesIn (e : Engine) (other : Value) : List (Value × Value) → Run Bool
  | [] => return true
  | (key, value) :: rest => do
    match ← e.keep (entryReferences ((key, value) :: rest)) (e.stored? other key) with
    | some found =>
      if ← e.keep (entryReferences rest) (e.equals value found) then entriesIn e other rest
      else return false
    | none => return false

/-- Hashes are equal when they have equal values under equal keys, in any order. -/
def equalHashes (e : Engine) (this other : Value) : Run Bool := do
  match ← read fun m => m.heap.table? other with
  | none => return false
  | some right => do
    let left ← Engine.expectTable this
    if left.entries.length = right.size then entriesIn e other left.entries else return false

/-- The value under a key. -/
def indexHash (e : Engine) (this key : Value) : Run Value := do
  match ← e.stored? this key with
  | some value => return value
  | none => fail (.keyNotFound (← repr key))

/-- Stores a value under a key. -/
def assignHash (e : Engine) (this key value : Value) : Run Value := do
  e.store this key value
  newNone

/-- The texts of a key and its value. -/
def entryText (e : Engine) (entry : Value × Value) : Run (String × String) := do
  let key ← elementText e entry.1
  let value ← elementText e entry.2
  return (key, value)

/-- The text of a hash. -/
def hashValueText (e : Engine) (this : Value) : Run Value := do
  let entries := (← Engine.expectTable this).entries
  newString (hashText (← e.keep (entryReferences entries) (entries.mapM (entryText e))))

/-- The behaviour of Hashes. -/
def hash? : Symbol → Option Method
  | .index => some (.unary indexHash)
  | .assign => some (.binary assignHash)
  | .contains => some (.question false Engine.isStored)
  | .iter => some (.nullary fun _ this => do newIterator (← Engine.expectTable this).keys)
  | .toText => some (.nullary hashValueText)
  | .toBool => some (.nullary fun _ this => do newBool ((← Engine.expectTable this).size ≠ 0))
  | .copy => some (.nullary fun _ this => do newObject (.hash (← Engine.expectTable this)))
  | s => equality? equalHashes s

/-! ## Iterators and generators -/

/-- The next item, or `None` at the end. -/
def nextItem (e : Engine) (this : Value) : Run Value := do
  match ← e.next this with
  | some item => return item
  | none => newNone

/-- The behaviour of Iterators and Generators. -/
def iterator? : Symbol → Option Method
  | .hasNext => some (.nullary fun e this => do newBool (← e.hasNext this))
  | .next => some (.nullary nextItem)
  | .iter => some .self
  | .toArray => some (.nullary fun e this => do newObject (.array (← e.drain this)))
  | .toTuple => some (.nullary fun e this => do newObject (.tuple (← e.drain this)))
  | _ => none

end ScriptVM.Builtin
