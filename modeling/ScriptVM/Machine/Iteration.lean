import ScriptVM.Machine.Protocol

/-!
# Generators and iteration

A generator maps its body over the items of a source, one at each step. Between steps its frame
is out of the call stack, and its status says where the next step goes on. Whatever a step does,
it is exhausted afterwards unless it has produced a value.

The source of a generator may be a generator, so a step may take a step of another one; fuel
bounds how far this goes.
-/
namespace ScriptVM.Engine

open Run

/-- The state of a generator, or a failure. -/
def expectGenerator (v : Value) : Run Generator := do
  match ← kindOf v with
  | .generator g => return g
  | _ => failType v ["Generator"]

/-- Changes the state of a generator. -/
def changeGenerator (v : Value) (change : Generator → Generator) (h : Heap) : Heap :=
  match h.kind v with
  | .generator g => h.setKind v (.generator (change g))
  | _ => h

/-- Makes a step count as the last one unless it produces a value. -/
def orExhaust (g : Value) (step : Run (Option Value)) : Run (Option Value) := fun m =>
  let exhaust := fun (m : Machine) =>
    { m with heap := changeGenerator g (fun state => { state with status := .exhausted }) m.heap }
  match step m with
  | .ok (some v) m => .ok (some v) m
  | .ok none m => .ok none (exhaust m)
  | .error stop m => .error stop (exhaust m)

/-- The value itself when it can be asked for items, and what `Iter` gives otherwise. -/
def iteratorOf (e : Engine) (v : Value) : Run Value := do
  match ← kindOf v with
  | .iterator .. | .generator _ => return v
  | _ =>
    if ← read fun m => m.heap.has v Symbol.hasNext.name && m.heap.has v Symbol.next.name then
      return v
    else e.callSymbol v .iter []

/-- Takes items until there are as many as wanted; `taken` holds those so far, last first. -/
def takeItems (e : Engine) (next : Value → Run (Option Value)) (iterator : Value) (wanted : Nat) :
    Nat → List Value → Run (List Value)
  | 0, taken => return taken.reverse
  | missing + 1, taken => do
    match ← e.keep (.value iterator :: taken.map .value) (next iterator) with
    | some item => e.takeItems next iterator wanted missing (item :: taken)
    | none => fail (.argumentCount wanted taken.length)

/-- Takes a number of items out of a value. -/
def unpackWith (e : Engine) (next : Value → Run (Option Value)) (v : Value) (wanted : Nat) :
    Run (List Value) := do
  let iterator ← e.iteratorOf v
  e.takeItems next iterator wanted wanted []

/-- The frame of a generator with one more activation. The values are for its body. -/
def generatorFrame (e : Engine) (g : Value) (state : Generator) (values : List Value) :
    Run FrameId := do
  match state.frame with
  | some id => do
    activate id
    return id
  | none => do
    let id ← e.newFrame (.value g :: state.references ++ values.map .value) (some state.scope) none
      false
    let id ← retain id
    modifyHeap (changeGenerator g fun state => { state with frame := some id })
    return id

theorem generatorFrame_of_plain {e : Engine} (h : e.tracks = false) (g : Value) (state : Generator)
    (values : List Value) :
    e.generatorFrame g state values = match state.frame with
      | some id => do
        activate id
        return id
      | none => do
        let id ← Run.newFrame (some state.scope) none false
        let id ← retain id
        modifyHeap (changeGenerator g fun state => { state with frame := some id })
        return id := by
  simp only [generatorFrame, newFrame_of_plain h]

/-- Where the body of a generator starts. -/
def startOf (state : Generator) : Cursor :=
  match state.status with
  | .suspended position =>
    if position < state.body.length then ⟨state.body, position⟩ else .ofView state.body
  | _ => .ofView state.body

/-- What the body of a generator receives of an item: the item itself, or as many parts of it as
the body has names. -/
def received (e : Engine) (next : Value → Run (Option Value)) (item : Value) (receivers : Nat) :
    Run (List Value) :=
  if receivers = 1 then return [item] else e.unpackWith next item receivers

/-- Runs the body of a generator on values, the first one on top of the operands. -/
def runOperation (e : Engine) (g : Value) (state : Generator) (values : List Value) :
    Run (Value × Cursor) := do
  let id ← e.generatorFrame g state values
  pushAll id values
  e.enter id (startOf state)

/-- Applies the body of a generator to an item. An item that was taken apart is held on to until the
body has ended. -/
def applyBody (e : Engine) (next : Value → Run (Option Value)) (g item : Value) : Run Value := do
  let state ← expectGenerator g
  let whole : List Reference := if state.receivers = 1 then [] else [.value item]
  let (value, stop) ← e.keep (whole ++ state.references) do
    let values ← e.received next item state.receivers
    e.runOperation g state values
  modifyHeap (changeGenerator g fun state => { state with status := .suspended stop.index })
  return value

theorem applyBody_of_plain {e : Engine} (h : e.tracks = false) (next : Value → Run (Option Value))
    (g item : Value) :
    e.applyBody next g item = (do
      let state ← expectGenerator g
      let values ← e.received next item state.receivers
      let (value, stop) ← e.runOperation g state values
      modifyHeap (changeGenerator g fun state => { state with status := .suspended stop.index })
      return value) := by
  simp only [applyBody, keep_of_plain h, bind_assoc]

/-- One step of a generator: the value it produces, or `none` when it is exhausted. -/
def resumeWith (e : Engine) (next : Value → Run (Option Value)) (g : Value) :
    Run (Option Value) := do
  let state ← expectGenerator g
  match state.buffered, state.status with
  | some v, _ => do
    modifyHeap (changeGenerator g fun state => { state with buffered := none })
    return some v
  | none, .exhausted => return none
  | none, _ =>
    orExhaust g (e.keep [.value state.source] do
      match ← next state.source with
      | some item => return some (← e.applyBody next g item)
      | none => return none)

/-- Whether an iterator that is not built in has another item. -/
def askHasNext (e : Engine) (iterator : Value) : Run Bool := do
  e.truthy (← e.callSymbol iterator .hasNext [])

/-- The next item of an iterator, or `none` at its end, through at most so many generators. -/
def nextWithin (e : Engine) : Nat → Value → Run (Option Value)
  | 0, _ => giveUp
  | depth + 1, iterator => do
    match ← kindOf iterator with
    | .iterator [] _ => return none
    | .iterator (item :: remaining) delivered => do
      modifyHeap fun h => h.setKind iterator (.iterator remaining (item :: delivered))
      return some item
    | .generator _ => e.resumeWith (e.nextWithin depth) iterator
    | _ =>
      if ← e.askHasNext iterator then return some (← e.callSymbol iterator .next [])
      else return none

/-- The next item of an iterator, or `none` at its end. -/
def next (e : Engine) (iterator : Value) : Run (Option Value) := e.nextWithin e.fuel iterator

/-- One step of a generator. -/
def resume (e : Engine) (g : Value) : Run (Option Value) := e.resumeWith e.next g

/-- Whether an iterator has another item. A generator produces it in advance. -/
def hasNext (e : Engine) (iterator : Value) : Run Bool := do
  match ← kindOf iterator with
  | .iterator remaining _ => return ! remaining.isEmpty
  | .generator g =>
    if g.buffered.isSome then return true
    else
      match ← e.resume iterator with
      | some v => do
        modifyHeap (changeGenerator iterator fun state => { state with buffered := some v })
        return true
      | none => return false
  | _ => e.askHasNext iterator

/-- All remaining items, in at most so many rounds; `taken` holds those so far, last first. -/
def drainWithin (e : Engine) (iterator : Value) : Nat → List Value → Run (List Value)
  | 0, _ => giveUp
  | rounds + 1, taken => do
    match ← e.keep (.value iterator :: taken.map .value) (e.next iterator) with
    | some item => e.drainWithin iterator rounds (item :: taken)
    | none => return taken.reverse

/-- All remaining items. -/
def drain (e : Engine) (iterator : Value) : Run (List Value) := e.drainWithin iterator e.fuel []

/-- Exactly so many items of a value. -/
def unpack (e : Engine) (v : Value) (wanted : Nat) : Run (List Value) :=
  e.unpackWith e.next v wanted

end ScriptVM.Engine
