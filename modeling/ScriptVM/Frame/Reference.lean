import ScriptVM.Frame.Arena

/-!
# References

What an object and a frame keep alive, in two orders. The `references` of something are in the
order in which a search for garbage comes upon them; its `parts` are in the order in which it
lets go of them when it ceases to exist. A frame refers to its parent, which a search follows,
but the parent is held by counting children and is no part.
-/
namespace ScriptVM

/-- A reference to an object, to code that closes over a frame, or to a frame itself. -/
inductive Reference where
  | value (v : Value)
  | code (scope : FrameId)
  | frame (id : FrameId)

/-- The object that a reference leads to, if any. -/
def Reference.value? : Reference → Option Value
  | .value v => some v
  | _ => none

/-- The frame that a reference keeps, if any. -/
def Reference.scope? : Reference → Option FrameId
  | .value _ => none
  | .code scope => some scope
  | .frame id => some id

/-- What an entry of a member table refers to. -/
def Member.references : Member → List Reference
  | .value v => [.value v]
  | .method f => [.code f.scope]
  | .builtin _ => []

/-- What a callable refers to. -/
def Callable.references : Callable → List Reference
  | .code f => [.code f.scope]
  | .builtin _ => []

/-- What a function value refers to. -/
def Function.references (f : Function) : List Reference :=
  f.callable.references ++ f.receiver.toList.map .value

/-- What a type refers to. -/
def TypeDef.references : TypeDef → List Reference
  | .builtin _ => []
  | .ofClass c => c.bases.map .value ++ [.frame c.scope]

namespace Generator

/-- What a generator refers to. -/
def references (g : Generator) : List Reference :=
  .value g.source :: g.buffered.toList.map .value ++ .frame g.scope :: g.frame.toList.map .frame

/-- What a generator lets go of. -/
def parts (g : Generator) : List Reference :=
  .value g.source :: .frame g.scope :: g.frame.toList.map .frame ++ g.buffered.toList.map .value

end Generator

/-- What entries refer to, each to its key before its value. -/
abbrev entryReferences (entries : List (Value × Value)) : List Reference :=
  entries.flatMap fun entry => [.value entry.1, .value entry.2]

namespace Kind

/-- What a payload refers to. -/
def references : Kind → List Reference
  | .none | .bool _ | .integer _ | .float _ | .string _ | .bytes _ | .module _ | .error .. => []
  | .tuple items | .array items => items.map .value
  | .hash table => entryReferences table.entries
  | .function f => f.references
  | .generator g => g.references
  | .iterator remaining delivered => (delivered.reverse ++ remaining).map .value
  | .type definition => definition.references
  | .object cls => [.value cls]

/-- What a payload lets go of. -/
def parts : Kind → List Reference
  | .generator g => g.parts
  | kind => kind.references

end Kind

namespace Object

/-- What an object refers to: its members first. -/
def references (o : Object) : List Reference :=
  o.members.values.flatMap Member.references ++ o.kind.references

/-- What an object lets go of: its members last. -/
def parts (o : Object) : List Reference :=
  o.kind.parts ++ o.members.values.flatMap Member.references

end Object

namespace Frame

/-- What a frame refers to. -/
def references (f : Frame) : List Reference :=
  (f.vars.values ++ f.stack.reverse ++ f.last.toList ++ f.object.toList).map .value ++
    f.parent.toList.map .frame

/-- What a frame lets go of when an activation ends and leaves it idle. -/
def operands (f : Frame) : List Reference := (f.stack.reverse ++ f.last.toList).map .value

/-- What a frame lets go of. -/
def parts (f : Frame) : List Reference :=
  (f.vars.values ++ f.object.toList).map .value ++ f.operands

end Frame
end ScriptVM
