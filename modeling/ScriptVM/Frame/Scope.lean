import ScriptVM.Frame.Arena
import ScriptVM.Value.Lookup

/-!
# Scopes

How names are resolved and assigned in a frame. A name means the innermost variable of that name
along the chain of frames; where a frame has an object, the object's members come right after
the frame's own variables.
-/
namespace ScriptVM

/-- What a name means in a frame by itself. -/
def Frame.resolve? (f : Frame) (h : Heap) (name : String) : Option (Value × Heap) :=
  match f.vars.get? name with
  | some v => some (v, h)
  | none =>
    match f.object with
    | some object => (h.own? object name).map (h.bind object)
    | none => none

namespace Arena

/-- What a name means in a frame and the frames around it. -/
def lookup? (a : Arena) (h : Heap) (id : FrameId) (name : String) : Option (Value × Heap) :=
  (a.chain id).findSome? fun f => f.resolve? h name

/-- Assigns to a name in a frame: among its variables, or on the object that it binds. -/
def assign (a : Arena) (h : Heap) (id : FrameId) (name : String) (value : Value) : Arena × Heap :=
  match (a.get? id).bind fun f => if f.bindsObject then f.object else none with
  | some object => (a, h.setValue object name value)
  | none => (a.modify id fun f => f.define name value, h)

end Arena
end ScriptVM
