import ScriptVM.Text.FloatText
import ScriptVM.Text.Quoted
import ScriptVM.Value.Object

/-!
# The text of a value

How values are shown. Strings stand for themselves at the outside and are quoted inside
containers. A value that contains itself has no text, because its text would have no end; any
other value is nested less deeply than there are objects.
-/
namespace ScriptVM

/-- The text of a tuple from those of its elements; a comma marks a single one. -/
def tupleText : List String → String
  | [part] => "(" ++ part ++ ",)"
  | parts => "(" ++ ", ".intercalate parts ++ ")"

/-- The text of an array from those of its elements. -/
def arrayText (parts : List String) : String := "[" ++ ", ".intercalate parts ++ "]"

/-- The text of a hash from those of its keys and values. -/
def hashText (parts : List (String × String)) : String :=
  "\x7b" ++ ", ".intercalate (parts.map fun part => part.1 ++ ": " ++ part.2) ++ "\x7d"

/-- A list of texts is complete when each of them is there. -/
theorem isSome_mapM {α β : Type} {f : α → Option β} {l : List α} :
    (l.mapM f).isSome = true ↔ ∀ a ∈ l, (f a).isSome = true := by
  induction l with
  | nil => simp
  | cons a l ih =>
    rw [List.mapM_cons, List.forall_mem_cons, ← ih]
    cases f a with
    | none => simp
    | some b => cases l.mapM f <;> simp

namespace Heap

/-- The text of a function value. -/
def functionText (h : Heap) (f : Function) : String :=
  match f.receiver, f.callable.name? with
  | some receiver, some name => "<bound method " ++ h.typeName receiver ++ "." ++ name ++ ">"
  | _, some name => "<function " ++ name ++ ">"
  | _, none => "<lambda>"

/-- The text of a value in which containers are nested at most `depth` deep; strings may be
asked for in quotes. -/
def textWithin (h : Heap) : Nat → Bool → Value → Option String
  | 0, _, _ => none
  | depth + 1, quoted, v =>
    match h.kind v with
    | .none => some "None"
    | .bool true => some "True"
    | .bool false => some "False"
    | .integer n => some (toString n.toInt)
    | .float x => some (Text.formatFloat x)
    | .string s => some (if quoted then Text.quote s else s)
    | .bytes content => some (Text.formatBytes content)
    | .tuple items => (items.mapM (h.textWithin depth true)).map tupleText
    | .array items => (items.mapM (h.textWithin depth true)).map arrayText
    | .hash table =>
      (table.entries.mapM fun (entry : Value × Value) => do
        let key ← h.textWithin depth true entry.1
        let value ← h.textWithin depth true entry.2
        return (key, value)).map hashText
    | .function f => some (h.functionText f)
    | .generator _ => some "<generator>"
    | .iterator .. => some "<iterator>"
    | .type definition => some ("<type " ++ definition.name ++ ">")
    | .object _ => some ("<" ++ h.typeName v ++ " object>")
    | .module name => some ("<module " ++ name ++ ">")
    | .error kind message => some (kind ++ ": " ++ message)

/-- More levels than any value has that does not contain itself. -/
def nestingBound (h : Heap) : Nat := h.objects.size + 1

/-- The text of a value. -/
def display? (h : Heap) (v : Value) : Option String := h.textWithin h.nestingBound false v

/-- The text of a value as it appears inside a container: strings are quoted. -/
def repr? (h : Heap) (v : Value) : Option String := h.textWithin h.nestingBound true v

/-- The text of a value together with its type. -/
def debug? (h : Heap) (v : Value) : Option String :=
  (h.repr? v).map fun text => h.typeName v ++ "(" ++ text ++ ")"

end Heap
end ScriptVM
