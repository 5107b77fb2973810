import ScriptVM.Code.Op
import ScriptVM.Text.Integer
import ScriptVM.Text.Utf8

/-!
# Data trees

The data model that the text form and the binary form of saved code have in common, and the
readings of a tree as a number, a text, a record or a tagged value. Every reading is `none` when
the tree has another shape. A `Dialect` says where the readings of the two forms differ.
-/
namespace ScriptVM

/-- A tree of plain data. -/
inductive Tree where
  | null
  | bool (value : Bool)
  | integer (value : Int)
  /-- A natural number that is not written as one: it counts, but it is no position. -/
  | plainNumber (value : Nat)
  | float (value : FloatBits)
  | text (s : String)
  /-- A text that is not well-formed: it is no text, but it may stand for an unknown name. -/
  | malformedText
  | bytes (content : List UInt8)
  | list (items : List Tree)
  | map (entries : List (Tree × Tree))
  /-- Well-formed data that stands for nothing: it may be skipped but not read. -/
  | opaqueData
  deriving Inhabited

/-- What the readings of trees leave to the form that the trees come from. -/
structure Dialect where
  /-- Whether a name may be given by its position. -/
  positions : Bool
  /-- How many levels of lists and maps a tree may have where it is skipped, if that is limited. -/
  room : Option Nat

/-- The dialect one level further in. -/
def Dialect.inner (d : Dialect) : Dialect := { d with room := d.room.map (· - 1) }

namespace Tree

mutual

/-- How many levels of lists, maps and other compounds a tree has. -/
def height : Tree → Nat
  | .list items => heightOfItems items + 1
  | .map entries => heightOfEntries entries + 1
  | .opaqueData => 1
  | _ => 0

/-- The height of the highest item. -/
def heightOfItems : List Tree → Nat
  | [] => 0
  | item :: rest => max (height item) (heightOfItems rest)

/-- The height of the highest key or value. -/
def heightOfEntries : List (Tree × Tree) → Nat
  | [] => 0
  | (key, value) :: rest => max (max (height key) (height value)) (heightOfEntries rest)

end

/-- Whether a tree may be skipped. -/
def skippable (d : Dialect) (t : Tree) : Bool :=
  match d.room with
  | none => true
  | some room => t.height ≤ room

/-- A record with its fields in order. -/
def record (fields : List (String × Tree)) : Tree :=
  .map (fields.map fun field => (.text field.1, field.2))

/-- A natural number up to a limit. -/
def natural? (limit : Nat) : Tree → Option Nat
  | .integer n => if 0 ≤ n ∧ n.toNat ≤ limit then some n.toNat else none
  | .plainNumber n => if n ≤ limit then some n else none
  | _ => none

/-- An unsigned machine word. -/
def count? : Tree → Option Nat := natural? Text.maxCount

/-- A signed machine word. -/
def int64? : Tree → Option Int64
  | .integer n => Text.int64OfInt? n
  | .plainNumber n => Text.int64OfInt? n
  | _ => none

/-- A byte. -/
def byte? (t : Tree) : Option UInt8 := (t.natural? 255).map UInt8.ofNat

/-- A float; a whole number is one too. -/
def float? : Tree → Option FloatBits
  | .float x => some x
  | .integer n =>
    some (.ofFloat (if 0 ≤ n then n.toNat.toUInt64.toFloat else (Int64.ofInt n).toFloat))
  | .plainNumber n => some (.ofFloat n.toUInt64.toFloat)
  | _ => none

/-- A text; well-formed bytes are one too. -/
def text? : Tree → Option String
  | .text s => some s
  | .bytes content => Text.decodeUtf8? content
  | _ => none

/-- A value that may be null. -/
def optional? {α : Type} (read : Tree → Option α) : Tree → Option (Option α)
  | .null => some none
  | t => (read t).map some

/-- The numbers that bytes stand for. -/
def ofBytes (content : List UInt8) : List Tree := content.map fun b => .plainNumber b.toNat

/-- A list of values; bytes are a list of numbers. -/
def list? {α : Type} (read : Tree → Option α) : Tree → Option (List α)
  | .list items => items.mapM read
  | .bytes content => (ofBytes content).mapM read
  | _ => none

/-- Which of some names a tree stands for. The outer `none` is a tree that names nothing, the
inner one a name that is not among them. -/
def identify (d : Dialect) (names : List String) : Tree → Option (Option Nat)
  | .text s => some (names.idxOf? s)
  | .malformedText => some none
  | .bytes content => some ((names.map Text.encodeUtf8).idxOf? content)
  | .integer n =>
    if d.positions && 0 ≤ n then
      some (if n.toNat < names.length then some n.toNat else none)
    else none
  | _ => none

/-- Adds the entries of a map to the fields read so far. Unknown names are skipped, and a name
that comes twice is refused. -/
def collectFields (d : Dialect) (names : List String) :
    List (Option Tree) → List (Tree × Tree) → Option (List (Option Tree))
  | fields, [] => some fields
  | fields, (key, value) :: rest =>
    match identify d names key with
    | none => none
    | some none => if value.skippable d.inner then collectFields d names fields rest else none
    | some (some i) =>
      if (fields[i]?.getD none).isSome then none
      else collectFields d names (fields.set i (some value)) rest

/-- The fields of a record, each if present. A list with all fields in order is a record too, and
so are bytes, of which those behind the last field are passed over. -/
def fields? (d : Dialect) (names : List String) : Tree → Option (List (Option Tree))
  | .map entries => collectFields d names (List.replicate names.length none) entries
  | .list items => if items.length = names.length then some (items.map some) else none
  | .bytes content =>
    if names.length ≤ content.length then
      some ((ofBytes (content.take names.length)).map some)
    else none
  | _ => none

/-- The position of a tag among the known ones, and what the tag carries. The map around a tag is
no level of its own. -/
def tagged? (d : Dialect) (names : List String) : Tree → Option (Nat × Option Tree)
  | .map [(key, value)] => ((identify d names key).bind id).map fun i => (i, some value)
  | .map _ => none
  | t => ((identify d names t).bind id).map fun i => (i, none)

end Tree
end ScriptVM
