import ScriptVM.Code.Cursor
import ScriptVM.Value.Bindings
import ScriptVM.Value.Symbol

/-!
# Values, objects and the heap

A value is a reference to an object in the heap, and objects are told apart by their references.
An object has a payload of some kind, a table of members and a remembered hash. Only arrays,
hashes, generators and iterators change their payload. The member table starts empty; asking a
value for behaviour of its type also notes the symbol there.
-/
namespace ScriptVM

/-- A reference to an object in the heap. -/
structure Value where
  address : Nat
  deriving DecidableEq, Repr, Inhabited, Hashable

/-- A reference to a frame in the arena. Frames are numbered in the order in which they are made,
and no number is used twice. -/
structure FrameId where
  serial : Nat
  deriving DecidableEq, Repr, Inhabited

/-- The built-in types. -/
inductive TypeTag where
  | none | bool | integer | float | string | bytes | tuple | array | hash
  | function | generator | iterator | type | module | error | object
  deriving DecidableEq, Repr, Inhabited

namespace TypeTag

/-- All built-in types. -/
def all : List TypeTag :=
  [.none, .bool, .integer, .float, .string, .bytes, .tuple, .array, .hash, .function, .generator,
   .iterator, .type, .module, .error, .object]

/-- The name of a type in programs. -/
def name : TypeTag → String
  | .none => "NoneType"
  | .bool => "Bool"
  | .integer => "Integer"
  | .float => "Float"
  | .string => "String"
  | .bytes => "Bytes"
  | .tuple => "Tuple"
  | .array => "Array"
  | .hash => "Hash"
  | .function => "Function"
  | .generator => "Generator"
  | .iterator => "Iterator"
  | .type => "Type"
  | .module => "Module"
  | .error => "Error"
  | .object => "Object"

theorem mem_all (t : TypeTag) : t ∈ all := by
  cases t <;> decide

end TypeTag

/-- A function made from code, with the frame it was defined in. -/
structure CodeFunction where
  name : Option String
  arity : Nat
  body : View
  scope : FrameId

/-- The body of a function value: code, or the built-in behaviour behind a symbol. -/
inductive Callable where
  | code (f : CodeFunction)
  | builtin (s : Symbol)

namespace Callable

/-- How many arguments a call takes. -/
def arity : Callable → Nat
  | .code f => f.arity
  | .builtin s => s.arity

/-- The name of the function, if it has one. -/
def name? : Callable → Option String
  | .code f => f.name
  | .builtin s => some s.name

end Callable

/-- A function value, possibly bound to the object it was looked up on. -/
structure Function where
  callable : Callable
  receiver : Option Value

/-- A class or interface of a program. -/
structure ClassDef where
  name : String
  bases : List Value
  body : View
  scope : FrameId

/-- What a type value is: a built-in type, which converts its argument when called, or a class. -/
inductive TypeDef where
  | builtin (tag : TypeTag)
  | ofClass (c : ClassDef)

/-- The name of a type. -/
def TypeDef.name : TypeDef → String
  | .builtin tag => tag.name
  | .ofClass c => c.name

/-- Where a generator stands. -/
inductive GeneratorStatus where
  | fresh
  /-- The next step continues at a position of the body. -/
  | suspended (resumeAt : Nat)
  | exhausted
  deriving DecidableEq, Repr

/-- A generator maps its body over the items of a source, one item at each step. -/
structure Generator where
  /-- The iterator that items are drawn from. -/
  source : Value
  body : View
  receivers : Nat
  /-- The frame that the generator was made in. -/
  scope : FrameId
  /-- The frame of the body, made at the first step. -/
  frame : Option FrameId
  status : GeneratorStatus
  /-- A value that was produced in advance and not delivered yet. -/
  buffered : Option Value

/-- Whether a generator has nothing left to deliver. -/
def Generator.isExhausted (g : Generator) : Bool :=
  g.buffered.isNone && g.status = .exhausted

/-- The entries of a hash whose keys have the same hash. -/
structure Bucket where
  hash : Int64
  entries : List (Value × Value)
  deriving DecidableEq

/-- The storage of a hash: buckets in the order of their first use. -/
structure Table where
  buckets : List Bucket
  size : Nat
  deriving DecidableEq

namespace Table

/-- A hash without entries. -/
def empty : Table := ⟨[], 0⟩

/-- All entries, in the order of iteration. -/
def entries (t : Table) : List (Value × Value) := t.buckets.flatMap Bucket.entries

/-- All keys, in the order of iteration. -/
def keys (t : Table) : List Value := t.entries.map (·.1)

/-- The entries whose keys have a given hash. -/
def bucket (t : Table) (hash : Int64) : List (Value × Value) :=
  match t.buckets.find? fun b => b.hash = hash with
  | some b => b.entries
  | none => []

/-- Adds an entry to the bucket of a hash, which comes last when it is new. -/
def addTo (hash : Int64) (entry : Value × Value) : List Bucket → List Bucket
  | [] => [⟨hash, [entry]⟩]
  | b :: rest =>
    if b.hash = hash then { b with entries := b.entries ++ [entry] } :: rest
    else b :: addTo hash entry rest

/-- Replaces the value of the entry at a position of the bucket of a hash. -/
def replaceIn (hash : Int64) (position : Nat) (value : Value) : List Bucket → List Bucket
  | [] => []
  | b :: rest =>
    if b.hash = hash then
      { b with entries := b.entries.modify position fun entry => (entry.1, value) } :: rest
    else b :: replaceIn hash position value rest

/-- Stores a value: in the entry at a position of the bucket of the key's hash, or in an entry of
its own. -/
def put (t : Table) (hash : Int64) (position : Option Nat) (key value : Value) : Table :=
  match position with
  | some i =>
    if i < (t.bucket hash).length then { t with buckets := replaceIn hash i value t.buckets }
    else ⟨addTo hash (key, value) t.buckets, t.size + 1⟩
  | none => ⟨addTo hash (key, value) t.buckets, t.size + 1⟩

theorem length_addTo (hash : Int64) (entry : Value × Value) (buckets : List Bucket) :
    ((addTo hash entry buckets).flatMap Bucket.entries).length =
      (buckets.flatMap Bucket.entries).length + 1 := by
  induction buckets with
  | nil => rfl
  | cons b rest ih =>
    simp only [addTo]
    split
    · simp only [List.flatMap_cons, List.length_append, List.length_cons, List.length_nil]
      omega
    · simp only [List.flatMap_cons, List.length_append, ih]
      omega

theorem length_replaceIn (hash : Int64) (position : Nat) (value : Value) (buckets : List Bucket) :
    ((replaceIn hash position value buckets).flatMap Bucket.entries).length =
      (buckets.flatMap Bucket.entries).length := by
  induction buckets with
  | nil => rfl
  | cons b rest ih =>
    simp only [replaceIn]
    split
    · simp
    · simp [ih]

/-- A hash counts its entries. -/
theorem size_put {t : Table} (ht : t.size = t.entries.length) (hash : Int64)
    (position : Option Nat) (key value : Value) :
    (t.put hash position key value).size = (t.put hash position key value).entries.length := by
  unfold entries at ht
  unfold put entries
  split
  · split
    · simp only [length_replaceIn, ht]
    · simp only [length_addTo, ht]
  · simp only [length_addTo, ht]

end Table

/-- The payload of an object. -/
inductive Kind where
  | none
  | bool (value : Bool)
  | integer (value : Int64)
  | float (value : Float)
  | string (text : String)
  | bytes (content : List UInt8)
  | tuple (items : List Value)
  | array (items : List Value)
  | hash (table : Table)
  | function (f : Function)
  | generator (g : Generator)
  /-- A fixed list of items, by those still to come and those already delivered, last first. -/
  | iterator (remaining delivered : List Value)
  | type (definition : TypeDef)
  /-- An instance of a class. -/
  | object (cls : Value)
  | module (name : String)
  | error (kind message : String)

instance : Inhabited Kind := ⟨.none⟩

/-- The built-in type of a payload. -/
def Kind.tag : Kind → TypeTag
  | .none => .none
  | .bool _ => .bool
  | .integer _ => .integer
  | .float _ => .float
  | .string _ => .string
  | .bytes _ => .bytes
  | .tuple _ => .tuple
  | .array _ => .array
  | .hash _ => .hash
  | .function _ => .function
  | .generator _ => .generator
  | .iterator .. => .iterator
  | .type _ => .type
  | .object _ => .object
  | .module _ => .module
  | .error .. => .error

/-- An entry of a member table. -/
inductive Member where
  | value (v : Value)
  /-- A method, kept without its receiver. -/
  | method (f : CodeFunction)
  /-- Behaviour of the object's type that was asked for before. -/
  | builtin (s : Symbol)

/-- An object. A remembered hash of zero is not remembered at all. -/
structure Object where
  kind : Kind
  members : Bindings Member
  hash : Int64
  deriving Inhabited

/-- The objects that exist, by address. Objects are never taken away. -/
structure Heap where
  objects : Array Object

namespace Heap

/-- No objects. -/
def empty : Heap := ⟨#[]⟩

instance : Inhabited Heap := ⟨empty⟩

/-- The object behind a value. -/
def get (h : Heap) (v : Value) : Object := h.objects.getD v.address default

/-- The payload of a value. -/
def kind (h : Heap) (v : Value) : Kind := (h.get v).kind

/-- A new object, and the value that refers to it. -/
def alloc (h : Heap) (kind : Kind) : Value × Heap :=
  (⟨h.objects.size⟩, ⟨h.objects.push ⟨kind, .empty, 0⟩⟩)

/-- Changes the object behind a value. -/
def modify (h : Heap) (v : Value) (f : Object → Object) : Heap :=
  ⟨h.objects.modify v.address f⟩

/-- Changes the payload of a value. -/
def setKind (h : Heap) (v : Value) (kind : Kind) : Heap :=
  h.modify v fun o => { o with kind := kind }

/-- Enters something into the member table of a value. -/
def setMember (h : Heap) (v : Value) (name : String) (m : Member) : Heap :=
  h.modify v fun o => { o with members := o.members.insert name m }

/-- Remembers the hash of a value. -/
def setHash (h : Heap) (v : Value) (hash : Int64) : Heap :=
  h.modify v fun o => { o with hash := hash }

@[simp] theorem size_alloc (h : Heap) (kind : Kind) :
    (h.alloc kind).2.objects.size = h.objects.size + 1 := by
  simp [alloc]

@[simp] theorem get_alloc (h : Heap) (kind : Kind) :
    (h.alloc kind).2.get (h.alloc kind).1 = ⟨kind, .empty, 0⟩ := by
  simp [alloc, get]

/-- A new object changes no other one. -/
theorem get_alloc_of_lt {h : Heap} {v : Value} (kind : Kind) (hv : v.address < h.objects.size) :
    (h.alloc kind).2.get v = h.get v := by
  simp [alloc, get, Array.getD, hv, Nat.lt_succ_of_lt hv, Array.getElem_push_lt]

@[simp] theorem size_modify (h : Heap) (v : Value) (f : Object → Object) :
    (h.modify v f).objects.size = h.objects.size := by
  simp [modify]

theorem get_modify_self {h : Heap} {v : Value} (f : Object → Object)
    (hv : v.address < h.objects.size) : (h.modify v f).get v = f (h.get v) := by
  simp [modify, get, Array.getD_eq_getD_getElem?, Array.getElem_modify, hv]

theorem get_modify_of_ne {v w : Value} (h : Heap) (f : Object → Object) (hne : w ≠ v) :
    (h.modify v f).get w = h.get w := by
  have ha : v.address ≠ w.address := fun e => hne (by cases v; cases w; simp_all)
  simp [modify, get, Array.getD_eq_getD_getElem?, Array.getElem?_modify, ha]

/-- The hash that is remembered for a value. -/
def hash? (h : Heap) (v : Value) : Option Int64 :=
  let hash := (h.get v).hash
  if hash = 0 then none else some hash

/-- The built-in type of a value. -/
def tag (h : Heap) (v : Value) : TypeTag := (h.kind v).tag

/-- The name of a value's type; an instance has the name of its class. -/
def typeName (h : Heap) (v : Value) : String :=
  match h.kind v with
  | .object cls =>
    match h.kind cls with
    | .type definition => definition.name
    | _ => TypeTag.object.name
  | kind => kind.tag.name

/-- Whether a value is `None`. -/
def isNone (h : Heap) (v : Value) : Bool :=
  match h.kind v with
  | .none => true
  | _ => false

/-- The flag of a Bool. -/
def bool? (h : Heap) (v : Value) : Option Bool :=
  match h.kind v with
  | .bool b => some b
  | _ => none

/-- The number of an Integer. -/
def integer? (h : Heap) (v : Value) : Option Int64 :=
  match h.kind v with
  | .integer n => some n
  | _ => none

/-- The number of a Float. -/
def float? (h : Heap) (v : Value) : Option Float :=
  match h.kind v with
  | .float x => some x
  | _ => none

/-- The text of a String. -/
def text? (h : Heap) (v : Value) : Option String :=
  match h.kind v with
  | .string s => some s
  | _ => none

/-- The bytes of a Bytes value. -/
def bytes? (h : Heap) (v : Value) : Option (List UInt8) :=
  match h.kind v with
  | .bytes content => some content
  | _ => none

/-- The elements of a Tuple or an Array. -/
def items? (h : Heap) (v : Value) : Option (List Value) :=
  match h.kind v with
  | .tuple items | .array items => some items
  | _ => none

/-- The storage of a Hash. -/
def table? (h : Heap) (v : Value) : Option Table :=
  match h.kind v with
  | .hash table => some table
  | _ => none

/-- The state of a Generator. -/
def generator? (h : Heap) (v : Value) : Option Generator :=
  match h.kind v with
  | .generator g => some g
  | _ => none

/-- The names in the member table of a value, in order. -/
def memberNames (h : Heap) (v : Value) : List String :=
  (h.get v).members.names.mergeSort fun a b => a ≤ b

end Heap
end ScriptVM
