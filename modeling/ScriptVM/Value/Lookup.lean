import ScriptVM.Value.Object

/-!
# Looking things up on values

A name is looked up among the members of a value first and then among the behaviours of its
type. Behaviour that was found is noted in the member table; scopes and own lookups pass over
such notes, so a note never hides anything. Methods and behaviours come back bound to the value.
-/
namespace ScriptVM

namespace Symbol

/-- The behaviours of every value. -/
def isCommon : Symbol → Bool
  | .initializer | .equals | .rightEquals | .notEquals | .rightNotEquals | .hash | .toBool
  | .toText | .negate | .and | .rightAnd | .or | .rightOr | .xor | .rightXor | .classOf
  | .copy => true
  | _ => false

/-- The behaviours that integers and floats have beyond the common ones. -/
def isNumeric : Symbol → Bool
  | .add | .rightAdd | .sub | .rightSub | .mul | .rightMul | .div | .rightDiv | .floorDiv
  | .rightFloorDiv | .mod | .rightMod | .pow | .rightPow | .greaterThan | .rightGreaterThan
  | .lessThan | .rightLessThan | .greaterThanOrEqual | .rightGreaterThanOrEqual
  | .lessThanOrEqual | .rightLessThanOrEqual | .negative | .toInteger | .toFloat => true
  | _ => false

/-- The behaviours that work on the bits of an integer. -/
def isBitwise : Symbol → Bool
  | .bitXor | .rightBitXor | .bitAnd | .rightBitAnd | .bitOr | .rightBitOr | .bitLeft
  | .rightBitLeft | .bitRight | .rightBitRight | .negBits => true
  | _ => false

/-- The behaviours of strings beyond the common ones. -/
def isTextual : Symbol → Bool
  | .add | .mul | .rightMul | .contains | .rightContains | .index | .iter | .toInteger
  | .toFloat | .toArray | .toTuple => true
  | _ => false

/-- The behaviours of bytes beyond the common ones. -/
def isBinary : Symbol → Bool
  | .add | .mul | .index | .iter | .toArray | .toTuple => true
  | _ => false

/-- The behaviours of tuples and arrays beyond the common ones. -/
def isSequential : Symbol → Bool
  | .add | .mul | .contains | .index | .iter | .toArray | .toTuple => true
  | _ => false

/-- The behaviours of hashes beyond the common ones. -/
def isKeyed : Symbol → Bool
  | .index | .assign | .contains | .iter => true
  | _ => false

/-- The behaviours of iterators and generators beyond the common ones. -/
def isIterating : Symbol → Bool
  | .hasNext | .next | .iter | .toArray | .toTuple => true
  | _ => false

end Symbol

/-- Whether the values of a type have the behaviour behind a symbol. Arrays and hashes change, so
they are not hashed. -/
def TypeTag.supports (tag : TypeTag) (s : Symbol) : Bool :=
  match tag with
  | .none | .function | .module | .error | .object => s.isCommon
  | .bool => s.isCommon || s = .toInteger || s = .toFloat
  | .integer => s.isCommon || s.isNumeric || s.isBitwise
  | .float => s.isCommon || s.isNumeric
  | .string => s.isCommon || s.isTextual
  | .bytes => s.isCommon || s.isBinary
  | .tuple => s.isCommon || s.isSequential
  | .array => s ≠ .hash && (s.isCommon || s.isSequential || s = .assign)
  | .hash => s ≠ .hash && (s.isCommon || s.isKeyed)
  | .generator | .iterator => s.isCommon || s.isIterating
  | .type => s.isCommon || s = .subClasses

/-- The behaviour of a type under a name. -/
def TypeTag.symbol? (tag : TypeTag) (name : String) : Option Symbol :=
  (Symbol.ofName? name).filter tag.supports

namespace Heap

/-- What a name means on a value. Behaviour of the type is noted in the member table. -/
def find (h : Heap) (v : Value) (name : String) : Option Member × Heap :=
  match (h.get v).members.get? name with
  | some m => (some m, h)
  | none =>
    match (h.tag v).symbol? name with
    | some s => (some (.builtin s), h.setMember v name (.builtin s))
    | none => (none, h)

/-- A member as a value: methods and behaviours become functions bound to their owner. -/
def bind (h : Heap) (owner : Value) : Member → Value × Heap
  | .value v => (v, h)
  | .method f => h.alloc (.function ⟨.code f, some owner⟩)
  | .builtin s => h.alloc (.function ⟨.builtin s, some owner⟩)

/-- The value that a name has on a value, if any. -/
def lookup (h : Heap) (v : Value) (name : String) : Option Value × Heap :=
  match h.find v name with
  | (some m, h) => ((h.bind v m).map some id)
  | (none, h) => (none, h)

/-- The member of a value under a name; notes of behaviour are passed over. -/
def own? (h : Heap) (v : Value) (name : String) : Option Member :=
  match (h.get v).members.get? name with
  | some (.builtin _) | none => none
  | some m => some m

/-- Whether a name means anything on a value. -/
def has (h : Heap) (v : Value) (name : String) : Bool :=
  (h.get v).members.contains name || ((h.tag v).symbol? name).isSome

/-- Gives a value a member. -/
def setValue (h : Heap) (v : Value) (name : String) (value : Value) : Heap :=
  h.setMember v name (.value value)

end Heap
end ScriptVM
