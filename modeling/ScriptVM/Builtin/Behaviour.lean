import ScriptVM.Builtin.Container
import ScriptVM.Builtin.Number
import ScriptVM.Builtin.Text

/-!
# Behaviour by type

The method behind a symbol on the values of a type: what the type knows better, or what all
values have. Every supported symbol has its method.
-/
namespace ScriptVM

/-- What a type adds to the common behaviour or replaces in it. -/
def TypeTag.special? : TypeTag → Symbol → Option Method
  | .none => Builtin.none?
  | .bool => Builtin.bool?
  | .integer => Builtin.integer?
  | .float => Builtin.float?
  | .string => Builtin.string?
  | .bytes => Builtin.bytes?
  | .tuple => Builtin.tuple?
  | .array => Builtin.array?
  | .hash => Builtin.hash?
  | .generator | .iterator => Builtin.iterator?
  | .type => Builtin.type?
  | .function | .module | .error | .object => fun _ => Option.none

/-- The method behind a symbol on the values of a type. -/
def TypeTag.method? (tag : TypeTag) (s : Symbol) : Option Method :=
  (tag.special? s).or (Builtin.common? s)

/-- Every supported symbol has a method. -/
theorem TypeTag.isSome_method? {tag : TypeTag} {s : Symbol} (h : tag.supports s = true) :
    (tag.method? s).isSome = true := by
  revert h
  cases tag <;> cases s <;> decide

end ScriptVM
