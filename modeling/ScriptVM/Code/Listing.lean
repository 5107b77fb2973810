import ScriptVM.Code.Cursor
import ScriptVM.Text.Quoted
import ScriptVM.Text.FloatText

/-!
# Listings

The readable form of code: one line per instruction with its offset, its source line, its
mnemonic and its operand. A listing may be colored by the family of each operation.
-/
namespace ScriptVM

/-! ## Columns

Padding of texts and numbers to a column width. Widths count characters; a text that is already
as wide as its column is left as it is. -/

namespace Text

/-- A text followed by blanks up to a width. -/
def padRight (width : Nat) (s : String) : String :=
  s ++ String.ofList (List.replicate (width - s.length) ' ')

/-- A text after copies of a character up to a width. -/
def padLeft (fill : Char) (width : Nat) (s : String) : String :=
  String.ofList (List.replicate (width - s.length) fill) ++ s

/-- A number with leading zeros up to a width. -/
def zeroPadded (width n : Nat) : String := padLeft '0' width (toString n)

/-- A text without the spaces at its end. -/
def dropTrailingSpaces (s : String) : String :=
  String.ofList ((s.toList.reverse.dropWhile fun c => c = ' ').reverse)

end Text

/-! ## Lines -/

/-- The families by which operations are colored. -/
inductive OpFamily where
  | literal | name | control | loopMark | definition | plain
  deriving DecidableEq, Repr

/-- The family of an operation. -/
def Op.family : Op → OpFamily
  | .newString _ | .newBytes _ | .newInteger _ | .newFloat _ | .getTrue | .getFalse | .getNone
  | .newTuple _ | .newArray _ | .newHash _ => .literal
  | .getIdentifier _ | .selectName _ | .assignIdentifier _ | .assignSelector _ | .assignIndex
  | .index | .methodInvocation _ => .name
  | .jump _ | .jumpBack _ | .ifJump _ | .unlessJump _ | .ifJumpBack _ | .unlessJumpBack _
  | .exit _ | .raise => .control
  | .redoMark | .continueMark | .breakMark => .loopMark
  | .loadArguments _ | .newFunction _ | .newLambda _ | .newMethod _ | .newGenerator _
  | .newClass _ | .newInterface _ | .newModule _ => .definition
  | .push | .unary _ | .binary _ | .nop => .plain

/-- A style of terminal text, as the numbers of its escape sequence; `none` is unstyled. -/
abbrev Style := Option String

/-- The style of each family. -/
def OpFamily.style : OpFamily → Style
  | .literal => some "32"
  | .name => some "36"
  | .control => some "33"
  | .loopMark => some "1;31"
  | .definition => some "35"
  | .plain => none

/-- The style of the word that starts an error report. -/
def errorStyle : Style := some "1;31"

/-- The style of the call depth in a trace. -/
def depthStyle : Style := some "2"

/-- A text in a style, when styles are shown at all. -/
def paint (colored : Bool) (style : Style) (s : String) : String :=
  match colored, style with
  | true, some numbers => "\x1b[" ++ numbers ++ "m" ++ s ++ "\x1b[0m"
  | _, _ => s

/-- The name of an operator in listings and saved code. -/
def UnaryOperator.name : UnaryOperator → String
  | .negateBits => "NegateBits"
  | .boolNegate => "BoolNegate"
  | .negative => "Negative"

/-- The name of an operator in listings and saved code. -/
def BinaryOperator.name : BinaryOperator → String
  | .add => "Add"
  | .sub => "Sub"
  | .mul => "Mul"
  | .div => "Div"
  | .floorDiv => "FloorDiv"
  | .mod => "Mod"
  | .pow => "Pow"
  | .bitXor => "BitXor"
  | .bitAnd => "BitAnd"
  | .bitOr => "BitOr"
  | .bitLeft => "BitLeft"
  | .bitRight => "BitRight"
  | .and => "And"
  | .or => "Or"
  | .xor => "Xor"
  | .equals => "Equals"
  | .notEquals => "NotEquals"
  | .greaterThan => "GreaterThan"
  | .lessThan => "LessThan"
  | .greaterThanOrEqual => "GreaterThanOrEqual"
  | .lessThanOrEqual => "LessThanOrEqual"
  | .contains => "Contains"

namespace Instruction

/-- The offset that a jump at `offset` leads to, if it is a machine word. -/
def jumpTarget? (op : Op) (offset distance : Nat) : Option Nat :=
  let next := offset + 1
  if op.goesBack then if distance ≤ next then some (next - distance) else none
  else if next + distance ≤ Text.maxCount then some (next + distance) else none

/-- The operand of an operation at `offset`, as listings show it. -/
def operandText (op : Op) (offset : Nat) : String :=
  match op.operand with
  | .none => ""
  | .integer n => toString n.toInt
  | .float x => Text.formatFloat x
  | .string s => Text.quote s
  | .bytes content => Text.formatBytes content
  | .names names => "(" ++ ", ".intercalate names ++ ")"
  | .count n => toString n
  | .offset n =>
    let target := (jumpTarget? op offset n).elim "?" (Text.zeroPadded 4)
    Text.padRight 5 (toString n) ++ " (-> " ++ target ++ ")"
  | .unary operator => operator.name
  | .binary operator => operator.name
  | .function info =>
    info.name.getD "<lambda>" ++ "/" ++ toString info.arity ++
      " (body " ++ toString info.bodyLength ++ ")"
  | .classInfo info =>
    info.name ++ " (bases " ++ toString info.baseCount ++
      ", body " ++ toString info.bodyLength ++ ")"
  | .generator info =>
    "receivers " ++ toString info.receiverCount ++
      " (body " ++ toString info.operationLength ++ ")"

/-- The column of the source line. -/
def lineColumn (line : Option Nat) : String :=
  match line with
  | some n => Text.padLeft ' ' 4 (toString n)
  | none => "   -"

/-- One line of a listing from its columns. -/
def assemble (offset : Nat) (line name operand : String) : String :=
  Text.dropTrailingSpaces
    (Text.zeroPadded 4 offset ++ " " ++ line ++ " " ++ name ++ " " ++ operand)

/-- One instruction by itself. The mnemonic is padded before it is colored. -/
def format (colored : Bool) (offset : Nat) (i : Instruction) : String :=
  assemble offset (lineColumn i.line)
    (paint colored i.op.family.style (Text.padRight 20 i.op.mnemonic))
    (operandText i.op offset)

/-- One instruction in a listing, after an instruction of line `previous`. A repeated line is
shown by a bar. The mnemonic is colored before it is padded. -/
def formatAfter (colored : Bool) (previous : Option Nat) (offset : Nat) (i : Instruction) :
    String :=
  let line :=
    if 0 < offset && i.line.isSome && previous == i.line then "   |" else lineColumn i.line
  assemble offset line (Text.padRight 20 (paint colored i.op.family.style i.op.mnemonic))
    (operandText i.op offset)

end Instruction

/-- The lines of a listing from an offset on, after an instruction of line `previous`. -/
def listingFrom (colored : Bool) (previous : Option Nat) (offset : Nat) :
    List Instruction → List String
  | [] => []
  | i :: rest =>
    i.formatAfter colored previous offset :: listingFrom colored i.line (offset + 1) rest

/-- The lines of the listing of a view. -/
def View.listing (colored : Bool) (v : View) : List String :=
  listingFrom colored none 0 v.instructions

/-- The listing of a view as one text, every line ended. -/
def View.listingText (colored : Bool) (v : View) : String :=
  String.join ((v.listing colored).map fun line => line ++ "\n")

end ScriptVM
