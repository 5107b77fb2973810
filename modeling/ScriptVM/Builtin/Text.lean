import ScriptVM.Builtin.Basic
import ScriptVM.Builtin.Selection
import ScriptVM.Text.FloatSyntax
import ScriptVM.Text.Integer
import ScriptVM.Text.Utf8
import ScriptVM.Text.Whitespace

/-!
# Strings and bytes

Strings are sequences of characters and bytes are sequences of integers. Numbers are read from
strings with white space around them and underscores anywhere inside.
-/
namespace ScriptVM.Builtin

open Run

/-! ## Strings -/

/-- Whether a list of characters occurs in another one, without gaps. -/
def occursIn (needle : List Char) : List Char → Bool
  | [] => needle.isEmpty
  | c :: rest => needle.isPrefixOf (c :: rest) || occursIn needle rest

/-- A text made of characters. -/
def textOfChars (cs : List Char) : Run Value := newString (String.ofList cs)

/-- The characters of a string, each as a string. -/
def characters (this : Value) : Run (List Value) := do
  (← Engine.expectText this).toList.mapM fun c => textOfChars [c]

/-- The characters of a text that is to be read as a number. -/
def numberChars (text : String) : List Char :=
  (Text.trimChars text.toList).filter fun c => c ≠ '_'

/-- Repeats a string. -/
def repeatText (_ : Engine) (this times : Value) : Run Value := do
  let text ← Engine.expectText this
  let times ← Engine.expectInteger times
  textOfChars (← repetition 4 text.toList times)

/-- Joins two strings. -/
def joinTexts (_ : Engine) (this other : Value) : Run Value := do
  let left ← Engine.expectText this
  let right ← Engine.expectText other
  newString (left ++ right)

/-- Whether a string contains another one. -/
def containsText (_ : Engine) (this other : Value) : Run Bool := do
  let haystack ← Engine.expectText this
  let needle ← Engine.expectText other
  return occursIn needle.toList haystack.toList

/-- Whether a string is contained in another one. -/
def isInText (_ : Engine) (this other : Value) : Run Bool := do
  let needle ← Engine.expectText this
  let haystack ← Engine.expectText other
  return occursIn needle.toList haystack.toList

/-- Strings are equal by their text, and to nothing else. -/
def equalTexts (_ : Engine) (this other : Value) : Run Bool := read fun m =>
  match m.heap.text? this, m.heap.text? other with
  | some a, some b => a = b
  | _, _ => false

/-- The character at a position, or the stretch of a string. -/
def indexText (_ : Engine) (this index : Value) : Run Value := do
  let cs := (← Engine.expectText this).toList
  textOfChars ((← select cs.length index).pick cs)

/-- The integer that a string reads as. -/
def textToInteger (_ : Engine) (this : Value) : Run Value := do
  let text ← Engine.expectText this
  match Text.int64? 10 (numberChars text) with
  | some n => newInteger n
  | none => fail (.integerSyntax text)

/-- The float that a string reads as. -/
def textToFloat (_ : Engine) (this : Value) : Run Value := do
  let text ← Engine.expectText this
  match Text.float? (numberChars text) with
  | some x => newFloat x
  | none => fail (.floatSyntax text)

/-- The behaviour of Strings. -/
def string? : Symbol → Option Method
  | .add => some (.unary joinTexts)
  | .mul | .rightMul => some (.unary repeatText)
  | .contains => some (.question false containsText)
  | .rightContains => some (.question false isInText)
  | .hash => some (.rememberedHash fun e this => return e.digests.text (← Engine.expectText this))
  | .index => some (.unary indexText)
  | .iter => some (.nullary fun _ this => do newIterator (← characters this))
  | .copy => some (.nullary fun _ this => do newString (← Engine.expectText this))
  | .toText => some .self
  | .toBool => some (.nullary fun _ this => do newBool (! (← Engine.expectText this).isEmpty))
  | .toInteger => some (.nullary textToInteger)
  | .toFloat => some (.nullary textToFloat)
  | .toArray => some (.nullary fun _ this => do newObject (.array (← characters this)))
  | .toTuple => some (.nullary fun _ this => do newObject (.tuple (← characters this)))
  | s => equality? equalTexts s

/-! ## Bytes -/

/-- The content of a Bytes value, or a failure. -/
def expectBytes (v : Value) : Run (List UInt8) := do
  match ← kindOf v with
  | .bytes content => return content
  | _ => failType v ["Bytes"]

/-- A byte as an integer. -/
def newByteInteger (b : UInt8) : Run Value := newInteger (Int64.ofNat b.toNat)

/-- The bytes of a Bytes value as integers. -/
def byteIntegers (this : Value) : Run (List Value) := do
  (← expectBytes this).mapM newByteInteger

/-- Joins two Bytes values. -/
def joinBytes (_ : Engine) (this other : Value) : Run Value := do
  let left ← expectBytes this
  let right ← expectBytes other
  newObject (.bytes (left ++ right))

/-- Repeats a Bytes value. -/
def repeatBytes (_ : Engine) (this times : Value) : Run Value := do
  let times ← Engine.expectInteger times
  let content ← expectBytes this
  newObject (.bytes (← repetition 1 content times))

/-- Bytes are equal by their content, and to nothing else. -/
def equalBytes (_ : Engine) (this other : Value) : Run Bool := read fun m =>
  match m.heap.bytes? this, m.heap.bytes? other with
  | some a, some b => a = b
  | _, _ => false

/-- The byte at a position, or the stretch of a Bytes value. -/
def indexBytes (_ : Engine) (this index : Value) : Run Value := do
  let content ← expectBytes this
  let selection ← select content.length index
  match selection, selection.pick content with
  | .single _, [b] => newByteInteger b
  | _, stretch => newObject (.bytes stretch)

/-- The behaviour of Bytes. -/
def bytes? : Symbol → Option Method
  | .add => some (.unary joinBytes)
  | .mul => some (.unary repeatBytes)
  | .hash => some (.rememberedHash fun e this => return e.digests.bytes (← expectBytes this))
  | .index => some (.unary indexBytes)
  | .iter => some (.nullary fun _ this => do newIterator (← byteIntegers this))
  | .toText =>
    some (.nullary fun _ this => do newString (Text.decodeUtf8Lossy (← expectBytes this)))
  | .toBool => some (.nullary fun _ this => do newBool (! (← expectBytes this).isEmpty))
  | .toArray => some (.nullary fun _ this => do newObject (.array (← byteIntegers this)))
  | .toTuple => some (.nullary fun _ this => do newObject (.tuple (← byteIntegers this)))
  | s => equality? equalBytes s

end ScriptVM.Builtin
