import ScriptVM.Text.FloatSyntax

/-!
# Number literals

The values of number literals. Underscores may stand anywhere and mean nothing. An integer is
decimal, or hexadecimal, binary or octal behind `0x`, `0b` or `0o` in either case, and is never
signed. A float has digits, a point and an exponent, and is never a word.
-/
namespace ScriptVM

/-- A literal without its underscores. -/
def withoutUnderscores (text : String) : List Char := text.toList.filter fun c => c ≠ '_'

/-- The radix that a literal in lower case announces, and its digits. -/
def splitRadix : List Char → Nat × List Char
  | '0' :: 'x' :: digits => (16, digits)
  | '0' :: 'b' :: digits => (2, digits)
  | '0' :: 'o' :: digits => (8, digits)
  | digits => (10, digits)

/-- The value of an integer literal. -/
def integerLiteral? (text : String) : Option Int64 :=
  let (radix, digits) := splitRadix (Text.lowerAscii (withoutUnderscores text))
  (Text.natural? radix digits).bind fun n => Text.int64OfInt? n

/-- Whether a character may occur in a float literal. -/
def isFloatChar (c : Char) : Bool :=
  c.isDigit || c = '.' || c = 'e' || c = 'E' || c = '+' || c = '-'

/-- The value of a float literal. -/
def floatLiteral? (text : String) : Option Float :=
  let digits := withoutUnderscores text
  if digits.any Char.isDigit && digits.all isFloatChar then Text.float? digits else none

end ScriptVM
