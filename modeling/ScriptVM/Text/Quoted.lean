import ScriptVM.Text.CharacterTable

/-!
# Quoted text

A string in source form: double quotes around it, short escapes for the quote, the backslash
and the common controls, and code points for whatever would not be visible by itself. The
single quote is not escaped.

Bytes in source form: printable ASCII stands for itself, both quotes and the backslash are
escaped, and every other byte is two hexadecimal digits.
-/
namespace ScriptVM.Text

/-- The lower-case hexadecimal digits of a number, without leading zeros. -/
def lowerHex (n : Nat) : List Char := Nat.toDigits 16 n

/-- A code point in braces, as quoted text shows invisible characters. -/
def escapeCodePoint (c : Char) : List Char :=
  '\\' :: 'u' :: '\x7b' :: lowerHex c.toNat ++ ['\x7d']

/-- One character inside double quotes. -/
def quoteChar (c : Char) : List Char :=
  if c = '"' then ['\\', '"']
  else if c = '\\' then ['\\', '\\']
  else if c = '\n' then ['\\', 'n']
  else if c = '\r' then ['\\', 'r']
  else if c = '\t' then ['\\', 't']
  else if c.toNat = 0 then ['\\', '0']
  else if ' ' ≤ c ∧ c ≤ '~' then [c]
  else if graphemeExtend.contains c || unprintable.contains c then escapeCodePoint c
  else [c]

/-- A string in source form. -/
def quote (s : String) : String :=
  String.ofList ('"' :: s.toList.flatMap quoteChar ++ ['"'])

/-! ## Bytes -/

/-- Two lower-case hexadecimal digits. -/
def hexByte (b : UInt8) : List Char :=
  let digits := lowerHex b.toNat
  if b.toNat < 16 then '0' :: digits else digits

/-- One byte inside single quotes. -/
def escapeByte (b : UInt8) : List Char :=
  if b = 9 then ['\\', 't']
  else if b = 13 then ['\\', 'r']
  else if b = 10 then ['\\', 'n']
  else if b = 39 ∨ b = 34 ∨ b = 92 then ['\\', Char.ofNat b.toNat]
  else if 32 ≤ b ∧ b ≤ 126 then [Char.ofNat b.toNat]
  else '\\' :: 'x' :: hexByte b

/-- Bytes in source form. -/
def formatBytes (bytes : List UInt8) : String :=
  String.ofList ('b' :: '\x27' :: bytes.flatMap escapeByte ++ ['\x27'])

end ScriptVM.Text
