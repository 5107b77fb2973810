import ScriptVM.Saved.Tree
import ScriptVM.Text.FloatText
import ScriptVM.Text.Quoted
import ScriptVM.Text.FloatSyntax

/-!
# JSON

The text form of data trees: a printer with one item to a line and two spaces to a level, and a
reader of the whole grammar. Numbers without fraction and exponent are integers when they fit a
machine word. Other numbers are computed from the first digits that fit a word by one
multiplication or division with a power of ten, so the last bit of a long one may differ from
the nearest float.
-/
namespace ScriptVM.Json

/-! ## Printing -/

/-- One character of a string. -/
def escapeChar (c : Char) : List Char :=
  if c = '"' then ['\\', '"']
  else if c = '\\' then ['\\', '\\']
  else if c.toNat = 8 then ['\\', 'b']
  else if c.toNat = 12 then ['\\', 'f']
  else if c = '\n' then ['\\', 'n']
  else if c = '\r' then ['\\', 'r']
  else if c = '\t' then ['\\', 't']
  else if c.toNat < 32 then
    ['\\', 'u', '0', '0', Nat.digitChar (c.toNat / 16), Nat.digitChar (c.toNat % 16)]
  else [c]

/-- A string in quotes. -/
def printString (s : String) : List Char := '"' :: s.toList.flatMap escapeChar ++ ['"']

/-- Floats are laid out as in listings, but a positive exponent has a plus sign. -/
def floatLayout : Text.FloatLayout := { Text.floatLayout with plusSign := true }

/-- A float; what JSON has no number for is null. -/
def printFloat (x : Float) : List Char :=
  if x.isFinite then (Text.formatFloatIn floatLayout x).toList else "null".toList

/-- The start of a line at a level. -/
def newLine (level : Nat) : List Char := '\n' :: List.replicate (2 * level) ' '

/-- The key of a map entry; only texts are keys. -/
def printKey : Tree → List Char
  | .text s => printString s
  | _ => printString ""

mutual

/-- A tree whose lines after the first stand at a level. -/
def printTree (level : Nat) : Tree → List Char
  | .null | .opaqueData => "null".toList
  | .bool value => (if value then "true" else "false").toList
  | .integer n => (toString n).toList
  | .plainNumber n => (toString n).toList
  | .float x => printFloat x.value
  | .text s => printString s
  | .malformedText => printString ""
  | .bytes content => (toString (content.map UInt8.toNat)).toList
  | .list [] => ['[', ']']
  | .list (first :: rest) =>
    '[' :: newLine (level + 1) ++ printTree (level + 1) first ++
      printItems (level + 1) rest ++ newLine level ++ [']']
  | .map [] => ['\x7b', '\x7d']
  | .map ((key, value) :: rest) =>
    '\x7b' :: newLine (level + 1) ++ printKey key ++ ':' :: ' ' :: printTree (level + 1) value ++
      printEntries (level + 1) rest ++ newLine level ++ ['\x7d']

/-- The items of a list after the first. -/
def printItems (level : Nat) : List Tree → List Char
  | [] => []
  | item :: rest => ',' :: newLine level ++ printTree level item ++ printItems level rest

/-- The entries of a map after the first. -/
def printEntries (level : Nat) : List (Tree × Tree) → List Char
  | [] => []
  | (key, value) :: rest =>
    ',' :: newLine level ++ printKey key ++ ':' :: ' ' :: printTree level value ++
      printEntries level rest

end

/-- The text of a tree. -/
def print (t : Tree) : String := String.ofList (printTree 0 t)

/-! ## Reading numbers -/

/-- Ten to a power, for the powers that a float reaches. -/
def powerOfTen (n : Nat) : Float := Float.ofScientific 1 false n

/-- A significand times a power of ten. `none` when the result is too large. -/
def scale? : Nat → Float → Int → Option Float
  | 0, x, _ => some x
  | rounds + 1, x, exponent =>
    if exponent.natAbs ≤ 308 then
      if 0 ≤ exponent then
        let y := x * powerOfTen exponent.toNat
        if y.isInf then none else some y
      else some (x / powerOfTen exponent.natAbs)
    else if x == 0.0 then some x
    else if 0 ≤ exponent then none
    else scale? rounds (x / 1e308) (exponent + 308)

/-- The digits of a number that fit a machine word, and the power of ten still to apply. -/
structure Significand where
  digits : Nat
  exponent : Int

/-- Appends a digit, if the result fits a machine word. -/
def Significand.push? (s : Significand) (c : Char) : Option Nat :=
  let digits := s.digits * 10 + (c.toNat - '0'.toNat)
  if digits ≤ Text.maxCount then some digits else none

/-- The digits before the point. Once one does not fit, it and all later ones only count. -/
def Significand.whole (s : Significand) : List Char → Significand
  | [] => s
  | c :: rest =>
    match s.push? c with
    | some digits => Significand.whole ⟨digits, s.exponent⟩ rest
    | none => ⟨s.digits, s.exponent + 1 + rest.length⟩

/-- The digits after the point. Once one does not fit, it and all later ones are dropped. -/
def Significand.fraction (s : Significand) : List Char → Significand
  | [] => s
  | c :: rest =>
    match s.push? c with
    | some digits => Significand.fraction ⟨digits, s.exponent - 1⟩ rest
    | none => s

/-- The float of a number in its written parts. `none` when it is too large. -/
def floatOfParts? (negative : Bool) (whole fraction : List Char) (exponent : Int) :
    Option Float :=
  let s := ((Significand.whole ⟨0, 0⟩ whole).fraction fraction)
  let magnitude :=
    if 0x80000000 ≤ exponent && s.digits ≠ 0 then none
    else if 0x80000000 ≤ exponent.natAbs then some 0.0
    else scale? 16 s.digits.toUInt64.toFloat (s.exponent + exponent)
  magnitude.map fun x => if negative then -x else x

/-- The tree of a number in its written parts. -/
def floatTree? (negative : Bool) (whole fraction : List Char) (exponent : Int) : Option Tree :=
  (floatOfParts? negative whole fraction exponent).map fun x => .float (.ofFloat x)

/-- A number without fraction and exponent. One that fits no machine word is a float, and so is
a negative zero. -/
def wholeNumber? (negative : Bool) (digits : List Char) : Option Tree :=
  let n := Text.digitsValue digits
  if negative then
    if 0 < n ∧ n ≤ 0x8000000000000000 then some (.integer (-Int.ofNat n))
    else floatTree? negative digits [] 0
  else if n ≤ Text.maxCount then some (.integer n)
  else floatTree? negative digits [] 0

/-- The digits after the point of a number, if there is a point. -/
def readFraction? : List Char → Option (Option (List Char) × List Char)
  | '.' :: cs =>
    match Text.spanDigits cs with
    | ([], _) => none
    | (digits, rest) => some (some digits, rest)
  | cs => some (none, cs)

/-- The exponent of a number, if there is one. -/
def readExponent? : List Char → Option (Option Int × List Char)
  | c :: cs =>
    if c = 'e' ∨ c = 'E' then
      let (negative, cs) :=
        match cs with
        | '-' :: cs => (true, cs)
        | '+' :: cs => (false, cs)
        | cs => (false, cs)
      match Text.spanDigits cs with
      | ([], _) => none
      | (digits, rest) =>
        let n := Int.ofNat (Text.digitsValue digits)
        some (some (if negative then -n else n), rest)
    else some (none, c :: cs)
  | [] => some (none, [])

/-- A number at the front of a text. One that is too large is well-formed but stands for
nothing. -/
def readNumber? (cs : List Char) : Option (Tree × List Char) := do
  let (negative, cs) :=
    match cs with
    | '-' :: cs => (true, cs)
    | cs => (false, cs)
  let (whole, cs) := Text.spanDigits cs
  if whole.isEmpty || (whole.head? = some '0' && 1 < whole.length) then none
  else
    let (fraction, cs) ← readFraction? cs
    let (exponent, cs) ← readExponent? cs
    let value :=
      match fraction, exponent with
      | none, none => wholeNumber? negative whole
      | fraction, exponent => floatTree? negative whole (fraction.getD []) (exponent.getD 0)
    return (value.getD .opaqueData, cs)

/-! ## Reading strings -/

/-- One piece of a string: a character, or half of a surrogate pair. -/
inductive StringPiece where
  | char (c : Char)
  | half (code : Nat)

/-- The character that a single character behind a backslash stands for. -/
def escaped? : Char → Option Char
  | '"' => some '"'
  | '\\' => some '\\'
  | '/' => some '/'
  | 'b' => some '\x08'
  | 'f' => some '\x0c'
  | 'n' => some '\n'
  | 'r' => some '\r'
  | 't' => some '\t'
  | _ => none

/-- The piece that four hexadecimal digits stand for. -/
def hexPiece? (digits : List Char) : Option StringPiece :=
  (Text.natural? 16 digits).map fun n =>
    if 0xD800 ≤ n ∧ n < 0xE000 then .half n else .char (Char.ofNat n)

/-- Puts a piece in front of those that were read behind it. -/
def addPiece? (piece : Option StringPiece) (behind : Option (List StringPiece × List Char)) :
    Option (List StringPiece × List Char) := do
  let piece ← piece
  let (pieces, rest) ← behind
  return (piece :: pieces, rest)

/-- The pieces of a string up to its closing quote. -/
def readPieces? : List Char → Option (List StringPiece × List Char)
  | [] => none
  | c :: cs =>
    if c = '"' then some ([], cs)
    else if c = '\\' then
      match cs with
      | 'u' :: a :: b :: c :: d :: rest => addPiece? (hexPiece? [a, b, c, d]) (readPieces? rest)
      | e :: rest => addPiece? ((escaped? e).map .char) (readPieces? rest)
      | [] => none
    else if c.toNat < 32 then none
    else addPiece? (some (.char c)) (readPieces? cs)

/-- The text of pieces; `none` when a half has no partner. -/
def joinPieces? : List StringPiece → Option (List Char)
  | [] => some []
  | .char c :: rest => (joinPieces? rest).map (c :: ·)
  | .half high :: .half low :: rest =>
    if high < 0xDC00 ∧ 0xDC00 ≤ low then
      (joinPieces? rest).map (Char.ofNat (0x10000 + (high - 0xD800) * 0x400 + (low - 0xDC00)) :: ·)
    else none
  | .half _ :: _ => none

/-- A string behind its opening quote. One with a lone half is well-formed but stands for
nothing. -/
def readString? (cs : List Char) : Option (Tree × List Char) :=
  (readPieces? cs).map fun (pieces, rest) =>
    (((joinPieces? pieces).map fun text => Tree.text (String.ofList text)).getD .opaqueData, rest)

/-! ## Reading trees -/

/-- Names are given by their texts alone, and what is skipped may be as deep as it likes. -/
def dialect : Dialect := ⟨false, none⟩

/-- The blanks between tokens. -/
def isSpace (c : Char) : Bool := c = ' ' || c = '\n' || c = '\t' || c = '\r'

/-- A text without blanks in front. -/
def skipSpace (cs : List Char) : List Char := cs.dropWhile isSpace

/-- What is left of a text behind a word it starts with. -/
def dropWord? (word : String) (cs : List Char) : Option (List Char) :=
  if word.toList.isPrefixOf cs then some (cs.drop word.length) else none

mutual

/-- A tree at the front of a text without blanks in front. -/
def readTree? : Nat → List Char → Option (Tree × List Char)
  | 0, _ => none
  | _ + 1, [] => none
  | fuel + 1, c :: cs =>
    if c = '"' then readString? cs
    else if c = '[' then
      match skipSpace cs with
      | ']' :: rest => some (.list [], rest)
      | rest => (readItems? fuel rest).map fun (items, rest) => (.list items, rest)
    else if c = '\x7b' then
      match skipSpace cs with
      | '\x7d' :: rest => some (.map [], rest)
      | rest => (readEntries? fuel rest).map fun (entries, rest) => (.map entries, rest)
    else if c = 'n' then (dropWord? "ull" cs).map fun rest => (.null, rest)
    else if c = 't' then (dropWord? "rue" cs).map fun rest => (.bool true, rest)
    else if c = 'f' then (dropWord? "alse" cs).map fun rest => (.bool false, rest)
    else readNumber? (c :: cs)

/-- The items of a list up to its closing bracket. -/
def readItems? : Nat → List Char → Option (List Tree × List Char)
  | 0, _ => none
  | fuel + 1, cs => do
    let (item, rest) ← readTree? fuel cs
    match skipSpace rest with
    | ',' :: rest =>
      (readItems? fuel (skipSpace rest)).map fun (items, rest) => (item :: items, rest)
    | ']' :: rest => some ([item], rest)
    | _ => none

/-- The entries of a map up to its closing bracket. -/
def readEntries? : Nat → List Char → Option (List (Tree × Tree) × List Char)
  | 0, _ => none
  | fuel + 1, cs =>
    match cs with
    | '"' :: cs => do
      let (key, rest) ← readString? cs
      match skipSpace rest with
      | ':' :: rest => do
        let (value, rest) ← readTree? fuel (skipSpace rest)
        match skipSpace rest with
        | ',' :: rest =>
          (readEntries? fuel (skipSpace rest)).map fun (entries, rest) =>
            ((key, value) :: entries, rest)
        | '\x7d' :: rest => some ([(key, value)], rest)
        | _ => none
      | _ => none
    | _ => none

end

/-- The tree of a text that holds one tree and nothing else but blanks. -/
def read? (s : String) : Option Tree := do
  let cs := s.toList
  let (t, rest) ← readTree? (2 * cs.length + 2) (skipSpace cs)
  if (skipSpace rest).isEmpty then some t else none

end ScriptVM.Json
