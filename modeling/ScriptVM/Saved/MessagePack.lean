import ScriptVM.Saved.Tree

/-!
# MessagePack

The binary form of data trees. Every integer, text, list and map is written in the smallest
form that holds it, floats always take eight bytes, and bytes are written as lists of integers.
The reader accepts every form; it stops behind the first tree and ignores what follows.
-/
namespace ScriptVM.MessagePack

/-! ## Writing -/

/-- The low bytes of a number, most significant first. -/
def bigEndian : Nat → Nat → List UInt8
  | 0, _ => []
  | count + 1, n => UInt8.ofNat (n / Nat.pow 256 count) :: bigEndian count n

/-- A marker byte and a number of some width behind it. -/
def marked (marker : UInt8) (width n : Nat) : List UInt8 := marker :: bigEndian width n

/-- A natural number below `2 ^ 64`. -/
def writeNatural (n : Nat) : List UInt8 :=
  if n < 0x80 then [UInt8.ofNat n]
  else if n < 0x100 then marked 0xCC 1 n
  else if n < 0x10000 then marked 0xCD 2 n
  else if n < 0x100000000 then marked 0xCE 4 n
  else marked 0xCF 8 n

/-- A negative number not below `-2 ^ 63`, by its magnitude. -/
def writeNegative (magnitude : Nat) : List UInt8 :=
  if magnitude ≤ 32 then [UInt8.ofNat (0x100 - magnitude)]
  else if magnitude ≤ 0x80 then marked 0xD0 1 (0x100 - magnitude)
  else if magnitude ≤ 0x8000 then marked 0xD1 2 (0x10000 - magnitude)
  else if magnitude ≤ 0x80000000 then marked 0xD2 4 (0x100000000 - magnitude)
  else marked 0xD3 8 (0x10000000000000000 - magnitude)

/-- An integer. -/
def writeInteger (n : Int) : List UInt8 :=
  if 0 ≤ n then writeNatural n.toNat else writeNegative n.natAbs

/-- The head of a text of some length in bytes. -/
def textHead (length : Nat) : List UInt8 :=
  if length < 32 then [UInt8.ofNat (0xA0 + length)]
  else if length < 0x100 then marked 0xD9 1 length
  else if length < 0x10000 then marked 0xDA 2 length
  else marked 0xDB 4 length

/-- A text. -/
def writeText (s : String) : List UInt8 :=
  let content := Text.encodeUtf8 s
  textHead content.length ++ content

/-- The head of a list of some length. -/
def listHead (length : Nat) : List UInt8 :=
  if length < 16 then [UInt8.ofNat (0x90 + length)]
  else if length < 0x10000 then marked 0xDC 2 length
  else marked 0xDD 4 length

/-- The head of a map with some number of entries. -/
def mapHead (length : Nat) : List UInt8 :=
  if length < 16 then [UInt8.ofNat (0x80 + length)]
  else if length < 0x10000 then marked 0xDE 2 length
  else marked 0xDF 4 length

mutual

/-- The bytes of a tree. -/
def write : Tree → List UInt8
  | .null | .opaqueData => [0xC0]
  | .bool value => [if value then 0xC3 else 0xC2]
  | .integer n => writeInteger n
  | .plainNumber n => writeNatural n
  | .float x => marked 0xCB 8 x.bits.toNat
  | .text s => writeText s
  | .malformedText => writeText ""
  | .bytes content => listHead content.length ++ content.flatMap fun b => writeNatural b.toNat
  | .list items => listHead items.length ++ writeItems items
  | .map entries => mapHead entries.length ++ writeEntries entries

/-- The bytes of the items of a list. -/
def writeItems : List Tree → List UInt8
  | [] => []
  | item :: rest => write item ++ writeItems rest

/-- The bytes of the entries of a map. -/
def writeEntries : List (Tree × Tree) → List UInt8
  | [] => []
  | (key, value) :: rest => write key ++ write value ++ writeEntries rest

end

/-! ## Reading -/

/-- A number of some width, and the bytes behind it. -/
def readNatural? : Nat → List UInt8 → Option (Nat × List UInt8)
  | 0, bytes => some (0, bytes)
  | _ + 1, [] => none
  | width + 1, b :: bytes =>
    (readNatural? width bytes).map fun (n, rest) => (b.toNat * Nat.pow 256 width + n, rest)

/-- The signed value of a number of some width in bytes. -/
def signed (width n : Nat) : Int :=
  if n < Nat.pow 256 width / 2 then n else Int.ofNat n - Int.ofNat (Nat.pow 256 width)

/-- Some bytes, and the bytes behind them. -/
def takeBytes? (count : Nat) (bytes : List UInt8) : Option (List UInt8 × List UInt8) :=
  let content := bytes.take count
  if content.length = count then some (content, bytes.drop count) else none

/-- A text of some length. -/
def readText? (length : Nat) (bytes : List UInt8) : Option (Tree × List UInt8) :=
  (takeBytes? length bytes).map fun (content, rest) =>
    (((Text.decodeUtf8? content).map Tree.text).getD .malformedText, rest)

/-- A byte string of some length. -/
def readBytes? (length : Nat) (bytes : List UInt8) : Option (Tree × List UInt8) :=
  (takeBytes? length bytes).map fun (content, rest) => (.bytes content, rest)

/-- An extension of some length, with its type in front. -/
def readExtension? (length : Nat) (bytes : List UInt8) : Option (Tree × List UInt8) :=
  (takeBytes? (length + 1) bytes).map fun (_, rest) => (.opaqueData, rest)

/-- How the bytes behind a marker are to be read. -/
inductive Shape where
  /-- The tree is in the marker. -/
  | inline (t : Tree)
  /-- A number of some width follows. -/
  | number (width : Nat) (value : Nat → Tree)
  /-- A length of some width follows, and then that much content. -/
  | sized (width : Nat) (content : Nat → List UInt8 → Option (Tree × List UInt8))
  /-- Content of a known length follows. -/
  | content (length : Nat) (read : Nat → List UInt8 → Option (Tree × List UInt8))
  /-- The items of a list follow, behind their number if it has a width. -/
  | list (width length : Nat)
  /-- The entries of a map follow, behind their number if it has a width. -/
  | map (width length : Nat)
  /-- The marker starts nothing. -/
  | malformed

/-- The float with the bits of a number. -/
def floatOfBits (n : Nat) : Tree := .float ⟨UInt64.ofNat n⟩

/-- The single-precision float with the bits of a number. -/
def singleOfBits (n : Nat) : Tree :=
  .float (.ofFloat (Float32.ofBits (UInt32.ofNat n)).toFloat)

/-- An integer that is written in a form for signed numbers. -/
def signedTree (n : Int) : Tree := if 0 ≤ n then .plainNumber n.toNat else .integer n

/-- What a marker announces. -/
def shape (marker : UInt8) : Shape :=
  let m := marker.toNat
  let unsigned := fun width => Shape.number width fun n => .integer n
  let signedOf := fun width => Shape.number width fun n => signedTree (signed width n)
  if m < 0x80 then .inline (.integer m)
  else if m < 0x90 then .map 0 (m - 0x80)
  else if m < 0xA0 then .list 0 (m - 0x90)
  else if m < 0xC0 then .content (m - 0xA0) readText?
  else if 0xE0 ≤ m then .inline (.integer (signed 1 m))
  else
    match m with
    | 0xC0 => .inline .null
    | 0xC2 => .inline (.bool false)
    | 0xC3 => .inline (.bool true)
    | 0xC4 => .sized 1 readBytes?
    | 0xC5 => .sized 2 readBytes?
    | 0xC6 => .sized 4 readBytes?
    | 0xC7 => .sized 1 readExtension?
    | 0xC8 => .sized 2 readExtension?
    | 0xC9 => .sized 4 readExtension?
    | 0xCA => .number 4 singleOfBits
    | 0xCB => .number 8 floatOfBits
    | 0xCC => unsigned 1
    | 0xCD => unsigned 2
    | 0xCE => unsigned 4
    | 0xCF => unsigned 8
    | 0xD0 => signedOf 1
    | 0xD1 => signedOf 2
    | 0xD2 => signedOf 4
    | 0xD3 => signedOf 8
    | 0xD4 => .content 1 readExtension?
    | 0xD5 => .content 2 readExtension?
    | 0xD6 => .content 4 readExtension?
    | 0xD7 => .content 8 readExtension?
    | 0xD8 => .content 16 readExtension?
    | 0xD9 => .sized 1 readText?
    | 0xDA => .sized 2 readText?
    | 0xDB => .sized 4 readText?
    | 0xDC => .list 2 0
    | 0xDD => .list 4 0
    | 0xDE => .map 2 0
    | 0xDF => .map 4 0
    | _ => .malformed

/-- Names may be given by position, and a tree has at most 1023 levels, not counting the map
around a tag. -/
def dialect : Dialect := ⟨true, some 1023⟩

/-- How many levels of lists and maps are read: one more than the dialect has room for, as what is
skipped may lie behind one tag. -/
def maxDepth : Nat := 1024

mutual

/-- A tree at the front of the bytes, with at most `depth` levels; `fuel` bounds the reading. -/
def readTree? : Nat → Nat → List UInt8 → Option (Tree × List UInt8)
  | 0, _, _ => none
  | _ + 1, _, [] => none
  | fuel + 1, depth, marker :: bytes =>
    match shape marker with
    | .inline t => some (t, bytes)
    | .number width value =>
      (readNatural? width bytes).map fun (n, rest) => (value n, rest)
    | .sized width content => (readNatural? width bytes).bind fun (n, rest) => content n rest
    | .content length read => read length bytes
    | .list width length =>
      if depth = 0 then none
      else
        (readNatural? width bytes).bind fun (n, rest) =>
          (readItems? fuel (depth - 1) (length + n) rest).map fun (items, rest) =>
            (.list items, rest)
    | .map width length =>
      if depth = 0 then none
      else
        (readNatural? width bytes).bind fun (n, rest) =>
          (readEntries? fuel (depth - 1) (length + n) rest).map fun (entries, rest) =>
            (.map entries, rest)
    | .malformed => none

/-- Some number of items. -/
def readItems? : Nat → Nat → Nat → List UInt8 → Option (List Tree × List UInt8)
  | _, _, 0, bytes => some ([], bytes)
  | 0, _, _ + 1, _ => none
  | fuel + 1, depth, count + 1, bytes => do
    let (item, rest) ← readTree? fuel depth bytes
    let (items, rest) ← readItems? fuel depth count rest
    return (item :: items, rest)

/-- Some number of entries. -/
def readEntries? : Nat → Nat → Nat → List UInt8 → Option (List (Tree × Tree) × List UInt8)
  | _, _, 0, bytes => some ([], bytes)
  | 0, _, _ + 1, _ => none
  | fuel + 1, depth, count + 1, bytes => do
    let (key, rest) ← readTree? fuel depth bytes
    let (value, rest) ← readTree? fuel depth rest
    let (entries, rest) ← readEntries? fuel depth count rest
    return ((key, value) :: entries, rest)

end

/-- The tree at the front of the bytes. -/
def read? (bytes : List UInt8) : Option Tree :=
  (readTree? (2 * bytes.length + 2) maxDepth bytes).map (·.1)

end ScriptVM.MessagePack
