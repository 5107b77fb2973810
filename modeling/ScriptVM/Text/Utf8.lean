/-!
# UTF-8

Encoding, strict decoding and decoding that replaces what is malformed. A malformed sequence is
cut after its longest beginning that could still have been completed, and each such piece
becomes one replacement character.
-/
namespace ScriptVM.Text

/-- The UTF-8 bytes of a text. -/
def encodeUtf8 (s : String) : List UInt8 := s.toUTF8.toList

/-- How many bytes follow a leading byte, the range in which the first of them must lie, and
the bits that the leading byte contributes. -/
structure Utf8Lead where
  following : Nat
  low : Nat
  high : Nat
  bits : Nat
  deriving DecidableEq, Repr

/-- The shape of the sequence that a byte starts; `none` for a byte that starts none. -/
def utf8Lead? (b : UInt8) : Option Utf8Lead :=
  let n := b.toNat
  if n < 0x80 then some ⟨0, 0, 0, n⟩
  else if n < 0xC2 then none
  else if n < 0xE0 then some ⟨1, 0x80, 0xBF, n - 0xC0⟩
  else if n = 0xE0 then some ⟨2, 0xA0, 0xBF, 0⟩
  else if n = 0xED then some ⟨2, 0x80, 0x9F, 0xD⟩
  else if n < 0xF0 then some ⟨2, 0x80, 0xBF, n - 0xE0⟩
  else if n = 0xF0 then some ⟨3, 0x90, 0xBF, 0⟩
  else if n < 0xF4 then some ⟨3, 0x80, 0xBF, n - 0xF0⟩
  else if n = 0xF4 then some ⟨3, 0x80, 0x8F, 4⟩
  else none

/-- What a prefix of the bytes stands for: one character, or a malformed piece. -/
inductive Utf8Piece where
  | char (c : Char)
  | malformed
  deriving DecidableEq, Repr

/-- Reads `following` continuation bytes, the first of which lies between `low` and `high`. -/
def utf8Rest : Nat → Nat → Nat → Nat → List UInt8 → Utf8Piece × List UInt8
  | 0, _, _, code, bytes => (.char (Char.ofNat code), bytes)
  | _ + 1, _, _, _, [] => (.malformed, [])
  | following + 1, low, high, code, b :: bytes =>
    if low ≤ b.toNat ∧ b.toNat ≤ high then
      utf8Rest following 0x80 0xBF (code * 64 + (b.toNat - 0x80)) bytes
    else (.malformed, b :: bytes)

/-- The piece that starts with a byte, and the bytes after it. -/
def utf8Piece (b : UInt8) (bytes : List UInt8) : Utf8Piece × List UInt8 :=
  match utf8Lead? b with
  | some lead => utf8Rest lead.following lead.low lead.high lead.bits bytes
  | none => (.malformed, bytes)

theorem length_utf8Rest_le (following low high code : Nat) (bytes : List UInt8) :
    (utf8Rest following low high code bytes).2.length ≤ bytes.length := by
  induction following generalizing low high code bytes with
  | zero => simp [utf8Rest]
  | succ n ih =>
    cases bytes with
    | nil => simp [utf8Rest]
    | cons b bytes =>
      simp only [utf8Rest]
      split
      · exact Nat.le_succ_of_le (ih ..)
      · exact Nat.le_refl _

theorem length_utf8Piece_le (b : UInt8) (bytes : List UInt8) :
    (utf8Piece b bytes).2.length ≤ bytes.length := by
  unfold utf8Piece
  split
  · exact length_utf8Rest_le ..
  · exact Nat.le_refl _

/-- The pieces of a byte sequence, in order. -/
def utf8Pieces : List UInt8 → List Utf8Piece
  | [] => []
  | b :: bytes =>
    (utf8Piece b bytes).1 :: utf8Pieces (utf8Piece b bytes).2
termination_by bytes => bytes.length
decreasing_by exact Nat.lt_succ_of_le (length_utf8Piece_le b bytes)

/-- The character shown for a piece. -/
def Utf8Piece.shown : Utf8Piece → Char
  | .char c => c
  | .malformed => Char.ofNat 0xFFFD

/-- The text of bytes, with every malformed piece replaced. -/
def decodeUtf8Lossy (bytes : List UInt8) : String :=
  String.ofList ((utf8Pieces bytes).map Utf8Piece.shown)

/-- The character of a piece, if the piece is well-formed. -/
def Utf8Piece.char? : Utf8Piece → Option Char
  | .char c => some c
  | .malformed => none

/-- The text of well-formed bytes. -/
def decodeUtf8? (bytes : List UInt8) : Option String :=
  ((utf8Pieces bytes).mapM Utf8Piece.char?).map String.ofList

end ScriptVM.Text
