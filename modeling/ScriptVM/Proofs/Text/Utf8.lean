import Mathlib.Data.List.Forall2
import Mathlib.Tactic.SplitIfs
import ScriptVM.Text.Utf8

/-!
# UTF-8

Decoding gives back every text that was encoded. The pieces of an encoding are the characters of the
text, one by one, because the bytes of a character are read as that character whatever follows them.

The bytes of texts are the well-formed sequences: no surrogate is encoded, no character in more
bytes than it needs, and none is cut short. Decoding with replacements inverts encoding on exactly
these.

## Main definitions

* `utf8Rows` — the ranges in which the bytes of a character lie.
* `IsUtf8` — bytes are those of some characters, one after the other.

## Main results

* `decodeUtf8?_encodeUtf8`, `decodeUtf8Lossy_encodeUtf8` — decoding gives back what was encoded.
* `isUtf8_iff` — well-formed bytes are those that encode a text.
* `encodeUtf8_decodeUtf8Lossy_iff` — encoding gives back exactly the well-formed bytes.
-/
namespace ScriptVM.Text

/-! ## Encoding -/

theorem toList_loop (bytes : ByteArray) (i : Nat) (done : List UInt8) :
    ByteArray.toList.loop bytes i done = done.reverse ++ bytes.data.toList.drop i := by
  fun_induction ByteArray.toList.loop bytes i done with
  | case1 i done h ih =>
    have hi : i < bytes.data.toList.length := by simpa using h
    have hget : bytes.get! i = bytes.data.toList[i] := by
      cases bytes
      exact getElem!_pos _ i h
    rw [ih, List.drop_eq_getElem_cons hi, hget]
    simp
  | case2 i done h =>
    have hi : bytes.data.toList.length ≤ i := by simpa using h
    simp [List.drop_eq_nil_of_le hi]

/-- The bytes of a text are the bytes of its characters. -/
theorem encodeUtf8_eq (s : String) : encodeUtf8 s = s.toList.flatMap String.utf8EncodeChar := by
  rw [encodeUtf8, String.toUTF8_eq_toByteArray, ← String.utf8Encode_toList, ByteArray.toList,
    toList_loop, List.utf8Encode, List.toList_data_toByteArray]
  rfl

theorem length_encodeUtf8 (s : String) : (encodeUtf8 s).length = s.utf8ByteSize := by
  rw [encodeUtf8, String.toUTF8_eq_toByteArray, ByteArray.toList, toList_loop]
  simp [← String.size_toByteArray]

/-! ## Reading one character -/

section piece

variable {n low high code following : Nat} {c : Char} {rest : List UInt8}

theorem utf8Rest_zero (h : code = c.toNat) :
    utf8Rest 0 low high code rest = (.char c, rest) := by
  rw [utf8Rest, h, Char.ofNat_toNat]

/-- A continuation byte adds its six bits. -/
theorem utf8Rest_succ (hlow : low ≤ n) (hhigh : n ≤ high) (hn : n < 256) :
    utf8Rest (following + 1) low high code (UInt8.ofNat n :: rest) =
      utf8Rest following 0x80 0xBF (code * 64 + (n - 0x80)) rest := by
  have hbyte : (UInt8.ofNat n).toNat = n := UInt8.toNat_ofNat_of_lt' hn
  rw [utf8Rest, hbyte, if_pos ⟨hlow, hhigh⟩]

theorem utf8Piece_ofNat (following low high bits : Nat)
    (hlead : utf8Lead? (UInt8.ofNat n) = some ⟨following, low, high, bits⟩) :
    utf8Piece (UInt8.ofNat n) rest = utf8Rest following low high bits rest := by
  rw [utf8Piece, hlead]

/-- What a byte leads, by its number. -/
theorem utf8Lead?_ofNat (hn : n < 256) :
    utf8Lead? (UInt8.ofNat n) =
      if n < 0x80 then some ⟨0, 0, 0, n⟩
      else if n < 0xC2 then none
      else if n < 0xE0 then some ⟨1, 0x80, 0xBF, n - 0xC0⟩
      else if n = 0xE0 then some ⟨2, 0xA0, 0xBF, 0⟩
      else if n = 0xED then some ⟨2, 0x80, 0x9F, 0xD⟩
      else if n < 0xF0 then some ⟨2, 0x80, 0xBF, n - 0xE0⟩
      else if n = 0xF0 then some ⟨3, 0x90, 0xBF, 0⟩
      else if n < 0xF4 then some ⟨3, 0x80, 0xBF, n - 0xF0⟩
      else if n = 0xF4 then some ⟨3, 0x80, 0x8F, 4⟩
      else none := by
  have hbyte : (UInt8.ofNat n).toNat = n := UInt8.toNat_ofNat_of_lt' hn
  simp only [utf8Lead?, hbyte]

/-- A character of one byte. -/
theorem utf8Piece_one (hc : c.toNat ≤ 0x7F) :
    utf8Piece (UInt8.ofNat c.toNat) rest = (.char c, rest) := by
  rw [utf8Piece_ofNat 0 0 0 c.toNat]
  · exact utf8Rest_zero rfl
  · rw [utf8Lead?_ofNat (by omega), if_pos (by omega)]

/-- A character of two bytes. -/
theorem utf8Piece_two (hlow : 0x7F < c.toNat) (hhigh : c.toNat ≤ 0x7FF) :
    utf8Piece (UInt8.ofNat (c.toNat / 64 % 0x20 + 0xC0))
      (UInt8.ofNat (c.toNat % 64 + 0x80) :: rest) = (.char c, rest) := by
  rw [utf8Piece_ofNat 1 0x80 0xBF (c.toNat / 64)]
  · rw [utf8Rest_succ (by omega) (by omega) (by omega)]
    exact utf8Rest_zero (by omega)
  · rw [utf8Lead?_ofNat (by omega)]
    grind

/-- A character of three bytes. Those of the surrogates are no characters. -/
theorem utf8Piece_three (hlow : 0x7FF < c.toNat) (hhigh : c.toNat ≤ 0xFFFF) :
    utf8Piece (UInt8.ofNat (c.toNat / 4096 % 0x10 + 0xE0))
      (UInt8.ofNat (c.toNat / 64 % 64 + 0x80) :: UInt8.ofNat (c.toNat % 64 + 0x80) :: rest) =
        (.char c, rest) := by
  have hvalid : c.toNat < 0xD800 ∨ 0xDFFF < c.toNat ∧ c.toNat < 0x110000 := c.valid
  rw [utf8Piece_ofNat 2 (if c.toNat / 4096 = 0 then 0xA0 else 0x80)
    (if c.toNat / 4096 = 0xD then 0x9F else 0xBF) (c.toNat / 4096)]
  · rw [utf8Rest_succ (by split <;> omega) (by split <;> omega) (by omega),
      utf8Rest_succ (by omega) (by omega) (by omega)]
    exact utf8Rest_zero (by omega)
  · rw [utf8Lead?_ofNat (by omega)]
    grind

/-- A character of four bytes. -/
theorem utf8Piece_four (hlow : 0xFFFF < c.toNat) :
    utf8Piece (UInt8.ofNat (c.toNat / 262144 % 0x08 + 0xF0))
      (UInt8.ofNat (c.toNat / 4096 % 64 + 0x80) :: UInt8.ofNat (c.toNat / 64 % 64 + 0x80) ::
        UInt8.ofNat (c.toNat % 64 + 0x80) :: rest) = (.char c, rest) := by
  have hvalid : c.toNat < 0xD800 ∨ 0xDFFF < c.toNat ∧ c.toNat < 0x110000 := c.valid
  rw [utf8Piece_ofNat 3 (if c.toNat / 262144 = 0 then 0x90 else 0x80)
    (if c.toNat / 262144 = 4 then 0x8F else 0xBF) (c.toNat / 262144)]
  · rw [utf8Rest_succ (by split <;> omega) (by split <;> omega) (by omega),
      utf8Rest_succ (by omega) (by omega) (by omega),
      utf8Rest_succ (by omega) (by omega) (by omega)]
    exact utf8Rest_zero (by omega)
  · rw [utf8Lead?_ofNat (by omega)]
    grind

end piece

/-- The bytes of a character are read as that character. -/
theorem utf8Pieces_utf8EncodeChar (c : Char) (rest : List UInt8) :
    utf8Pieces (String.utf8EncodeChar c ++ rest) = .char c :: utf8Pieces rest := by
  suffices h : ∃ b tail, String.utf8EncodeChar c = b :: tail ∧
      utf8Piece b (tail ++ rest) = (.char c, rest) by
    obtain ⟨b, tail, hbytes, hpiece⟩ := h
    rw [hbytes, List.cons_append, utf8Pieces, hpiece]
  unfold String.utf8EncodeChar
  simp only [show c.val.toNat = c.toNat from rfl]
  split_ifs with hone htwo hthree
  · exact ⟨_, _, rfl, utf8Piece_one hone⟩
  · exact ⟨_, _, rfl, utf8Piece_two (Nat.lt_of_not_le hone) htwo⟩
  · exact ⟨_, _, rfl, utf8Piece_three (Nat.lt_of_not_le htwo) hthree⟩
  · exact ⟨_, _, rfl, utf8Piece_four (Nat.lt_of_not_le hthree)⟩

/-! ## Reading texts -/

/-- The pieces of an encoding are the characters of the text. -/
theorem utf8Pieces_encodeUtf8 (s : String) :
    utf8Pieces (encodeUtf8 s) = s.toList.map Utf8Piece.char := by
  rw [encodeUtf8_eq]
  induction s.toList with
  | nil => rw [List.flatMap_nil, utf8Pieces, List.map_nil]
  | cons c cs ih => rw [List.flatMap_cons, utf8Pieces_utf8EncodeChar, ih, List.map_cons]

/-- Decoding gives back what was encoded. -/
theorem decodeUtf8?_encodeUtf8 (s : String) : decodeUtf8? (encodeUtf8 s) = some s := by
  have hchars : ∀ cs : List Char, (cs.map Utf8Piece.char).mapM Utf8Piece.char? = some cs := by
    intro cs
    induction cs with
    | nil => rfl
    | cons c cs ih => simp [ih, Utf8Piece.char?]
  rw [decodeUtf8?, utf8Pieces_encodeUtf8, hchars, Option.map_some, String.ofList_toList]

/-! ## Well-formed bytes -/

/-- The range of the bytes that continue a character. -/
def tailRange : Nat × Nat := (0x80, 0xBF)

/-- The well-formed sequences for one character: in each row, the ranges of its bytes. The narrower
second ranges leave out what fits into fewer bytes, the surrogates and what is no code point. -/
def utf8Rows : List (List (Nat × Nat)) :=
  [[(0x00, 0x7F)],
   [(0xC2, 0xDF), tailRange],
   [(0xE0, 0xE0), (0xA0, 0xBF), tailRange],
   [(0xE1, 0xEC), tailRange, tailRange],
   [(0xED, 0xED), (0x80, 0x9F), tailRange],
   [(0xEE, 0xEF), tailRange, tailRange],
   [(0xF0, 0xF0), (0x90, 0xBF), tailRange, tailRange],
   [(0xF1, 0xF3), tailRange, tailRange, tailRange],
   [(0xF4, 0xF4), (0x80, 0x8F), tailRange, tailRange]]

/-- Whether a byte lies in a range. -/
def InRange (range : Nat × Nat) (b : UInt8) : Prop := range.1 ≤ b.toNat ∧ b.toNat ≤ range.2

/-- The bytes of one character, by a row of the table. -/
def IsUtf8Char (bytes : List UInt8) : Prop := ∃ row ∈ utf8Rows, List.Forall₂ InRange row bytes

/-- The bytes of some characters, one after the other. -/
inductive IsUtf8 : List UInt8 → Prop where
  | nil : IsUtf8 []
  | append {bytes rest : List UInt8} (hchar : IsUtf8Char bytes) (hrest : IsUtf8 rest) :
      IsUtf8 (bytes ++ rest)

/-! ## Well-formed characters -/

section characters

variable {a : UInt8} {bytes : List UInt8} {first second : Nat × Nat}

/-- A code point that is no surrogate is that of a character. -/
theorem exists_toNat_eq {n : Nat} (h : n < 0xD800 ∨ 0xDFFF < n ∧ n < 0x110000) :
    ∃ c : Char, c.toNat = n :=
  ⟨Char.ofNatAux n h, rfl⟩

theorem ofNat_eq_of_eq_toNat {n : Nat} (h : n = a.toNat) : UInt8.ofNat n = a := by
  rw [h, UInt8.ofNat_toNat]

/-- A row of one byte. -/
theorem exists_char_one (h : List.Forall₂ InRange [(0x00, 0x7F)] bytes) :
    ∃ c, String.utf8EncodeChar c = bytes := by
  simp only [List.forall₂_cons_left_iff, List.forall₂_nil_left_iff] at h
  obtain ⟨a, _, ⟨-, ha⟩, rfl, rfl⟩ := h
  obtain ⟨c, hc⟩ := exists_toNat_eq (n := a.toNat) (by omega)
  refine ⟨c, ?_⟩
  simp only [String.utf8EncodeChar, show c.val.toNat = c.toNat from rfl, hc, if_pos ha]
  rw [ofNat_eq_of_eq_toNat rfl]

/-- A row of two bytes. -/
theorem exists_char_two (h : List.Forall₂ InRange [(0xC2, 0xDF), tailRange] bytes) :
    ∃ c, String.utf8EncodeChar c = bytes := by
  simp only [List.forall₂_cons_left_iff, List.forall₂_nil_left_iff, InRange, tailRange] at h
  obtain ⟨a, _, ha, ⟨b, _, hb, rfl, rfl⟩, rfl⟩ := h
  obtain ⟨c, hc⟩ := exists_toNat_eq (n := (a.toNat - 0xC0) * 64 + (b.toNat - 0x80)) (by omega)
  refine ⟨c, ?_⟩
  simp only [String.utf8EncodeChar, show c.val.toNat = c.toNat from rfl, hc]
  rw [if_neg (by omega), if_pos (by omega), ofNat_eq_of_eq_toNat (a := a) (by omega),
    ofNat_eq_of_eq_toNat (a := b) (by omega)]

/-- A row of three bytes, which leaves out what fits into two and the surrogates. -/
theorem exists_char_three (h : List.Forall₂ InRange [first, second, tailRange] bytes)
    (hfirst : 0xE0 ≤ first.1 ∧ first.2 ≤ 0xEF) (hsecond : 0x80 ≤ second.1 ∧ second.2 ≤ 0xBF)
    (hshort : first.1 ≤ 0xE0 → 0xA0 ≤ second.1)
    (hsurrogate : first.1 ≤ 0xED → 0xED ≤ first.2 → second.2 ≤ 0x9F) :
    ∃ c, String.utf8EncodeChar c = bytes := by
  simp only [List.forall₂_cons_left_iff, List.forall₂_nil_left_iff, InRange, tailRange] at h
  obtain ⟨a, _, ha, ⟨b, _, hb, ⟨c, _, hc, rfl, rfl⟩, rfl⟩, rfl⟩ := h
  obtain ⟨char, hchar⟩ := exists_toNat_eq
    (n := (a.toNat - 0xE0) * 4096 + (b.toNat - 0x80) * 64 + (c.toNat - 0x80)) (by omega)
  refine ⟨char, ?_⟩
  simp only [String.utf8EncodeChar, show char.val.toNat = char.toNat from rfl, hchar]
  rw [if_neg (by omega), if_neg (by omega), if_pos (by omega),
    ofNat_eq_of_eq_toNat (a := a) (by omega), ofNat_eq_of_eq_toNat (a := b) (by omega),
    ofNat_eq_of_eq_toNat (a := c) (by omega)]

/-- A row of four bytes, which leaves out what fits into three and what is no code point. -/
theorem exists_char_four (h : List.Forall₂ InRange [first, second, tailRange, tailRange] bytes)
    (hfirst : 0xF0 ≤ first.1 ∧ first.2 ≤ 0xF4) (hsecond : 0x80 ≤ second.1 ∧ second.2 ≤ 0xBF)
    (hshort : first.1 ≤ 0xF0 → 0x90 ≤ second.1) (hlarge : 0xF4 ≤ first.2 → second.2 ≤ 0x8F) :
    ∃ c, String.utf8EncodeChar c = bytes := by
  simp only [List.forall₂_cons_left_iff, List.forall₂_nil_left_iff, InRange, tailRange] at h
  obtain ⟨a, _, ha, ⟨b, _, hb, ⟨c, _, hc, ⟨d, _, hd, rfl, rfl⟩, rfl⟩, rfl⟩, rfl⟩ := h
  obtain ⟨char, hchar⟩ := exists_toNat_eq (n := (a.toNat - 0xF0) * 262144 +
    (b.toNat - 0x80) * 4096 + (c.toNat - 0x80) * 64 + (d.toNat - 0x80)) (by omega)
  refine ⟨char, ?_⟩
  simp only [String.utf8EncodeChar, show char.val.toNat = char.toNat from rfl, hchar]
  rw [if_neg (by omega), if_neg (by omega), if_neg (by omega),
    ofNat_eq_of_eq_toNat (a := a) (by omega), ofNat_eq_of_eq_toNat (a := b) (by omega),
    ofNat_eq_of_eq_toNat (a := c) (by omega), ofNat_eq_of_eq_toNat (a := d) (by omega)]

/-- Every row of the table holds the bytes of characters. -/
theorem IsUtf8Char.exists_char (h : IsUtf8Char bytes) : ∃ c, String.utf8EncodeChar c = bytes := by
  obtain ⟨row, hrow, hbytes⟩ := h
  simp only [utf8Rows, List.mem_cons, List.not_mem_nil, or_false] at hrow
  obtain rfl | rfl | rfl | rfl | rfl | rfl | rfl | rfl | rfl := hrow
  · exact exists_char_one hbytes
  · exact exists_char_two hbytes
  · exact exists_char_three hbytes (by decide) (by decide) (by decide) (by decide)
  · exact exists_char_three hbytes (by decide) (by decide) (by decide) (by decide)
  · exact exists_char_three hbytes (by decide) (by decide) (by decide) (by decide)
  · exact exists_char_three hbytes (by decide) (by decide) (by decide) (by decide)
  · exact exists_char_four hbytes (by decide) (by decide) (by decide) (by decide)
  · exact exists_char_four hbytes (by decide) (by decide) (by decide) (by decide)
  · exact exists_char_four hbytes (by decide) (by decide) (by decide) (by decide)

theorem inRange_ofNat {range : Nat × Nat} {n : Nat} (hlow : range.1 ≤ n) (hhigh : n ≤ range.2)
    (hbyte : range.2 < 256) : InRange range (UInt8.ofNat n) := by
  rw [InRange, UInt8.toNat_ofNat_of_lt' (Nat.lt_of_le_of_lt hhigh hbyte)]
  exact ⟨hlow, hhigh⟩

/-- The last six bits of a code point make a byte that continues a character. -/
theorem inRange_tailRange (n : Nat) : InRange tailRange (UInt8.ofNat (n % 64 + 0x80)) :=
  inRange_ofNat (Nat.le_add_left ..) (by rw [tailRange]; omega) (by decide)

/-- The bytes of a character make up a row of the table. -/
theorem isUtf8Char_utf8EncodeChar (c : Char) : IsUtf8Char (String.utf8EncodeChar c) := by
  have hvalid : c.toNat < 0xD800 ∨ 0xDFFF < c.toNat ∧ c.toNat < 0x110000 := c.valid
  simp only [String.utf8EncodeChar, show c.val.toNat = c.toNat from rfl]
  split_ifs with hone htwo hthree
  · exact ⟨_, .head _, .cons (inRange_ofNat (by omega) hone (by decide)) .nil⟩
  · refine ⟨[(0xC2, 0xDF), tailRange], by decide, .cons ?_ (.cons (inRange_tailRange _) .nil)⟩
    exact inRange_ofNat (by omega) (by omega) (by decide)
  · have hrow : ∀ first second, [first, second, tailRange] ∈ utf8Rows →
        InRange first (UInt8.ofNat (c.toNat / 4096 % 16 + 0xE0)) →
        InRange second (UInt8.ofNat (c.toNat / 64 % 64 + 0x80)) → IsUtf8Char _ :=
      fun _ _ hmem ha hb => ⟨_, hmem, .cons ha (.cons hb (.cons (inRange_tailRange c.toNat) .nil))⟩
    obtain hlead | hlead | hlead | hlead : c.toNat / 4096 = 0 ∨
        (1 ≤ c.toNat / 4096 ∧ c.toNat / 4096 ≤ 12) ∨ c.toNat / 4096 = 13 ∨
        (14 ≤ c.toNat / 4096 ∧ c.toNat / 4096 ≤ 15) := by omega
    · exact hrow (0xE0, 0xE0) (0xA0, 0xBF) (by decide)
        (inRange_ofNat (by omega) (by omega) (by decide))
        (inRange_ofNat (by omega) (by omega) (by decide))
    · exact hrow (0xE1, 0xEC) tailRange (by decide)
        (inRange_ofNat (by omega) (by omega) (by decide)) (inRange_tailRange _)
    · exact hrow (0xED, 0xED) (0x80, 0x9F) (by decide)
        (inRange_ofNat (by omega) (by omega) (by decide))
        (inRange_ofNat (by omega) (by omega) (by decide))
    · exact hrow (0xEE, 0xEF) tailRange (by decide)
        (inRange_ofNat (by omega) (by omega) (by decide)) (inRange_tailRange _)
  · have hrow : ∀ first second, [first, second, tailRange, tailRange] ∈ utf8Rows →
        InRange first (UInt8.ofNat (c.toNat / 262144 % 8 + 0xF0)) →
        InRange second (UInt8.ofNat (c.toNat / 4096 % 64 + 0x80)) → IsUtf8Char _ :=
      fun _ _ hmem ha hb => ⟨_, hmem, .cons ha (.cons hb (.cons (inRange_tailRange (c.toNat / 64))
        (.cons (inRange_tailRange c.toNat) .nil)))⟩
    obtain hlead | hlead | hlead : c.toNat / 262144 = 0 ∨
        (1 ≤ c.toNat / 262144 ∧ c.toNat / 262144 ≤ 3) ∨ c.toNat / 262144 = 4 := by omega
    · exact hrow (0xF0, 0xF0) (0x90, 0xBF) (by decide)
        (inRange_ofNat (by omega) (by omega) (by decide))
        (inRange_ofNat (by omega) (by omega) (by decide))
    · exact hrow (0xF1, 0xF3) tailRange (by decide)
        (inRange_ofNat (by omega) (by omega) (by decide)) (inRange_tailRange _)
    · exact hrow (0xF4, 0xF4) (0x80, 0x8F) (by decide)
        (inRange_ofNat (by omega) (by omega) (by decide))
        (inRange_ofNat (by omega) (by omega) (by decide))

/-- The table lists the bytes of the characters. -/
theorem isUtf8Char_iff : IsUtf8Char bytes ↔ ∃ c, String.utf8EncodeChar c = bytes := by
  refine ⟨IsUtf8Char.exists_char, ?_⟩
  rintro ⟨c, rfl⟩
  exact isUtf8Char_utf8EncodeChar c

end characters

/-! ## Well-formed texts -/

section texts

variable {bytes : List UInt8}

/-- The bytes of every text are well-formed. -/
theorem isUtf8_encodeUtf8 (s : String) : IsUtf8 (encodeUtf8 s) := by
  rw [encodeUtf8_eq]
  induction s.toList with
  | nil => exact .nil
  | cons c cs ih => exact .append (isUtf8Char_utf8EncodeChar c) ih

/-- Well-formed bytes are those of a text. -/
theorem IsUtf8.exists_encodeUtf8 (h : IsUtf8 bytes) : ∃ s, encodeUtf8 s = bytes := by
  induction h with
  | nil => exact ⟨"", by rw [encodeUtf8_eq]; rfl⟩
  | append hchar _ ih =>
    obtain ⟨c, rfl⟩ := hchar.exists_char
    obtain ⟨s, rfl⟩ := ih
    refine ⟨String.ofList (c :: s.toList), ?_⟩
    rw [encodeUtf8_eq, encodeUtf8_eq, String.toList_ofList, List.flatMap_cons]

theorem isUtf8_iff : IsUtf8 bytes ↔ ∃ s, encodeUtf8 s = bytes := by
  refine ⟨IsUtf8.exists_encodeUtf8, ?_⟩
  rintro ⟨s, rfl⟩
  exact isUtf8_encodeUtf8 s

/-- Nothing is replaced in the bytes of a text. -/
theorem decodeUtf8Lossy_encodeUtf8 (s : String) : decodeUtf8Lossy (encodeUtf8 s) = s := by
  have hshown : Utf8Piece.shown ∘ Utf8Piece.char = id := rfl
  rw [decodeUtf8Lossy, utf8Pieces_encodeUtf8, List.map_map, hshown, List.map_id,
    String.ofList_toList]

/-- Bytes are those of the text they decode to exactly if they are well-formed. -/
theorem encodeUtf8_decodeUtf8Lossy_iff :
    encodeUtf8 (decodeUtf8Lossy bytes) = bytes ↔ IsUtf8 bytes := by
  constructor
  · intro hsame
    rw [← hsame]
    exact isUtf8_encodeUtf8 _
  · intro h
    obtain ⟨s, rfl⟩ := h.exists_encodeUtf8
    rw [decodeUtf8Lossy_encodeUtf8]

end texts

end ScriptVM.Text
