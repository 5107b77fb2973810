import Mathlib.Algebra.Group.Nat.Defs
import ScriptVM.Proofs.Saved.Image
import ScriptVM.Proofs.Text.Utf8
import ScriptVM.Saved.Store

/-!
# Code in the binary form

The reader of the binary form inverts its writer on the trees that images are. Every marker
announces what the writer put behind it, and the widths change exactly where the next smaller
form is full, so that an integer, a text, a list or a map is read back whichever form was the
smallest for it. Lengths have at most 32 bits, because the form has no room for longer ones.
-/
namespace ScriptVM
namespace MessagePack

/-! ## Numbers -/

@[simp] theorem length_bigEndian (width n : Nat) : (bigEndian width n).length = width := by
  induction width with
  | zero => rfl
  | succ width ih => simp [bigEndian, ih]

/-- The bytes of a number are read as that number, as far as the width goes. -/
theorem readNatural?_bigEndian (width n : Nat) (rest : List UInt8) :
    readNatural? width (bigEndian width n ++ rest) = some (n % 256 ^ width, rest) := by
  induction width with
  | zero => simp [bigEndian, readNatural?, Nat.mod_one]
  | succ width ih =>
    have hbyte : (UInt8.ofNat (n / 256 ^ width)).toNat = n / 256 ^ width % 256 :=
      UInt8.toNat_ofNat'
    have hsum : n % 256 ^ (width + 1) = n / 256 ^ width % 256 * 256 ^ width + n % 256 ^ width := by
      rw [Nat.mod_pow_succ, Nat.add_comm, Nat.mul_comm]
    simp [bigEndian, readNatural?, ih, hbyte, hsum]

section reading

variable {fuel depth : Nat} {rest : List UInt8}

theorem readTree?_inline {marker : UInt8} {t : Tree} (h : shape marker = .inline t) :
    readTree? (fuel + 1) depth ([marker] ++ rest) = some (t, rest) := by
  simp only [List.cons_append, List.nil_append, readTree?, h]

theorem readTree?_number {marker : UInt8} {n : Nat} (width : Nat) (value : Nat → Tree)
    (h : shape marker = .number width value) (hn : n < 256 ^ width) :
    readTree? (fuel + 1) depth (marked marker width n ++ rest) = some (value n, rest) := by
  simp only [marked, List.cons_append, readTree?, h, readNatural?_bigEndian,
    Nat.mod_eq_of_lt hn, Option.map_some]

theorem readTree?_sized (width : Nat) {marker : UInt8} {n : Nat}
    {content : Nat → List UInt8 → Option (Tree × List UInt8)}
    (h : shape marker = .sized width content) (hn : n < 256 ^ width) :
    readTree? (fuel + 1) depth (marked marker width n ++ rest) = content n rest := by
  simp only [marked, List.cons_append, readTree?, h, readNatural?_bigEndian,
    Nat.mod_eq_of_lt hn, Option.bind_some]

/-! The markers that hold a small number themselves. -/

theorem shape_small {n : Nat} (hn : n < 0x80) : shape (UInt8.ofNat n) = .inline (.integer n) := by
  have hbyte : (UInt8.ofNat n).toNat = n := UInt8.toNat_ofNat_of_lt' (show _ < 256 by omega)
  unfold shape
  extract_lets byte
  rw [if_pos (by omega), show byte = n from hbyte]

theorem shape_map {n : Nat} (hn : n < 16) : shape (UInt8.ofNat (0x80 + n)) = .map 0 n := by
  have hbyte : (UInt8.ofNat (0x80 + n)).toNat = 0x80 + n :=
    UInt8.toNat_ofNat_of_lt' (show _ < 256 by omega)
  unfold shape
  extract_lets byte
  rw [if_neg (by omega), if_pos (by omega), show byte - 0x80 = n by omega]

theorem shape_list {n : Nat} (hn : n < 16) : shape (UInt8.ofNat (0x90 + n)) = .list 0 n := by
  have hbyte : (UInt8.ofNat (0x90 + n)).toNat = 0x90 + n :=
    UInt8.toNat_ofNat_of_lt' (show _ < 256 by omega)
  unfold shape
  extract_lets byte
  rw [if_neg (by omega), if_neg (by omega), if_pos (by omega), show byte - 0x90 = n by omega]

theorem shape_text {n : Nat} (hn : n < 32) :
    shape (UInt8.ofNat (0xA0 + n)) = .content n readText? := by
  have hbyte : (UInt8.ofNat (0xA0 + n)).toNat = 0xA0 + n :=
    UInt8.toNat_ofNat_of_lt' (show _ < 256 by omega)
  unfold shape
  extract_lets byte
  rw [if_neg (by omega), if_neg (by omega), if_neg (by omega), if_pos (by omega),
    show byte - 0xA0 = n by omega]

theorem shape_negative {m : Nat} (hpos : 0 < m) (hm : m ≤ 32) :
    shape (UInt8.ofNat (0x100 - m)) = .inline (.integer (-m)) := by
  have hbyte : (UInt8.ofNat (0x100 - m)).toNat = 0x100 - m :=
    UInt8.toNat_ofNat_of_lt' (show _ < 256 by omega)
  have hvalue : signed 1 (0x100 - m) = -m := by
    rw [signed, if_neg (by simp; omega)]
    simp only [Nat.pow_eq, Nat.pow_one, Int.ofNat_eq_natCast]
    omega
  unfold shape
  extract_lets byte
  rw [if_neg (by omega), if_neg (by omega), if_neg (by omega), if_neg (by omega),
    if_pos (by omega), show byte = 0x100 - m from hbyte, hvalue]

/-! ## Integers -/

theorem readTree?_writeNatural {n : Nat} (hn : n < 0x10000000000000000) :
    readTree? (fuel + 1) depth (writeNatural n ++ rest) = some (.integer n, rest) := by
  unfold writeNatural
  split_ifs with hsmall hone htwo hfour
  · exact readTree?_inline (shape_small hsmall)
  · exact readTree?_number 1 (fun n => .integer n) rfl hone
  · exact readTree?_number 2 (fun n => .integer n) rfl htwo
  · exact readTree?_number 4 (fun n => .integer n) rfl hfour
  · exact readTree?_number 8 (fun n => .integer n) rfl hn

/-- A negative number in a form for signed ones, where it is written as what is missing to the
first number that the form has no room for. -/
theorem readTree?_signed {marker : UInt8} {m : Nat} (width : Nat)
    (h : shape marker = .number width fun n => signedTree (signed width n)) (hpos : 0 < m)
    (hm : m ≤ 256 ^ width / 2) (heven : 2 ∣ 256 ^ width) :
    readTree? (fuel + 1) depth (marked marker width (256 ^ width - m) ++ rest) =
      some (.integer (-m), rest) := by
  have hsigned : signed width (256 ^ width - m) = -m := by
    rw [signed, if_neg (by simp only [Nat.pow_eq]; omega)]
    simp only [Nat.pow_eq, Int.ofNat_eq_natCast]
    omega
  rw [readTree?_number width _ h (by omega), hsigned, signedTree, if_neg (by omega)]

theorem readTree?_writeNegative {m : Nat} (hpos : 0 < m) (hm : m ≤ 0x8000000000000000) :
    readTree? (fuel + 1) depth (writeNegative m ++ rest) = some (.integer (-m), rest) := by
  unfold writeNegative
  split_ifs with hsmall hone htwo hfour
  · exact readTree?_inline (shape_negative hpos hsmall)
  · exact readTree?_signed 1 rfl hpos hone (by decide)
  · exact readTree?_signed 2 rfl hpos htwo (by decide)
  · exact readTree?_signed 4 rfl hpos hfour (by decide)
  · exact readTree?_signed 8 rfl hpos hm (by decide)

/-- An integer of 64 bits, signed or unsigned, is read back from its smallest form. -/
theorem readTree?_writeInteger {n : Int} (hlow : -0x8000000000000000 ≤ n)
    (hhigh : n < 0x10000000000000000) :
    readTree? (fuel + 1) depth (writeInteger n ++ rest) = some (.integer n, rest) := by
  unfold writeInteger
  split_ifs with hsign
  · have hvalue : (n.toNat : Int) = n := Int.toNat_of_nonneg hsign
    rw [readTree?_writeNatural (by omega), hvalue]
  · have hvalue : -(n.natAbs : Int) = n := by omega
    rw [readTree?_writeNegative (by omega) (by omega), hvalue]

/-! ## Texts -/

theorem takeBytes?_append (content : List UInt8) :
    takeBytes? content.length (content ++ rest) = some (content, rest) := by
  simp [takeBytes?]

theorem readTree?_textHead {length : Nat} (h : length < 0x100000000) :
    readTree? (fuel + 1) depth (textHead length ++ rest) = readText? length rest := by
  unfold textHead
  split_ifs with hsmall hone htwo
  · simp only [List.cons_append, List.nil_append, readTree?, shape_text hsmall]
  · exact readTree?_sized 1 rfl hone
  · exact readTree?_sized 2 rfl htwo
  · exact readTree?_sized 4 rfl h

/-- A text is read back, whatever its characters are. -/
theorem readTree?_writeText {s : String} (h : s.utf8ByteSize < 0x100000000) :
    readTree? (fuel + 1) depth (writeText s ++ rest) = some (.text s, rest) := by
  rw [← Text.length_encodeUtf8] at h
  rw [writeText, List.append_assoc, readTree?_textHead h, readText?, takeBytes?_append]
  simp [Text.decodeUtf8?_encodeUtf8]

/-! ## Lists and maps -/

theorem readTree?_list {marker : UInt8} {n : Nat} (width inner : Nat)
    (h : shape marker = .list width inner) (hn : n < 256 ^ width) :
    readTree? (fuel + 1) (depth + 1) (marked marker width n ++ rest) =
      (readItems? fuel depth (inner + n) rest).map fun (items, rest) => (.list items, rest) := by
  simp [marked, readTree?, h, readNatural?_bigEndian, Nat.mod_eq_of_lt hn]

theorem readTree?_listHead {length : Nat} (h : length < 0x100000000) :
    readTree? (fuel + 1) (depth + 1) (listHead length ++ rest) =
      (readItems? fuel depth length rest).map fun (items, rest) => (.list items, rest) := by
  unfold listHead
  split_ifs with hsmall htwo
  · exact readTree?_list 0 length (shape_list hsmall) (n := 0) Nat.one_pos
  · rw [readTree?_list 2 0 rfl htwo, Nat.zero_add]
  · rw [readTree?_list 4 0 rfl h, Nat.zero_add]

theorem readTree?_map {marker : UInt8} {n : Nat} (width inner : Nat)
    (h : shape marker = .map width inner) (hn : n < 256 ^ width) :
    readTree? (fuel + 1) (depth + 1) (marked marker width n ++ rest) =
      (readEntries? fuel depth (inner + n) rest).map fun (entries, rest) =>
        (.map entries, rest) := by
  simp [marked, readTree?, h, readNatural?_bigEndian, Nat.mod_eq_of_lt hn]

theorem readTree?_mapHead {length : Nat} (h : length < 0x100000000) :
    readTree? (fuel + 1) (depth + 1) (mapHead length ++ rest) =
      (readEntries? fuel depth length rest).map fun (entries, rest) => (.map entries, rest) := by
  unfold mapHead
  split_ifs with hsmall htwo
  · exact readTree?_map 0 length (shape_map hsmall) (n := 0) Nat.one_pos
  · rw [readTree?_map 2 0 rfl htwo, Nat.zero_add]
  · rw [readTree?_map 4 0 rfl h, Nat.zero_add]

end reading

/-! ## Trees -/

theorem length_writeInteger_pos (n : Int) : 0 < (writeInteger n).length := by
  unfold writeInteger writeNatural writeNegative
  split_ifs <;> simp [marked]

theorem length_textHead_pos (n : Nat) : 0 < (textHead n).length := by
  unfold textHead
  split_ifs <;> simp [marked]

theorem length_listHead_pos (n : Nat) : 0 < (listHead n).length := by
  unfold listHead
  split_ifs <;> simp [marked]

theorem length_mapHead_pos (n : Nat) : 0 < (mapHead n).length := by
  unfold mapHead
  split_ifs <;> simp [marked]

/-- Every tree takes at least its marker. -/
theorem length_write_pos (t : Tree) : 0 < (write t).length := by
  have hinteger (n : Nat) : 0 < (writeNatural n).length := by
    simpa [writeInteger] using length_writeInteger_pos n
  have htext (s : String) : 0 < (writeText s).length := by
    have := length_textHead_pos (Text.encodeUtf8 s).length
    simp only [writeText, List.length_append]
    omega
  cases t with
  | null | opaqueData | bool _ | float _ => simp [write, marked]
  | integer n => exact length_writeInteger_pos n
  | plainNumber n => exact hinteger n
  | text s => exact htext s
  | malformedText => exact htext ""
  | bytes content =>
    have := length_listHead_pos content.length
    simp only [write, List.length_append]
    omega
  | list items =>
    have := length_listHead_pos items.length
    simp only [write, List.length_append]
    omega
  | map entries =>
    have := length_mapHead_pos entries.length
    simp only [write, List.length_append]
    omega

/-- What the binary form can hold: every float, and lengths of 32 bits. -/
def limits : Limits where
  float _ := True
  length n := n < 0x100000000
  short _ h := Nat.lt_trans h (by decide)

/-- Whether a tree is read back in front of anything, given two steps for each of its bytes. -/
def ReadsBack (depth : Nat) (t : Tree) : Prop :=
  ∀ fuel rest, 2 * (write t).length ≤ fuel + 1 →
    readTree? fuel depth (write t ++ rest) = some (t, rest)

section trees

variable {depth : Nat}

/-- It is enough to look at readings with a step left for the marker. -/
theorem ReadsBack.of_succ {t : Tree}
    (h : ∀ fuel rest, 2 * (write t).length ≤ fuel + 2 →
      readTree? (fuel + 1) depth (write t ++ rest) = some (t, rest)) : ReadsBack depth t := by
  intro fuel rest hfuel
  have hpos := length_write_pos t
  obtain ⟨fuel, rfl⟩ : ∃ k, fuel = k + 1 := ⟨fuel - 1, by omega⟩
  exact h fuel rest hfuel

theorem readItems?_writeItems {items : List Tree} (h : ∀ t ∈ items, ReadsBack depth t)
    (fuel : Nat) (rest : List UInt8) (hfuel : 2 * (writeItems items).length ≤ fuel) :
    readItems? fuel depth items.length (writeItems items ++ rest) = some (items, rest) := by
  induction items generalizing fuel with
  | nil => cases fuel <;> simp [writeItems, readItems?]
  | cons t items ih =>
    have hpos := length_write_pos t
    simp only [writeItems, List.length_append] at hfuel
    obtain ⟨fuel, rfl⟩ : ∃ k, fuel = k + 1 := ⟨fuel - 1, by omega⟩
    have htree := h t (by simp) fuel (writeItems items ++ rest) (by omega)
    have hitems := ih (fun u hu => h u (by simp [hu])) fuel (by omega)
    simp [writeItems, readItems?, htree, hitems]

theorem readEntries?_writeEntries {entries : List (Tree × Tree)}
    (hkeys : ∀ e ∈ entries, ReadsBack depth e.1)
    (hvalues : ∀ e ∈ entries, ReadsBack depth e.2) (fuel : Nat)
    (rest : List UInt8) (hfuel : 2 * (writeEntries entries).length ≤ fuel) :
    readEntries? fuel depth entries.length (writeEntries entries ++ rest) =
      some (entries, rest) := by
  induction entries generalizing fuel with
  | nil => cases fuel <;> simp [writeEntries, readEntries?]
  | cons e entries ih =>
    obtain ⟨key, value⟩ := e
    have hkeypos := length_write_pos key
    have hvaluepos := length_write_pos value
    simp only [writeEntries, List.length_append] at hfuel
    obtain ⟨fuel, rfl⟩ : ∃ k, fuel = k + 1 := ⟨fuel - 1, by omega⟩
    have hkey : ReadsBack depth key := hkeys _ (List.mem_cons_self ..)
    have hvalue : ReadsBack depth value := hvalues _ (List.mem_cons_self ..)
    have hkey := hkey fuel (write value ++ (writeEntries entries ++ rest)) (by omega)
    have hvalue := hvalue fuel (writeEntries entries ++ rest) (by omega)
    have hentries := ih (fun e he => hkeys e (by simp [he]))
      (fun e he => hvalues e (by simp [he])) fuel (by omega)
    simp [writeEntries, readEntries?, hkey, hvalue, hentries]

theorem ReadsBack.text {s : String} (h : limits.text s) : ReadsBack depth (.text s) :=
  .of_succ fun _ _ _ => readTree?_writeText h

/-- The trees within the limits of the binary form are read back. -/
theorem readsBack_of_within {t : Tree} (h : t.Within limits depth) : ReadsBack depth t := by
  induction h with
  | null => exact .of_succ fun _ _ _ => readTree?_inline rfl
  | integer hlow hhigh => exact .of_succ fun _ _ _ => readTree?_writeInteger hlow hhigh
  | @float depth x _ =>
    refine .of_succ fun fuel rest _ => ?_
    have hbits : readTree? (fuel + 1) depth (marked 0xCB 8 x.bits.toNat ++ rest) =
        some (floatOfBits x.bits.toNat, rest) :=
      readTree?_number 8 floatOfBits rfl x.bits.toNat_lt
    rwa [floatOfBits, UInt64.ofNat_toNat] at hbits
  | text h => exact .text h
  | @list depth items hlength _ ih =>
    refine .of_succ fun fuel rest hfuel => ?_
    have hhead := length_listHead_pos items.length
    simp only [write, List.length_append] at hfuel
    have hitems := readItems?_writeItems ih fuel rest (by omega)
    rw [write, List.append_assoc, readTree?_listHead hlength, hitems, Option.map_some]
  | @map depth entries hlength hkeys _ ih =>
    refine .of_succ fun fuel rest hfuel => ?_
    have hhead := length_mapHead_pos entries.length
    simp only [write, List.length_append] at hfuel
    have hkeys : ∀ e ∈ entries, ReadsBack depth e.1 := by
      intro e he
      obtain ⟨s, hs, hlimits⟩ := hkeys e he
      exact hs ▸ .text hlimits
    have hentries := readEntries?_writeEntries hkeys ih fuel rest (by omega)
    rw [write, List.append_assoc, readTree?_mapHead hlength, hentries, Option.map_some]

end trees

/-- A whole file in the binary form is read as the tree it was written from. -/
theorem read?_write {t : Tree} (h : t.Within limits maxDepth) : read? (write t) = some t := by
  have hread := readsBack_of_within h (2 * (write t).length + 2) [] (by omega)
  rw [List.append_nil] at hread
  rw [read?, hread, Option.map_some]

end MessagePack

/-- Code is loaded from its binary form as it was saved, whatever its operations, texts, bytes,
words and the bits of its floats are. It is loaded as its own code, and stands at its start,
wherever the cursor it was saved from stood. The form itself has no room for lists of `2 ^ 32`
items and texts of `2 ^ 32` bytes. -/
theorem Cursor.ofMessagePack_toMessagePack (c : Cursor) (hwords : ∀ i ∈ c.instructions, i.HasWords)
    (hlength : c.length < 0x100000000)
    (hoperands : ∀ i ∈ c.instructions, i.op.operand.Within MessagePack.limits) :
    (View.ofMessagePack c.toView.toMessagePack).map ofView = .ok (ofList c.instructions) := by
  have htree : (Image.ofCode c.instructions).toTree.Within MessagePack.limits
      MessagePack.maxDepth :=
    Image.within_toTree 1019 (show c.instructions.length < _ by simpa using hlength) hoperands
      hwords
  rw [View.ofMessagePack, View.toMessagePack, MessagePack.read?_write htree, Option.bind_some,
    Image.ofTree?_toTree _ _ hwords]
  rfl

/-- A NaN with a payload, an integer at either end, bytes, an operator and a lambda, saved from
the middle of their code. -/
theorem Cursor.ofMessagePack_toMessagePack_nan :
    let code : List Instruction := [⟨.newFloat ⟨0x7FF0000000000001⟩, some 1⟩,
      ⟨.newInteger Int64.minValue, none⟩, ⟨.jump Text.maxCount, some Text.maxCount⟩,
      ⟨.newBytes [0, 0x80, 0xFF], none⟩, ⟨.binary .contains, some 2⟩,
      ⟨.newLambda ⟨none, 2, 0⟩, none⟩, ⟨.newString "\x00\u00E9\u2028", none⟩]
    (View.ofMessagePack (View.ofList code).toMessagePack).map Cursor.ofView =
      .ok (Cursor.ofList code) := by
  intro code
  have hcode : (⟨View.ofList code, 3⟩ : Cursor).instructions = code := View.instructions_ofList code
  have htext : "\x00\u00E9\u2028".utf8ByteSize < 0x100000000 := by decide
  have hoperands : ∀ i ∈ code, i.op.operand.Within MessagePack.limits := by
    simp [code, Op.operand, Operand.Within, Limits.text, MessagePack.limits, htext]
  have h := Cursor.ofMessagePack_toMessagePack ⟨View.ofList code, 3⟩ (by rw [hcode]; decide)
    (by simp [code]) (by rwa [hcode])
  rwa [hcode] at h

end ScriptVM
