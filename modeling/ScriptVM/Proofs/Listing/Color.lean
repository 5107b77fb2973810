import Mathlib.Data.List.TakeWhile
import ScriptVM.Code.Listing
import ScriptVM.Proofs.Text.Decimal

/-!
# Colored listings

A terminal takes what follows an escape character as a command. Names stand in listings as they are;
everything else that listings show is written in characters that stand for themselves.

A colored listing without its color sequences has the lines of the plain one, with one difference:
the mnemonic is padded together with the sequences around it. Its column is narrower by their
length, and an operand behind it stands so much further to the left.

## Main definitions

* `Text.Clear` — a text without escape characters.
* `deleteColors` — a text without its color sequences.
* `Style.hidden` — how many characters a style adds that do not show.

## Main results

* `Instruction.clear_operandText` — operands are clear if the names in them are.
* `View.listing_colored` — every line of a colored listing, next to the line of the plain one.
-/
namespace ScriptVM

namespace Text

/-- A text holds no escape character. -/
def Clear (s : String) : Prop := '\x1b' ∉ s.toList

/-- A text holds something else than spaces. -/
def Shows (s : String) : Prop := ∃ c ∈ s.toList, c ≠ ' '

instance (s : String) : Decidable (Clear s) := inferInstanceAs (Decidable (_ ∉ _))

instance (s : String) : Decidable (Shows s) :=
  decidable_of_iff ((s.toList.any (· ≠ ' ')) = true) (by simp [Shows])

/-! ## Texts put together -/

section clear

variable {s t : String} {parts : List String}

@[simp] theorem clear_append : Clear (s ++ t) ↔ Clear s ∧ Clear t := by
  simp [Clear, not_or]

@[simp] theorem clear_ofList {cs : List Char} : Clear (String.ofList cs) ↔ '\x1b' ∉ cs := by
  simp [Clear]

theorem clear_intercalate {sep : String} (hsep : Clear sep) (hparts : ∀ part ∈ parts, Clear part) :
    Clear (sep.intercalate parts) := by
  induction parts with
  | nil => simp [Clear]
  | cons part parts ih =>
    cases parts with
    | nil => simpa using hparts
    | cons next parts =>
      rw [String.intercalate_cons_cons, clear_append, clear_append]
      exact ⟨⟨hparts part (by simp), hsep⟩, ih fun p hp => hparts p (List.mem_cons_of_mem _ hp)⟩

theorem clear_padRight {width : Nat} (hs : Clear s) : Clear (padRight width s) := by
  simp [padRight, hs]

theorem clear_padLeft {fill : Char} {width : Nat} (hfill : fill ≠ '\x1b') (hs : Clear s) :
    Clear (padLeft fill width s) := by
  simp [padLeft, hs, hfill.symm]

theorem shows_append : Shows (s ++ t) ↔ Shows s ∨ Shows t := by
  simp [Shows, or_and_right, exists_or]

end clear

/-! ## Numbers -/

/-- The characters of a number are digits, in every base. -/
theorem exists_digitChar_of_mem_toDigits {b n : Nat} {c : Char} (hb : 1 < b)
    (hc : c ∈ Nat.toDigits b n) : ∃ k < b, c = Nat.digitChar k := by
  induction n using Nat.base_induction b hb with
  | single n hn =>
    rw [Nat.toDigits_of_lt_base hn, List.mem_singleton] at hc
    exact ⟨n, hn, hc⟩
  | digit n k hk hn ih =>
    rw [← Nat.toDigits_append_toDigits hb hn hk, List.mem_append, Nat.toDigits_of_lt_base hk,
      List.mem_singleton] at hc
    obtain hc | hc := hc
    · exact ih hc
    · exact ⟨k, hk, hc⟩

theorem escape_notMem_toDigits {b : Nat} (hb : 1 < b) (hb' : b ≤ 16) (n : Nat) :
    '\x1b' ∉ Nat.toDigits b n := by
  have hdigits : ∀ k < 16, Nat.digitChar k ≠ '\x1b' := by decide
  intro hmem
  obtain ⟨k, hk, hc⟩ := exists_digitChar_of_mem_toDigits hb hmem
  exact hdigits k (Nat.lt_of_lt_of_le hk hb') hc.symm

@[simp] theorem clear_toString_int (n : Int) : Clear (toString n) := by
  intro hmem
  obtain hc | hc := minus_or_isDigit_of_mem_toString hmem <;> cases hc

@[simp] theorem clear_toString_nat (n : Nat) : Clear (toString n) := by
  rw [Nat.toString_eq_ofList_toDigits, clear_ofList]
  exact escape_notMem_toDigits (by decide) (by decide) n

@[simp] theorem clear_zeroPadded (width n : Nat) : Clear (zeroPadded width n) :=
  clear_padLeft (by decide) (clear_toString_nat n)

/-- A number is written with a digit. -/
theorem shows_toString_nat (n : Nat) : Shows (toString n) := by
  obtain ⟨c, digits, hcons, hdigit⟩ := exists_cons_toDigits n
  rw [Shows, Nat.toString_eq_ofList_toDigits, String.toList_ofList, hcons]
  refine ⟨c, List.mem_cons_self, ?_⟩
  rintro rfl
  cases hdigit

theorem shows_toString_int (n : Int) : Shows (toString n) := by
  obtain ⟨c, cs, hcons, hc⟩ := exists_cons_toString n
  refine ⟨c, by rw [hcons]; exact List.mem_cons_self, ?_⟩
  rintro rfl
  obtain hc | hc := hc <;> cases hc

/-! ## Literals -/

theorem escape_notMem_quoteChar (c : Char) : '\x1b' ∉ quoteChar c := by
  unfold quoteChar
  split_ifs with hquote hslash hline hreturn htab hnull hvisible hhidden
  all_goals try decide
  · rw [List.mem_singleton]
    rintro rfl
    exact absurd hvisible (by decide)
  · simp [escapeCodePoint, lowerHex, escape_notMem_toDigits]
  · rw [List.mem_singleton]
    rintro rfl
    exact absurd hhidden (by decide)

theorem clear_quote (s : String) : Clear (quote s) := by
  rw [quote, clear_ofList]
  simp [escape_notMem_quoteChar]

theorem escape_notMem_escapeByte (b : UInt8) : '\x1b' ∉ escapeByte b := by
  have hall : ∀ n < 256, '\x1b' ∉ escapeByte (UInt8.ofNat n) := by decide +kernel
  have hb := hall b.toNat b.toNat_lt
  rwa [UInt8.ofNat_toNat] at hb

theorem clear_formatBytes (bytes : List UInt8) : Clear (formatBytes bytes) := by
  rw [formatBytes, clear_ofList]
  simp [escape_notMem_escapeByte]

theorem clear_exponentText (layout : FloatLayout) (exponent : Int) :
    Clear (exponentText layout exponent) := by
  rw [exponentText, clear_append, clear_append]
  refine ⟨⟨by decide, ?_⟩, clear_toString_int exponent⟩
  split <;> decide

/-- A decimal is written in digits, zeros, a point and an exponent. -/
theorem clear_layoutDecimal (layout : FloatLayout) (d : Decimal) :
    Clear (layoutDecimal layout d) := by
  have hdigits : Clear (toString d.digits) := clear_toString_nat d.digits
  have hzeros : ∀ n, Clear (String.ofList (List.replicate n '0')) := by simp
  have htake : ∀ n, Clear (String.ofList ((toString d.digits).toList.take n)) := fun n =>
    clear_ofList.mpr fun hmem => hdigits (List.mem_of_mem_take hmem)
  have hdrop : ∀ n, Clear (String.ofList ((toString d.digits).toList.drop n)) := fun n =>
    clear_ofList.mpr fun hmem => hdigits (List.mem_of_mem_drop hmem)
  have hexponent := clear_exponentText layout
  unfold layoutDecimal
  dsimp only
  split_ifs <;> simp only [clear_append, hdigits, hzeros, htake, hdrop, hexponent, and_true,
    true_and] <;> decide

/-- In every layout there are digits or a point. -/
theorem shows_layoutDecimal (layout : FloatLayout) (d : Decimal) :
    Shows (layoutDecimal layout d) := by
  have hpoint : Shows "." := by decide
  have hzero : Shows "0." := by decide
  unfold layoutDecimal
  dsimp only
  split_ifs <;> simp only [shows_append, shows_toString_nat, hpoint, hzero, true_or, or_true]

theorem clear_formatFloat (x : Float) : Clear (formatFloat x) := by
  have hsign : ∀ p [Decidable p], Clear (if p then "-" else "") := by
    intro p _
    split <;> decide
  unfold formatFloat formatFloatIn
  dsimp only
  split
  · decide
  split
  · exact clear_append.mpr ⟨hsign _, by decide⟩
  split
  · exact clear_append.mpr ⟨hsign _, by decide⟩
  · exact clear_append.mpr ⟨hsign _, clear_layoutDecimal _ _⟩

theorem shows_formatFloat (x : Float) : Shows (formatFloat x) := by
  unfold formatFloat formatFloatIn
  dsimp only
  split
  · decide
  split
  · exact shows_append.mpr (.inr (by decide))
  split
  · exact shows_append.mpr (.inr (by decide))
  · exact shows_append.mpr (.inr (shows_layoutDecimal _ _))

end Text

/-! ## Operands -/

/-- The names in an operand that listings show as they are. -/
def Operand.bareNames : Operand → List String
  | .names list => list
  | .function info => info.name.toList
  | .classInfo info => [info.name]
  | _ => []

theorem UnaryOperator.name_shows (operator : UnaryOperator) :
    Text.Clear operator.name ∧ Text.Shows operator.name := by
  cases operator <;> decide

theorem BinaryOperator.name_shows (operator : BinaryOperator) :
    Text.Clear operator.name ∧ Text.Shows operator.name := by
  cases operator <;> decide

namespace Instruction

open Text

variable {op : Op}

/-- The operand of an operation is clear if the names in it are. -/
theorem clear_operandText (offset : Nat) (hnames : ∀ name ∈ op.operand.bareNames, Clear name) :
    Clear (operandText op offset) := by
  unfold operandText
  cases hop : op.operand with
  | none => exact List.not_mem_nil
  | integer n => exact clear_toString_int _
  | float x => exact clear_formatFloat _
  | string s => exact clear_quote s
  | bytes content => exact clear_formatBytes content
  | names list =>
    rw [hop] at hnames
    have hjoined : Clear (", ".intercalate list) := clear_intercalate (by decide) hnames
    simp only [clear_append, hjoined]
    decide
  | count n => exact clear_toString_nat n
  | offset n =>
    have htarget : Clear ((jumpTarget? op offset n).elim "?" (zeroPadded 4)) := by
      cases jumpTarget? op offset n with
      | none => decide
      | some target => exact clear_zeroPadded 4 target
    simp only [clear_append, clear_padRight (clear_toString_nat n), htarget]
    decide
  | unary operator => exact operator.name_shows.1
  | binary operator => exact operator.name_shows.1
  | function info =>
    have hname : Clear (info.name.getD "<lambda>") := by
      cases hinfo : info.name with
      | none => decide
      | some name => exact hnames name (by simp [hop, Operand.bareNames, hinfo])
    simp only [clear_append, clear_toString_nat, hname]
    decide
  | classInfo info =>
    have hname : Clear info.name := hnames _ (by simp [hop, Operand.bareNames])
    simp only [clear_append, clear_toString_nat, hname]
    decide
  | generator info =>
    simp only [clear_append, clear_toString_nat]
    decide

/-- An operand that there is shows something. -/
theorem shows_operandText (offset : Nat) (hop : op.operand ≠ .none) :
    Shows (operandText op offset) := by
  have hclose : Shows ")" := by decide
  unfold operandText
  cases hoperand : op.operand with
  | none => exact absurd hoperand hop
  | integer n => exact shows_toString_int _
  | float x => exact shows_formatFloat _
  | string s => exact ⟨'"', by simp [quote], by decide⟩
  | bytes content => exact ⟨'b', by simp [formatBytes], by decide⟩
  | names list => exact shows_append.mpr (.inr hclose)
  | count n => exact shows_toString_nat n
  | offset n => exact shows_append.mpr (.inr hclose)
  | unary operator => exact operator.name_shows.2
  | binary operator => exact operator.name_shows.2
  | function info => exact shows_append.mpr (.inr hclose)
  | classInfo info => exact shows_append.mpr (.inr hclose)
  | generator info => exact shows_append.mpr (.inr hclose)

end Instruction

/-! ## Color sequences -/

/-- Whether a character may stand among the numbers of a color sequence. -/
def isParameter (c : Char) : Bool := c.isDigit || c = ';'

/-- How many characters the color sequence takes that a text starts with; zero if there is none. -/
def colorLength : List Char → Nat
  | '\x1b' :: '[' :: rest =>
    if (rest.dropWhile isParameter).head? = some 'm' then (rest.takeWhile isParameter).length + 3
    else 0
  | _ => 0

/-- The characters after some that are skipped, without color sequences. -/
def deleteFrom : Nat → List Char → List Char
  | _, [] => []
  | skipped + 1, _ :: rest => deleteFrom skipped rest
  | 0, c :: rest =>
    if colorLength (c :: rest) = 0 then c :: deleteFrom 0 rest
    else deleteFrom (colorLength (c :: rest) - 1) rest

/-- A text without its color sequences. -/
def deleteColors (s : String) : String := String.ofList (deleteFrom 0 s.toList)

open Text

section sequences

variable {s t numbers : String} {cs : List Char}

theorem deleteFrom_eq_drop (n : Nat) : deleteFrom n cs = deleteFrom 0 (cs.drop n) := by
  induction n generalizing cs with
  | zero => rw [List.drop_zero]
  | succ n ih =>
    cases cs with
    | nil => simp [deleteFrom]
    | cons c cs => rw [deleteFrom, ih, List.drop_succ_cons]

/-- Color sequences start with the escape character. -/
theorem colorLength_of_ne {c : Char} (hc : c ≠ '\x1b') : colorLength (c :: cs) = 0 := by
  unfold colorLength
  split
  · rename_i hcons
    cases hcons
    exact absurd rfl hc
  · rfl

/-- A clear text in front is kept. -/
theorem deleteColors_append (hs : Clear s) : deleteColors (s ++ t) = s ++ deleteColors t := by
  have hlist : ∀ front : List Char, '\x1b' ∉ front → ∀ rest,
      deleteFrom 0 (front ++ rest) = front ++ deleteFrom 0 rest := by
    intro front hfront rest
    induction front with
    | nil => rfl
    | cons c front ih =>
      rw [List.mem_cons, not_or] at hfront
      rw [List.cons_append, deleteFrom, if_pos (colorLength_of_ne (Ne.symm hfront.1)),
        ih hfront.2, List.cons_append]
  rw [deleteColors, String.toList_append, hlist s.toList hs, String.ofList_append,
    String.ofList_toList, deleteColors]

theorem deleteColors_of_clear (hs : Clear s) : deleteColors s = s := by
  have happend := deleteColors_append (t := "") hs
  rwa [String.append_empty, show deleteColors "" = "" from rfl, String.append_empty] at happend

/-- A color sequence in front is deleted. -/
theorem deleteColors_sequence (hnumbers : numbers.toList.all isParameter = true) :
    deleteColors ("\x1b[" ++ numbers ++ "m" ++ s) = deleteColors s := by
  have hlist : ("\x1b[" ++ numbers ++ "m" ++ s).toList =
      '\x1b' :: '[' :: (numbers.toList ++ 'm' :: s.toList) := by
    simp
  have hlength : colorLength ('\x1b' :: '[' :: (numbers.toList ++ 'm' :: s.toList)) =
      numbers.toList.length + 3 := by
    rw [List.all_eq_true] at hnumbers
    rw [colorLength, List.dropWhile_append_of_pos hnumbers, List.takeWhile_append_of_pos hnumbers]
    simp [show isParameter 'm' = false from rfl]
  rw [deleteColors, hlist, deleteFrom, hlength, if_neg (Nat.succ_ne_zero _), deleteFrom_eq_drop,
    deleteColors]
  simp

end sequences

/-! ## Painted texts -/

/-- How many characters a style adds to a text that do not show. -/
def Style.hidden : Style → Nat
  | some numbers => numbers.length + 7
  | none => 0

/-- A style is made of numbers. -/
def Style.Proper (style : Style) : Prop :=
  ∀ numbers ∈ style, numbers.toList.all isParameter = true

theorem OpFamily.proper_style (family : OpFamily) : Style.Proper family.style := by
  unfold Style.Proper
  cases family <;> decide

theorem OpFamily.hidden_style_eq_zero_iff (family : OpFamily) :
    Style.hidden family.style = 0 ↔ family = .plain := by
  cases family <;> decide

section paint

variable {style : Style} {s front tail : String}

theorem length_paint : (paint true style s).length = s.length + Style.hidden style := by
  cases style with
  | none => rfl
  | some numbers =>
    simp only [paint, Style.hidden, String.length_append]
    have hopen : "\x1b[".length = 2 := rfl
    have hclose : "\x1b[0m".length = 4 := rfl
    have hend : "m".length = 1 := rfl
    omega

/-- Between clear texts, only the text remains of a painted one. -/
theorem deleteColors_paint (hstyle : Style.Proper style) (hfront : Clear front) (hs : Clear s)
    (htail : Clear tail) :
    deleteColors (front ++ paint true style s ++ tail) = front ++ s ++ tail := by
  cases style with
  | none => exact deleteColors_of_clear (by simp [hfront, paint, hs, htail])
  | some numbers =>
    have hreset : "\x1b[0m" = "\x1b[" ++ "0" ++ "m" := rfl
    have hpainted : front ++ paint true (some numbers) s ++ tail =
        front ++ ("\x1b[" ++ numbers ++ "m" ++ (s ++ ("\x1b[0m" ++ tail))) := by
      simp only [paint, String.append_assoc]
    rw [hpainted, deleteColors_append hfront, deleteColors_sequence (hstyle numbers rfl),
      deleteColors_append hs, hreset, deleteColors_sequence (by decide),
      deleteColors_of_clear htail, String.append_assoc]

end paint

/-! ## Columns -/

section columns

variable {s t name operand line : String} {offset width : Nat}

/-- A text ends with something else than a space. -/
def Text.Ends (s : String) : Prop := ∃ c ∈ s.toList.getLast?, c ≠ ' '

instance (s : String) : Decidable (Ends s) :=
  decidable_of_iff ((s.toList.getLast?.any (· ≠ ' ')) = true) (by simp [Ends, Option.any_eq_true])

theorem Text.Ends.append (ht : Ends t) : Ends (s ++ t) := by
  obtain ⟨c, hlast, hc⟩ := ht
  refine ⟨c, ?_, hc⟩
  rw [Option.mem_def] at hlast ⊢
  rw [String.toList_append, List.getLast?_append, hlast, Option.some_or]

/-- Spaces are dropped behind a text that does not end with one. -/
theorem dropTrailingSpaces_append_of_ends (hs : Ends s) :
    dropTrailingSpaces (s ++ t) = s ++ dropTrailingSpaces t := by
  obtain ⟨c, hlast, hc⟩ := hs
  obtain ⟨cs, hlist⟩ := List.getLast?_eq_some_iff.mp hlast
  rw [← String.toList_inj]
  simp only [dropTrailingSpaces, String.toList_append, String.toList_ofList, List.reverse_append,
    List.dropWhile_append, hlist]
  split
  · rename_i hempty
    rw [List.isEmpty_iff] at hempty
    simp [hempty, hc]
  · simp

/-- Spaces are dropped from what shows something and leave what stands in front of it. -/
theorem dropTrailingSpaces_append_of_shows (ht : Shows t) :
    dropTrailingSpaces (s ++ t) = s ++ dropTrailingSpaces t := by
  obtain ⟨c, hc, hspace⟩ := ht
  have hne : ¬((t.toList.reverse.dropWhile fun c => c = ' ').isEmpty = true) := by
    simp only [List.isEmpty_iff, List.dropWhile_eq_nil_iff, not_forall]
    exact ⟨c, by simpa using hc, by simpa using hspace⟩
  rw [← String.toList_inj]
  simp only [dropTrailingSpaces, String.toList_append, String.toList_ofList, List.reverse_append,
    List.dropWhile_append, if_neg hne, List.reverse_reverse]

theorem clear_dropTrailingSpaces (hs : Clear s) : Clear (dropTrailingSpaces s) := by
  rw [dropTrailingSpaces, clear_ofList, List.mem_reverse]
  exact fun hmem => hs (List.mem_reverse.mp ((List.dropWhile_sublist _).mem hmem))

/-- A number of spaces. -/
def blanks (n : Nat) : String := String.ofList (List.replicate n ' ')

theorem clear_blanks (n : Nat) : Clear (blanks n) := by
  simp [blanks]

@[simp] theorem length_blanks (n : Nat) : (blanks n).length = n := by
  simp [blanks]

/-- A line is what stands in front of the name, the name, and what is left behind it. -/
theorem Instruction.assemble_padRight (hname : Ends name) :
    assemble offset line (padRight width name) operand =
      zeroPadded 4 offset ++ " " ++ line ++ " " ++ name ++
        dropTrailingSpaces (blanks (width - name.length) ++ " " ++ operand) := by
  have hline : zeroPadded 4 offset ++ " " ++ line ++ " " ++ padRight width name ++ " " ++ operand =
      zeroPadded 4 offset ++ " " ++ line ++ " " ++ name ++
        (blanks (width - name.length) ++ " " ++ operand) := by
    simp only [padRight, blanks, String.append_assoc]
  rw [assemble, hline, dropTrailingSpaces_append_of_ends hname.append]

/-- Two widths make the same line if they are the same beyond the name or there is no operand. -/
theorem Instruction.assemble_eq_iff {width' : Nat} (hname : Ends name)
    (hoperand : operand = "" ∨ Shows operand) :
    assemble offset line (padRight width name) operand =
        assemble offset line (padRight width' name) operand ↔
      width - name.length = width' - name.length ∨ operand = "" := by
  have hspaces : ∀ n, dropTrailingSpaces (blanks n ++ " " ++ "") = "" := by
    intro n
    rw [← String.toList_inj]
    simp [dropTrailingSpaces, blanks]
  rw [assemble_padRight hname, assemble_padRight hname]
  constructor
  · intro hsame
    obtain hoperand | hoperand := hoperand
    · exact .inr hoperand
    · have hlength := congrArg String.length hsame
      simp only [dropTrailingSpaces_append_of_shows hoperand, String.length_append,
        length_blanks] at hlength
      left
      omega
  · rintro (hwidth | rfl)
    · rw [hwidth]
    · rw [hspaces, hspaces]

end columns

/-! ## Lines -/

/-- Every mnemonic is clear, ends with a letter and leaves room in its column. -/
theorem Op.mnemonic_fits (op : Op) :
    Clear op.mnemonic ∧ Ends op.mnemonic ∧ op.mnemonic.length < 20 := by
  cases op <;>
  · simp only [Op.mnemonic]
    decide

theorem Instruction.clear_lineColumn (line : Option Nat) : Clear (lineColumn line) := by
  cases line with
  | none => decide
  | some n => exact clear_padLeft (by decide) (clear_toString_nat n)

/-- A listing has one line for each instruction, made with the line of the one before. -/
theorem getElem?_listingFrom (colored : Bool) (previous : Option Nat) (offset : Nat)
    (code : List Instruction) (k : Nat) :
    (listingFrom colored previous offset code)[k]? = code[k]?.map fun i =>
      i.formatAfter colored (if k = 0 then previous else code[k - 1]?.bind Instruction.line)
        (offset + k) := by
  induction code generalizing previous offset k with
  | nil => rfl
  | cons i code ih =>
    cases k with
    | zero => rfl
    | succ k =>
      have hprevious : (if k = 0 then i.line else code[k - 1]?.bind Instruction.line) =
          (i :: code)[k]?.bind Instruction.line := by
        cases k <;> rfl
      rw [listingFrom, List.getElem?_cons_succ, ih, List.getElem?_cons_succ, hprevious,
        if_neg (Nat.succ_ne_zero k), Nat.add_sub_cancel, Nat.add_right_comm, Nat.add_assoc]

theorem length_listingFrom (colored : Bool) (previous : Option Nat) (offset : Nat)
    (code : List Instruction) :
    (listingFrom colored previous offset code).length = code.length := by
  induction code generalizing previous offset with
  | nil => rfl
  | cons i code ih => rw [listingFrom, List.length_cons, ih, List.length_cons]

namespace View

variable {v : View} {k : Nat} {i : Instruction}

/-- The column of the source line at a position: a bar where the line of the instruction before
repeats itself. -/
def lineColumn (v : View) (k : Nat) (i : Instruction) : String :=
  if 0 < k && i.line.isSome && (v.instructions[k - 1]?.bind Instruction.line) == i.line then "   |"
  else Instruction.lineColumn i.line

theorem clear_lineColumn (v : View) (k : Nat) (i : Instruction) : Clear (v.lineColumn k i) := by
  unfold lineColumn
  split
  · decide
  · exact Instruction.clear_lineColumn i.line

/-- What a line of a listing consists of. -/
theorem getElem?_listing (colored : Bool) (hi : v.instructions[k]? = some i) :
    (v.listing colored)[k]? = some (Instruction.assemble k (v.lineColumn k i)
      (padRight 20 (paint colored (OpFamily.style i.op.family) i.op.mnemonic))
      (Instruction.operandText i.op k)) := by
  rw [listing, getElem?_listingFrom, hi, Option.map_some, Nat.zero_add, Instruction.formatAfter,
    lineColumn]
  cases k <;> rfl

/-- A colored line without its color sequences: the column of the mnemonic is narrower by what does
not show. -/
theorem deleteColors_assemble (line : String) (hline : Clear line)
    (hnames : ∀ name ∈ i.op.operand.bareNames, Clear name) :
    deleteColors (Instruction.assemble k line
        (padRight 20 (paint true (OpFamily.style i.op.family) i.op.mnemonic))
        (Instruction.operandText i.op k)) =
      Instruction.assemble k line (padRight (20 - Style.hidden i.op.family.style) i.op.mnemonic)
        (Instruction.operandText i.op k) := by
  obtain ⟨hclear, hends, -⟩ := i.op.mnemonic_fits
  have hpainted : Ends (paint true (OpFamily.style i.op.family) i.op.mnemonic) := by
    cases OpFamily.style i.op.family with
    | none => exact hends
    | some numbers => exact Ends.append (by decide)
  have hfront : Clear (zeroPadded 4 k ++ " " ++ line ++ " ") := by
    simp only [clear_append, clear_zeroPadded, hline]
    decide
  have htail : ∀ n,
      Clear (dropTrailingSpaces (blanks n ++ " " ++ Instruction.operandText i.op k)) := by
    intro n
    refine clear_dropTrailingSpaces ?_
    simp only [clear_append, clear_blanks, Instruction.clear_operandText k hnames]
    decide
  rw [Instruction.assemble_padRight hpainted, Instruction.assemble_padRight hends, length_paint,
    deleteColors_paint i.op.family.proper_style hfront hclear (htail _), Nat.sub_sub,
    Nat.add_comm i.op.mnemonic.length]

/-- A colored listing without its color sequences has the lines of the plain one, in which the
operands stand to the left by what the sequences take: a line is the same exactly if its operation
is not colored or has no operand. -/
theorem listing_colored (v : View)
    (hnames : ∀ i ∈ v.instructions, ∀ name ∈ i.op.operand.bareNames, Clear name) :
    (v.listing true).length = (v.listing false).length ∧
    ∀ k i, v.instructions[k]? = some i →
      (v.listing false)[k]? = some (Instruction.assemble k (v.lineColumn k i)
        (padRight 20 i.op.mnemonic) (Instruction.operandText i.op k)) ∧
      (v.listing true)[k]?.map deleteColors = some (Instruction.assemble k (v.lineColumn k i)
        (padRight (20 - Style.hidden i.op.family.style) i.op.mnemonic)
        (Instruction.operandText i.op k)) ∧
      ((v.listing true)[k]?.map deleteColors = (v.listing false)[k]? ↔
        i.op.family = .plain ∨ i.op.operand = .none) := by
  refine ⟨by rw [listing, listing, length_listingFrom, length_listingFrom], fun k i hi => ?_⟩
  have hplain := getElem?_listing false hi
  have hcolored := congrArg (Option.map deleteColors) (getElem?_listing true hi)
  rw [Option.map_some, deleteColors_assemble _ (v.clear_lineColumn k i)
    (hnames i (List.mem_of_getElem? hi))] at hcolored
  refine ⟨hplain, hcolored, ?_⟩
  obtain ⟨-, hends, hfits⟩ := i.op.mnemonic_fits
  have hnone : i.op.operand = .none ↔ Instruction.operandText i.op k = "" := by
    constructor
    · intro hop
      rw [Instruction.operandText, hop]
    · intro hempty
      by_contra hop
      obtain ⟨c, hc, -⟩ := Instruction.shows_operandText k hop
      rw [hempty] at hc
      cases hc
  have hoperand : Instruction.operandText i.op k = "" ∨ Shows (Instruction.operandText i.op k) :=
    (em (i.op.operand = .none)).imp hnone.mp (Instruction.shows_operandText k)
  have hwidth : 20 - Style.hidden i.op.family.style - i.op.mnemonic.length =
      20 - i.op.mnemonic.length ↔ Style.hidden i.op.family.style = 0 := by
    omega
  rw [hcolored, hplain, Option.some.injEq, show paint false (OpFamily.style i.op.family)
    i.op.mnemonic = i.op.mnemonic from rfl, Instruction.assemble_eq_iff hends hoperand, hwidth,
    OpFamily.hidden_style_eq_zero_iff, hnone]

/-- An instruction without a name in it: its operand moves nine columns to the left. -/
theorem listing_colored_newInteger :
    let v := View.ofList [⟨.newInteger 5, some 1⟩]
    (v.listing false)[0]? = some "0000    1 NEW_INTEGER          5" ∧
      (v.listing true)[0]?.map deleteColors = some "0000    1 NEW_INTEGER 5" := by
  intro v
  have hlines := (listing_colored (View.ofList [⟨.newInteger 5, some 1⟩]) (by decide +kernel)).2 0
    ⟨.newInteger 5, some 1⟩ rfl
  exact ⟨by decide +kernel, hlines.2.1.trans (by decide +kernel)⟩

/-- A listing whose columns move when it is colored, although no name is in it. -/
theorem listing_colored_moves :
    let v := View.ofList [⟨.newInteger 5, some 1⟩]
    (∀ i ∈ v.instructions, ∀ name ∈ i.op.operand.bareNames, Clear name) ∧
      (v.listing true).map deleteColors ≠ v.listing false := by
  decide +kernel

end View

end ScriptVM
