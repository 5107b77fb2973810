import Mathlib.Data.List.TakeDrop
import Mathlib.Tactic.SplitIfs
import ScriptVM.Proofs.Saved.Image
import ScriptVM.Proofs.Text.Decimal
import ScriptVM.Saved.Store

/-!
# Code in the text form

The reader of the text form inverts its printer on the trees that images of float-free code are.
Of a printed tree the reader takes all and no more, because behind it stands a comma, the end of
a line or nothing, and none of these continues a number. An escaped character is read as itself,
and what separates two items or closes a list is never the start of an item.
-/
namespace ScriptVM
namespace Json

open Text (isDigit_iff digitsFrom?_of_isDigit isDigit_toDigits exists_cons_toDigits toList_toString
  exists_cons_toString)

/-! ## Strings -/

section strings

variable {rest : List Char}

theorem readPieces?_plain {c : Char} (hquote : c ≠ '"') (hslash : c ≠ '\\')
    (hcontrol : ¬ c.toNat < 32) :
    readPieces? (c :: rest) = addPiece? (some (.char c)) (readPieces? rest) := by
  rw [readPieces?.eq_def]
  simp [hquote, hslash, hcontrol]

theorem readPieces?_escaped {e c : Char} (he : e ≠ 'u') (hc : escaped? e = some c) :
    readPieces? ('\\' :: e :: rest) = addPiece? (some (.char c)) (readPieces? rest) := by
  rw [readPieces?.eq_def]
  simp [he, hc]

theorem readPieces?_hex {a b c d : Char} {piece : StringPiece}
    (h : hexPiece? [a, b, c, d] = some piece) :
    readPieces? ('\\' :: 'u' :: a :: b :: c :: d :: rest) =
      addPiece? (some piece) (readPieces? rest) := by
  rw [← h]
  rfl

/-- The digits of a control character. -/
theorem hexPiece?_control {n : Nat} (h : n < 32) :
    hexPiece? ['0', '0', Nat.digitChar (n / 16), Nat.digitChar (n % 16)] =
      some (.char (Char.ofNat n)) := by
  have hdigits : ∀ n < 32, Text.natural? 16 ['0', '0', Nat.digitChar (n / 16),
      Nat.digitChar (n % 16)] = some n := by decide
  rw [hexPiece?, hdigits n h, Option.map_some, if_neg (by omega)]

/-- A printed character is read as that character. -/
theorem readPieces?_escapeChar (c : Char) :
    readPieces? (escapeChar c ++ rest) = addPiece? (some (.char c)) (readPieces? rest) := by
  unfold escapeChar
  split_ifs with hquote hslash hback hfeed hline hreturn htab hcontrol
  · subst hquote
    exact readPieces?_escaped (by decide) rfl
  · subst hslash
    exact readPieces?_escaped (by decide) rfl
  · obtain rfl : c = '\x08' := Char.toNat_inj.1 hback
    exact readPieces?_escaped (by decide) rfl
  · obtain rfl : c = '\x0c' := Char.toNat_inj.1 hfeed
    exact readPieces?_escaped (by decide) rfl
  · subst hline
    exact readPieces?_escaped (by decide) rfl
  · subst hreturn
    exact readPieces?_escaped (by decide) rfl
  · subst htab
    exact readPieces?_escaped (by decide) rfl
  · have hhex := hexPiece?_control hcontrol
    rw [Char.ofNat_toNat] at hhex
    exact readPieces?_hex hhex
  · exact readPieces?_plain hquote hslash hcontrol

theorem joinPieces?_map_char (cs : List Char) :
    joinPieces? (cs.map StringPiece.char) = some cs := by
  induction cs with
  | nil => rfl
  | cons c cs ih => simp [joinPieces?, ih]

theorem readPieces?_flatMap (cs : List Char) :
    readPieces? (cs.flatMap escapeChar ++ '"' :: rest) = some (cs.map StringPiece.char, rest) := by
  induction cs with
  | nil =>
    rw [List.flatMap_nil, List.nil_append, readPieces?.eq_def]
    rfl
  | cons c cs ih =>
    rw [List.flatMap_cons, List.append_assoc, readPieces?_escapeChar, ih]
    rfl

/-- A printed string is read as that string, quotes, backslashes and control characters
included. -/
theorem readString?_printString (s : String) (rest : List Char) :
    ∃ cs, printString s ++ rest = '"' :: cs ∧ readString? cs = some (.text s, rest) := by
  refine ⟨s.toList.flatMap escapeChar ++ '"' :: rest, by simp [printString], ?_⟩
  simp [readString?, readPieces?_flatMap, joinPieces?_map_char]

end strings

/-! ## Numbers -/

/-- Whether a text does not continue what was printed in front of it. -/
def Stops (rest : List Char) : Prop := ∀ c ∈ rest.head?, c = ',' ∨ c = '\n'

section numbers

variable {rest : List Char}

theorem Stops.dropWhile_digits (h : Stops rest) :
    rest.takeWhile (fun c => '0' ≤ c && c ≤ '9') = [] ∧
      rest.dropWhile (fun c => '0' ≤ c && c ≤ '9') = rest := by
  cases rest with
  | nil => exact ⟨rfl, rfl⟩
  | cons c rest => obtain rfl | rfl := h c rfl <;> exact ⟨rfl, rfl⟩

theorem Stops.readFraction? (h : Stops rest) : readFraction? rest = some (none, rest) := by
  cases rest with
  | nil => rfl
  | cons c rest => obtain rfl | rfl := h c rfl <;> rfl

theorem Stops.readExponent? (h : Stops rest) : readExponent? rest = some (none, rest) := by
  cases rest with
  | nil => rfl
  | cons c rest => obtain rfl | rfl := h c rfl <;> rfl

theorem spanDigits_append {digits : List Char} (hdigits : ∀ c ∈ digits, c.isDigit)
    (hrest : Stops rest) : Text.spanDigits (digits ++ rest) = (digits, rest) := by
  have hall : ∀ c ∈ digits, ('0' ≤ c && c ≤ '9') = true := by
    simpa [isDigit_iff] using hdigits
  rw [Text.spanDigits, List.span_eq_takeWhile_dropWhile, List.takeWhile_append_of_pos hall,
    List.dropWhile_append_of_pos hall, hrest.dropWhile_digits.1, hrest.dropWhile_digits.2,
    List.append_nil]

/-- The digits of a number have its value. -/
theorem digitsValue_toDigits (n : Nat) : Text.digitsValue (Nat.toDigits 10 n) = n := by
  rw [Text.digitsValue, digitsFrom?_of_isDigit (isDigit_toDigits n),
    Nat.ofDigitChars_ten_toDigits, Option.getD_some]

/-- Only zero is written with a zero in front. -/
theorem eq_zero_of_head?_toDigits {n : Nat} (h : (Nat.toDigits 10 n).head? = some '0') :
    n = 0 := by
  induction n using Nat.base_induction 10 (by decide) with
  | single n hn => simpa [Nat.toDigits_of_lt_base hn] using h
  | digit n k hk hn ih =>
    obtain ⟨c, digits, hdigits, -⟩ := exists_cons_toDigits n
    rw [← Nat.toDigits_append_toDigits (by decide) hn hk, hdigits, List.cons_append,
      List.head?_cons] at h
    rw [hdigits, List.head?_cons] at ih
    have hzero := ih h
    omega

/-- A number is not written with zeros in front. -/
theorem leading_toDigits (n : Nat) : ((Nat.toDigits 10 n).isEmpty ||
    ((Nat.toDigits 10 n).head? = some '0' && 1 < (Nat.toDigits 10 n).length)) = false := by
  by_cases hhead : (Nat.toDigits 10 n).head? = some '0'
  · rw [eq_zero_of_head?_toDigits hhead]
    rfl
  · simp [hhead, Nat.toDigits_ne_nil]

/-- The digits of a number are read as a whole number. -/
theorem readNumber?_toDigits (n : Nat) (h : Stops rest) :
    readNumber? (Nat.toDigits 10 n ++ rest) =
      some ((wholeNumber? false (Nat.toDigits 10 n)).getD .opaqueData, rest) := by
  have hsign : ∀ cs, Nat.toDigits 10 n ++ rest ≠ '-' :: cs := by
    obtain ⟨c, digits, hcons, hdigit⟩ := exists_cons_toDigits n
    intro cs hcs
    rw [hcons, List.cons_append, List.cons.injEq] at hcs
    rw [hcs.1] at hdigit
    cases hdigit
  unfold readNumber?
  split
  rename_i hmatch
  split at hmatch
  · rename_i hcs
    exact absurd hcs (hsign _)
  · cases hmatch
    simp [spanDigits_append (isDigit_toDigits n) h, leading_toDigits, h.readFraction?,
      h.readExponent?]

/-- The digits of a number behind a sign are read as a negative one. -/
theorem readNumber?_minus (n : Nat) (h : Stops rest) :
    readNumber? ('-' :: (Nat.toDigits 10 n ++ rest)) =
      some ((wholeNumber? true (Nat.toDigits 10 n)).getD .opaqueData, rest) := by
  simp [readNumber?, spanDigits_append (isDigit_toDigits n) h, leading_toDigits, h.readFraction?,
    h.readExponent?]

/-- A printed integer of 64 bits, signed or unsigned, is read as that integer. -/
theorem readNumber?_toString {n : Int} (hlow : -0x8000000000000000 ≤ n)
    (hhigh : n < 0x10000000000000000) (h : Stops rest) :
    readNumber? ((toString n).toList ++ rest) = some (.integer n, rest) := by
  rw [toList_toString]
  split_ifs with hsign
  · have hvalue : Int.ofNat n.toNat = n := Int.toNat_of_nonneg hsign
    have hfits : n.toNat ≤ Text.maxCount := by
      rw [Text.maxCount]
      omega
    rw [readNumber?_toDigits n.toNat h]
    simp only [wholeNumber?, digitsValue_toDigits, Bool.false_eq_true, if_false, if_pos hfits,
      Int.ofNat_eq_natCast] at hvalue ⊢
    rw [hvalue, Option.getD_some]
  · have hfits : 0 < (-n).toNat ∧ (-n).toNat ≤ 0x8000000000000000 := by omega
    have hvalue : -(Int.ofNat (-n).toNat) = n := by
      simp only [Int.ofNat_eq_natCast]
      omega
    rw [List.cons_append, readNumber?_minus (-n).toNat h]
    simp only [wholeNumber?, digitsValue_toDigits, if_true, if_pos hfits, hvalue, Option.getD_some]

end numbers

/-! ## Blanks -/

section blanks

variable {rest : List Char}

/-- Whether a text starts with something else than a blank or a closing bracket. -/
def Starts (cs : List Char) : Prop := ∃ c rest, cs = c :: rest ∧ isSpace c = false ∧ c ≠ ']'

theorem skipSpace_of_isSpace {c : Char} (h : isSpace c = false) :
    skipSpace (c :: rest) = c :: rest := by
  simp [skipSpace, h]

theorem Starts.skipSpace {cs : List Char} (h : Starts cs) : skipSpace cs = cs := by
  obtain ⟨c, rest, rfl, hspace, -⟩ := h
  exact skipSpace_of_isSpace hspace

theorem Starts.append {cs : List Char} (h : Starts cs) (rest : List Char) :
    Starts (cs ++ rest) := by
  obtain ⟨c, tail, rfl, hstart⟩ := h
  exact ⟨c, tail ++ rest, rfl, hstart⟩

@[simp] theorem skipSpace_newLine (level : Nat) :
    skipSpace (newLine level ++ rest) = skipSpace rest := by
  have hall : ∀ c ∈ newLine level, isSpace c = true := by
    simp [newLine, isSpace]
  rw [Json.skipSpace, List.dropWhile_append_of_pos hall]
  rfl

end blanks

/-! ## Trees -/

/-- What the text form can hold: no floats, and texts and lists of every length. -/
def limits : Limits where
  float _ := False
  length _ := True
  short _ _ := trivial

/-- Whether a tree is printed as something that is read back in front of what stops it, given two
steps for each of its characters. -/
structure ReadsBack (t : Tree) : Prop where
  starts : ∀ level, Starts (printTree level t)
  reads : ∀ level fuel rest, Stops rest → 2 * (printTree level t).length ≤ fuel + 2 →
    readTree? (fuel + 1) (printTree level t ++ rest) = some (t, rest)

section trees

theorem ReadsBack.length_pos {t : Tree} (h : ReadsBack t) (level : Nat) :
    0 < (printTree level t).length := by
  obtain ⟨c, rest, hcons, -⟩ := h.starts level
  simp [hcons]

theorem ReadsBack.readTree? {t : Tree} (h : ReadsBack t) (level fuel : Nat) {rest : List Char}
    (hrest : Stops rest) (hfuel : 2 * (printTree level t).length ≤ fuel + 1) :
    readTree? fuel (printTree level t ++ rest) = some (t, rest) := by
  have hpos := h.length_pos level
  obtain ⟨fuel, rfl⟩ : ∃ k, fuel = k + 1 := ⟨fuel - 1, by omega⟩
  exact h.reads level fuel rest hrest hfuel

theorem stops_newLine (level : Nat) (rest : List Char) : Stops (newLine level ++ rest) := by
  rintro c hc
  exact .inr (by simpa [newLine] using hc.symm)

theorem stops_comma (rest : List Char) : Stops (',' :: rest) := by
  rintro c hc
  exact .inl (by simpa using hc.symm)

theorem starts_printString (s : String) : Starts (printString s) :=
  ⟨'"', _, rfl, rfl, by decide⟩

/-- The items of a printed list are read up to the bracket that closes it. -/
theorem readItems?_printItems {first : Tree} {items : List Tree}
    (h : ∀ t ∈ first :: items, ReadsBack t) (level inner fuel : Nat) (rest : List Char)
    (hfuel : 2 * ((printTree level first).length + (printItems level items).length) ≤ fuel) :
    readItems? fuel (printTree level first ++ (printItems level items ++
      (newLine inner ++ ']' :: rest))) = some (first :: items, rest) := by
  induction items generalizing first fuel with
  | nil =>
    have hfirst : ReadsBack first := h first (by simp)
    have hpos := hfirst.length_pos level
    obtain ⟨fuel, rfl⟩ : ∃ k, fuel = k + 1 := ⟨fuel - 1, by omega⟩
    have htree := hfirst.readTree? level fuel (stops_newLine inner (']' :: rest)) (by omega)
    have hclose : skipSpace (']' :: rest) = ']' :: rest := skipSpace_of_isSpace rfl
    simp [readItems?, printItems, htree, hclose]
  | cons item items ih =>
    have hfirst : ReadsBack first := h first (by simp)
    have hitem : ReadsBack item := h item (by simp)
    have hpos := hfirst.length_pos level
    obtain ⟨fuel, rfl⟩ : ∃ k, fuel = k + 1 := ⟨fuel - 1, by omega⟩
    simp only [printItems, List.length_append, List.length_cons] at hfuel
    have htree := hfirst.readTree? level fuel (stops_comma (newLine level ++
      (printTree level item ++ (printItems level items ++ (newLine inner ++ ']' :: rest)))))
      (by omega)
    have hrest : ∀ t ∈ item :: items, ReadsBack t := fun t ht => h t (List.mem_cons_of_mem _ ht)
    have hitems := ih hrest fuel (by omega)
    have hcomma : ∀ cs, skipSpace (',' :: cs) = ',' :: cs := fun _ => skipSpace_of_isSpace rfl
    have hskip := ((hitem.starts level).append (printItems level items ++
      (newLine inner ++ ']' :: rest))).skipSpace
    simp [readItems?, printItems, htree, hcomma, hskip, hitems]

/-- The entries of a map from one that was read on: what comes next says whether more follow. -/
def readBehind? (fuel : Nat) (entry : Tree × Tree) (rest : List Char) :
    Option (List (Tree × Tree) × List Char) :=
  match skipSpace rest with
  | ',' :: rest =>
    (readEntries? fuel (skipSpace rest)).map fun (entries, rest) => (entry :: entries, rest)
  | '\x7d' :: rest => some ([entry], rest)
  | _ => none

/-- One entry is read, and then what comes next decides. -/
theorem readEntries?_entry (s : String) {value : Tree} (h : ReadsBack value) (level fuel : Nat)
    {rest : List Char} (hrest : Stops rest)
    (hfuel : 2 * (printTree level value).length ≤ fuel + 1) :
    readEntries? (fuel + 1) (printString s ++ ':' :: ' ' :: (printTree level value ++ rest)) =
      readBehind? fuel (.text s, value) rest := by
  obtain ⟨cs, hcs, hkey⟩ :=
    readString?_printString s (':' :: ' ' :: (printTree level value ++ rest))
  have hcolon : ∀ cs, skipSpace (':' :: cs) = ':' :: cs := fun _ => skipSpace_of_isSpace rfl
  have hblank : ∀ cs, skipSpace (' ' :: cs) = skipSpace cs := fun _ => rfl
  have hstart := ((h.starts level).append rest).skipSpace
  have hvalue := h.readTree? level fuel hrest hfuel
  rw [hcs, readEntries?]
  simp only [hkey, hcolon, hblank, hstart, hvalue, Option.bind_some, Option.bind_eq_bind]
  rfl

/-- The entries of a printed map are read up to the bracket that closes it. -/
theorem readEntries?_printEntries {s : String} {value : Tree} {entries : List (Tree × Tree)}
    (hvalue : ReadsBack value) (hkeys : ∀ e ∈ entries, ∃ s, e.1 = .text s)
    (hvalues : ∀ e ∈ entries, ReadsBack e.2) (level inner fuel : Nat) (rest : List Char)
    (hfuel : 2 * ((printTree level value).length + (printEntries level entries).length) ≤ fuel) :
    readEntries? fuel (printString s ++ ':' :: ' ' :: (printTree level value ++
      (printEntries level entries ++ (newLine inner ++ '\x7d' :: rest)))) =
      some ((.text s, value) :: entries, rest) := by
  induction entries generalizing s value fuel with
  | nil =>
    have hpos := hvalue.length_pos level
    obtain ⟨fuel, rfl⟩ : ∃ k, fuel = k + 1 := ⟨fuel - 1, by omega⟩
    have hclose : skipSpace ('\x7d' :: rest) = '\x7d' :: rest := skipSpace_of_isSpace rfl
    rw [printEntries, List.nil_append,
      readEntries?_entry s hvalue level fuel (stops_newLine inner _) (by omega), readBehind?,
      skipSpace_newLine, hclose]
    rfl
  | cons e entries ih =>
    obtain ⟨key, next⟩ := e
    obtain ⟨t, rfl⟩ : ∃ t, key = .text t := hkeys (key, next) (by simp)
    have hnext : ReadsBack next := hvalues (.text t, next) (by simp)
    have hpos := hvalue.length_pos level
    obtain ⟨fuel, rfl⟩ : ∃ k, fuel = k + 1 := ⟨fuel - 1, by omega⟩
    simp only [printEntries, List.length_append, List.length_cons] at hfuel
    have hentries := ih (s := t) hnext (fun e he => hkeys e (by simp [he]))
      (fun e he => hvalues e (by simp [he])) fuel (by omega)
    have hcomma : ∀ cs, skipSpace (',' :: cs) = ',' :: cs := fun _ => skipSpace_of_isSpace rfl
    have hskip := ((starts_printString t).append (':' :: ' ' :: (printTree level next ++
      (printEntries level entries ++ (newLine inner ++ '\x7d' :: rest))))).skipSpace
    simp only [printEntries, printKey, List.cons_append, List.append_assoc]
    rw [readEntries?_entry s hvalue level fuel (stops_comma _) (by omega), readBehind?, hcomma]
    simp only [skipSpace_newLine, hskip, hentries, Option.map_some]

theorem printTree_list (level : Nat) (first : Tree) (items : List Tree) :
    printTree level (.list (first :: items)) =
      '[' :: newLine (level + 1) ++ printTree (level + 1) first ++ printItems (level + 1) items ++
        newLine level ++ [']'] := rfl

theorem printTree_map (level : Nat) (s : String) (value : Tree) (entries : List (Tree × Tree)) :
    printTree level (.map ((.text s, value) :: entries)) =
      '\x7b' :: newLine (level + 1) ++ printString s ++ ':' :: ' ' ::
        printTree (level + 1) value ++ printEntries (level + 1) entries ++ newLine level ++
        ['\x7d'] := rfl

theorem readsBack_null : ReadsBack .null :=
  ⟨fun _ => ⟨'n', _, rfl, rfl, by decide⟩, fun _ _ _ _ _ => rfl⟩

theorem readsBack_text (s : String) : ReadsBack (.text s) := by
  refine ⟨fun _ => starts_printString s, fun level fuel rest _ _ => ?_⟩
  obtain ⟨cs, hcs, hread⟩ := readString?_printString s rest
  rw [show printTree level (.text s) = printString s from rfl, hcs, Json.readTree?, if_pos rfl,
    hread]

theorem readsBack_integer {n : Int} (hlow : -0x8000000000000000 ≤ n)
    (hhigh : n < 0x10000000000000000) : ReadsBack (.integer n) := by
  obtain ⟨c, cs, hcons, hc⟩ := exists_cons_toString n
  -- No digit and no sign is a blank or starts a tree of another kind.
  have hother : ∀ d, d ≠ '-' → d.isDigit = false → c ≠ d := by
    rintro d hminus hdigit rfl
    rcases hc with rfl | hc
    · exact hminus rfl
    · rw [hdigit] at hc
      cases hc
  refine ⟨fun level => ⟨c, cs, hcons, ?_, hother ']' (by decide) (by decide)⟩, ?_⟩
  · simp [isSpace, hother ' ' (by decide) (by decide), hother '\n' (by decide) (by decide),
      hother '\t' (by decide) (by decide), hother '\r' (by decide) (by decide)]
  · intro level fuel rest hrest _
    have hread := readNumber?_toString hlow hhigh hrest
    rw [hcons] at hread
    rw [show printTree level (.integer n) = (toString n).toList from rfl, hcons,
      List.cons_append, Json.readTree?,
      if_neg (hother _ (by decide) (by decide)), if_neg (hother _ (by decide) (by decide)),
      if_neg (hother _ (by decide) (by decide)), if_neg (hother _ (by decide) (by decide)),
      if_neg (hother _ (by decide) (by decide)), if_neg (hother _ (by decide) (by decide))]
    exact hread

/-- Behind an opening bracket stand items, unless the list is closed at once. -/
theorem readTree?_openList {fuel level : Nat} {cs : List Char} (h : Starts cs) :
    Json.readTree? (fuel + 1) ('[' :: (newLine level ++ cs)) =
      (readItems? fuel cs).map fun (items, rest) => (.list items, rest) := by
  have hskip := h.skipSpace
  obtain ⟨c, rest, rfl, -, hne⟩ := h
  rw [Json.readTree?, if_neg (by decide), if_pos rfl, skipSpace_newLine, hskip]
  split
  · rename_i heq
    cases heq
    exact absurd rfl hne
  · rfl

/-- Behind an opening brace stand entries, if a key comes next. -/
theorem readTree?_openMap {fuel level : Nat} (s : String) (cs : List Char) :
    Json.readTree? (fuel + 1) ('\x7b' :: (newLine level ++ (printString s ++ cs))) =
      (readEntries? fuel (printString s ++ cs)).map fun (entries, rest) =>
        (.map entries, rest) := by
  rw [Json.readTree?, if_neg (by decide), if_neg (by decide), if_pos rfl, skipSpace_newLine,
    ((starts_printString s).append cs).skipSpace]
  rfl

theorem readsBack_list {items : List Tree} (h : ∀ t ∈ items, ReadsBack t) :
    ReadsBack (.list items) := by
  cases items with
  | nil => exact ⟨fun _ => ⟨'[', _, rfl, rfl, by decide⟩, fun _ _ _ _ _ => rfl⟩
  | cons first items =>
    refine ⟨fun _ => ⟨'[', _, rfl, rfl, by decide⟩, fun level fuel rest _ hfuel => ?_⟩
    simp only [printTree_list, List.length_append, List.length_cons] at hfuel
    have hitems := readItems?_printItems h (level + 1) level fuel rest (by omega)
    have hfirst : ReadsBack first := h first (by simp)
    have hstart := (hfirst.starts (level + 1)).append (printItems (level + 1) items ++
      (newLine level ++ ']' :: rest))
    simp only [printTree_list, List.cons_append, List.append_assoc, List.nil_append]
    rw [readTree?_openList hstart, hitems, Option.map_some]

theorem readsBack_map {entries : List (Tree × Tree)} (hkeys : ∀ e ∈ entries, ∃ s, e.1 = .text s)
    (hvalues : ∀ e ∈ entries, ReadsBack e.2) : ReadsBack (.map entries) := by
  cases entries with
  | nil => exact ⟨fun _ => ⟨'\x7b', _, rfl, rfl, by decide⟩, fun _ _ _ _ _ => rfl⟩
  | cons e entries =>
    obtain ⟨key, value⟩ := e
    obtain ⟨s, rfl⟩ : ∃ s, key = .text s := hkeys (key, value) (by simp)
    have hvalue : ReadsBack value := hvalues (.text s, value) (by simp)
    refine ⟨fun _ => ⟨'\x7b', _, rfl, rfl, by decide⟩, fun level fuel rest _ hfuel => ?_⟩
    simp only [printTree_map, List.length_append, List.length_cons] at hfuel
    have hrestkeys : ∀ e ∈ entries, ∃ s, e.1 = .text s := fun e he => hkeys e (by simp [he])
    have hrestvalues : ∀ e ∈ entries, ReadsBack e.2 := fun e he => hvalues e (by simp [he])
    have hentries := readEntries?_printEntries (s := s) hvalue hrestkeys hrestvalues (level + 1)
      level fuel rest (by omega)
    simp only [printTree_map, List.cons_append, List.append_assoc, List.nil_append]
    rw [readTree?_openMap, hentries, Option.map_some]

/-- The trees within the limits of the text form are read back. -/
theorem readsBack_of_within {depth : Nat} {t : Tree} (h : t.Within limits depth) : ReadsBack t := by
  induction h with
  | null => exact readsBack_null
  | integer hlow hhigh => exact readsBack_integer hlow hhigh
  | float h => exact h.elim
  | @text _ s _ => exact readsBack_text s
  | list _ _ ih => exact readsBack_list ih
  | map _ hkeys _ ih =>
    refine readsBack_map (fun e he => ?_) ih
    obtain ⟨s, hs, -⟩ := hkeys e he
    exact ⟨s, hs⟩

end trees

/-- A whole file in the text form is read as the tree it was printed from. -/
theorem read?_print {depth : Nat} {t : Tree} (h : t.Within limits depth) :
    read? (print t) = some t := by
  have hback := readsBack_of_within h
  have hstops : Stops [] := by simp [Stops]
  have hread := hback.reads 0 (2 * (printTree 0 t).length + 1) [] hstops (by omega)
  rw [List.append_nil] at hread
  simp only [read?, print, String.toList_ofList, (hback.starts 0).skipSpace, hread]
  rfl

/-- Only floats are beyond the limits of the text form. -/
theorem within_limits {op : Op} (h : ∀ x, op ≠ .newFloat x) : op.operand.Within limits := by
  cases op with
  | newFloat x => exact absurd rfl (h x)
  | _ => simp [Op.operand, Operand.Within, limits, Limits.text]

end Json

/-- Code without floats is loaded from its text form as it was saved, whatever its operations,
texts, bytes and words are. It is loaded as its own code, and stands at its start, wherever the
cursor it was saved from stood. -/
theorem Cursor.ofJson_toJson (c : Cursor) (hwords : ∀ i ∈ c.instructions, i.HasWords)
    (hfloats : ∀ i ∈ c.instructions, ∀ x, i.op ≠ .newFloat x) :
    (View.ofJson c.toView.toJson).map ofView = .ok (ofList c.instructions) := by
  have hoperands : ∀ i ∈ c.instructions, i.op.operand.Within Json.limits := fun i hi =>
    Json.within_limits (hfloats i hi)
  have htree := Image.within_toTree 0 trivial hoperands hwords
  rw [View.ofJson, View.toJson, Json.read?_print htree, Option.bind_some,
    Image.ofTree?_toTree _ _ hwords]
  rfl

/-- Quotes, backslashes and control characters, integers at either end, an empty list of names and
a lambda, saved from the middle of their code. -/
theorem Cursor.ofJson_toJson_escapes :
    let code : List Instruction := [⟨.newString "\"\\\x00\x1f\n\u007f\u00E9\u2028", some 1⟩,
      ⟨.newInteger Int64.minValue, none⟩, ⟨.jump Text.maxCount, some Text.maxCount⟩,
      ⟨.newBytes [0, 0x80, 0xFF], none⟩, ⟨.binary .contains, some 2⟩, ⟨.loadArguments [], some 0⟩,
      ⟨.newLambda ⟨none, 2, 0⟩, none⟩]
    (View.ofJson (View.ofList code).toJson).map Cursor.ofView = .ok (Cursor.ofList code) := by
  intro code
  have hcode : (⟨View.ofList code, 3⟩ : Cursor).instructions = code := View.instructions_ofList code
  have h := Cursor.ofJson_toJson ⟨View.ofList code, 3⟩ (by rw [hcode]; decide)
    (by rw [hcode]; simp [code])
  rwa [hcode] at h

end ScriptVM
