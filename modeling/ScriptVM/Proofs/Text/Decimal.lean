import Mathlib.Data.List.TakeWhile
import ScriptVM.Builtin.Text

/-!
# Decimal texts

The decimal text of a number of 64 bits is read as that number, from the least one to the largest.
White space around the text and underscores anywhere in it change nothing.

## Main definitions

* `Spells` — a text is a number in decimal, with underscores put into it and white space around it.

## Main results

* `int64?_toString` — reading inverts printing.
* `Spells.int64?_numberChars` — so it does on every text that spells the number.
-/
namespace ScriptVM.Text

/-! ## Digits -/

theorem isDigit_iff {c : Char} : c.isDigit = true ↔ '0' ≤ c ∧ c ≤ '9' := by
  simp [Char.isDigit, Char.le_def]

theorem digit?_of_isDigit {c : Char} (h : c.isDigit) :
    digit? 10 c = some (c.toNat - '0'.toNat) := by
  obtain ⟨hlow, hhigh⟩ := isDigit_iff.1 h
  have hvalue : c.toNat - '0'.toNat < 10 := by
    have : c.toNat ≤ '9'.toNat := hhigh
    simp at this ⊢
    omega
  rw [digit?]
  simp only [if_pos (And.intro hlow hhigh), if_pos hvalue]

/-- A run of decimal digits has a value. -/
theorem digitsFrom?_of_isDigit {digits : List Char} (h : ∀ c ∈ digits, c.isDigit) (start : Nat) :
    digitsFrom? 10 start digits = some (Nat.ofDigitChars 10 digits start) := by
  induction digits generalizing start with
  | nil => simp [digitsFrom?]
  | cons c digits ih =>
    rw [digitsFrom?, digit?_of_isDigit (h c (by simp)), Option.bind_some,
      ih fun d hd => h d (by simp [hd]), Nat.ofDigitChars_cons, Nat.mul_comm]

theorem isDigit_toDigits (n : Nat) : ∀ c ∈ Nat.toDigits 10 n, c.isDigit := fun _ hc =>
  Nat.isDigit_of_mem_toDigits (b := 10) (by decide) (by decide) hc

theorem exists_cons_toDigits (n : Nat) :
    ∃ c digits, Nat.toDigits 10 n = c :: digits ∧ c.isDigit := by
  obtain ⟨c, digits, hcons⟩ := List.exists_cons_of_ne_nil (Nat.toDigits_ne_nil (n := n) (b := 10))
  exact ⟨c, digits, hcons, isDigit_toDigits n c (by simp [hcons])⟩

theorem natural?_toDigits (n : Nat) : natural? 10 (Nat.toDigits 10 n) = some n := by
  rw [natural?, if_neg (by simp), digitsFrom?_of_isDigit
    (isDigit_toDigits n), Nat.ofDigitChars_ten_toDigits]

/-! ## Numbers with a sign -/

/-- How an integer is printed. -/
theorem toList_toString (n : Int) :
    (toString n).toList =
      if 0 ≤ n then Nat.toDigits 10 n.toNat else '-' :: Nat.toDigits 10 (-n).toNat := by
  rw [Int.toString_eq_repr, Int.repr_eq_if]
  split <;> simp

/-- An integer is printed as a sign or a digit and what follows it. -/
theorem exists_cons_toString (n : Int) :
    ∃ c cs, (toString n).toList = c :: cs ∧ (c = '-' ∨ c.isDigit) := by
  rw [toList_toString]
  split
  · obtain ⟨c, digits, hcons, hdigit⟩ := exists_cons_toDigits n.toNat
    exact ⟨c, digits, hcons, .inr hdigit⟩
  · exact ⟨'-', _, rfl, .inl rfl⟩

/-- A printed integer consists of a sign and digits. -/
theorem minus_or_isDigit_of_mem_toString {n : Int} {c : Char} (hc : c ∈ (toString n).toList) :
    c = '-' ∨ c.isDigit := by
  rw [toList_toString] at hc
  split at hc
  · exact .inr (isDigit_toDigits _ c hc)
  · obtain rfl | hc := List.mem_cons.mp hc
    · exact .inl rfl
    · exact .inr (isDigit_toDigits _ c hc)

theorem int64OfInt?_toInt (n : Int64) : int64OfInt? n.toInt = some n := by
  have hlow := n.le_toInt
  have hhigh := n.toInt_lt
  rw [int64OfInt?, if_pos ⟨by simpa using hlow, by simpa using hhigh⟩, Int64.ofInt_toInt]

/-- A run of digits without a sign is read by its value. -/
theorem int64?_of_isDigit {c : Char} {digits : List Char} (hc : c.isDigit) :
    int64? 10 (c :: digits) = ((natural? 10 (c :: digits)).map Int.ofNat).bind int64OfInt? := by
  unfold int64?
  dsimp only
  split
  · rename_i hcons
    cases hcons
    cases hc
  · rename_i hcons
    cases hcons
    cases hc
  · rfl

/-- A printed number is read as that number. -/
theorem int64?_toString (n : Int64) : int64? 10 (toString n.toInt).toList = some n := by
  rw [toList_toString]
  split
  · rename_i hsign
    obtain ⟨c, digits, hcons, hdigit⟩ := exists_cons_toDigits n.toInt.toNat
    rw [hcons, int64?_of_isDigit hdigit, ← hcons, natural?_toDigits, Option.map_some,
      Option.bind_some, Int.ofNat_eq_natCast, Int.toNat_of_nonneg hsign, int64OfInt?_toInt]
  · rename_i hsign
    have hvalue : -Int.ofNat (-n.toInt).toNat = n.toInt := by
      rw [Int.ofNat_eq_natCast]
      omega
    show (((natural? 10 (Nat.toDigits 10 (-n.toInt).toNat)).map Int.ofNat).map fun k => -k).bind
      int64OfInt? = some n
    rw [natural?_toDigits, Option.map_some, Option.map_some, Option.bind_some, hvalue,
      int64OfInt?_toInt]

/-! ## White space and underscores -/

/-- White space around a text is trimmed. -/
theorem trimChars_append {front body back : List Char} (hfront : ∀ c ∈ front, isBlank c = true)
    (hbody : ∀ c ∈ body, isBlank c = false) (hback : ∀ c ∈ back, isBlank c = true) :
    trimChars (front ++ body ++ back) = body := by
  have hdrop : ∀ cs rest : List Char, (∀ c ∈ cs, isBlank c = false) →
      (∀ c ∈ rest, isBlank c = true) →
      (cs ++ rest).dropWhile isBlank = if cs.isEmpty then [] else cs ++ rest := by
    intro cs rest hcs hrest
    cases cs with
    | nil => exact List.dropWhile_eq_nil_iff.mpr hrest
    | cons c cs => simp [hcs c]
  have hrev : ∀ c ∈ body.reverse, isBlank c = false := by simpa using hbody
  rw [trimChars, List.append_assoc, List.dropWhile_append_of_pos hfront,
    hdrop body back hbody hback]
  cases body with
  | nil => rfl
  | cons c body =>
    have hlast := hdrop _ [] hrev (by simp)
    rw [List.append_nil] at hlast
    rw [if_neg (by simp), List.reverse_append,
      List.dropWhile_append_of_pos (by simpa using hback), hlast]
    simp

/-- A text is a number in decimal, with underscores put anywhere into it and then white space
around the whole. -/
def Spells (text : String) (n : Int64) : Prop :=
  ∃ front body back : List Char, text.toList = front ++ body ++ back ∧
    (∀ c ∈ front, isBlank c = true) ∧ (∀ c ∈ back, isBlank c = true) ∧
    (body.filter fun c => c ≠ '_') = (toString n.toInt).toList

theorem spells_toString (n : Int64) : Spells (toString n.toInt) n := by
  refine ⟨[], (toString n.toInt).toList, [], by simp, by simp, by simp, ?_⟩
  rw [List.filter_eq_self]
  intro c hc
  rw [decide_eq_true_eq]
  rintro rfl
  obtain hc | hc := minus_or_isDigit_of_mem_toString hc <;> cases hc

/-- No character of a number is white space. -/
theorem isBlank_of_minus_or_isDigit {c : Char} (hc : c = '-' ∨ c.isDigit) : isBlank c = false := by
  obtain rfl | hc := hc
  · rfl
  · obtain ⟨hlow, hhigh⟩ := isDigit_iff.1 hc
    have hlow' : 0x30 ≤ c.toNat := hlow
    have hhigh' : c.toNat ≤ 0x39 := hhigh
    simp [isBlank, inRanges, blankRanges]
    omega

/-- What spells a number is read as that number. -/
theorem Spells.int64?_numberChars {text : String} {n : Int64} (h : Spells text n) :
    int64? 10 (Builtin.numberChars text) = some n := by
  obtain ⟨front, body, back, htext, hfront, hback, hnumber⟩ := h
  have hbody : ∀ c ∈ body, isBlank c = false := by
    intro c hc
    by_cases hunderscore : c = '_'
    · rw [hunderscore]
      rfl
    · have hmem : c ∈ body.filter fun c => c ≠ '_' := by simp [hc, hunderscore]
      rw [hnumber] at hmem
      exact isBlank_of_minus_or_isDigit (minus_or_isDigit_of_mem_toString hmem)
  rw [Builtin.numberChars, htext, trimChars_append hfront hbody hback, hnumber, int64?_toString]

end ScriptVM.Text
