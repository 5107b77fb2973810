import Mathlib.Data.Nat.Digits.Defs
import Mathlib.Tactic.IntervalCases
import ScriptVM.Lowering.Expression

/-!
# Integer literals

Which texts are integer literals, said by a grammar: without its underscores a literal is a run of
decimal digits, or a mark behind a zero and a run of digits in the base of the mark. The reader
agrees with the grammar on every text, up to the largest number a word holds. The work is in the
single digit, which the reader takes after putting the text in lower case.

## Main definitions

* `IntegerForm` — the texts of the grammar, each with the number it stands for.

## Main results

* `integerLiteral_forms` — the reader accepts the texts of the grammar that fit in a word.
-/
namespace ScriptVM

/-- A character is the digit for a number, a letter in either case. -/
def IsDigitOf (c : Char) (d : Nat) : Prop := c = Nat.digitChar d ∨ c = (Nat.digitChar d).toUpper

/-- Characters are the digits of a number in a base, the most significant one first. -/
def DigitsFor (base : Nat) (cs : List Char) (k : Nat) : Prop :=
  ∃ ds : List Nat, List.Forall₂ (fun c d => d < base ∧ IsDigitOf c d) cs ds ∧
    Nat.ofDigits base ds.reverse = k

/-- The marks of bases other than ten. -/
def radixMarks : List (Char × Nat) :=
  [('x', 16), ('X', 16), ('b', 2), ('B', 2), ('o', 8), ('O', 8)]

/-- The grammar of integer literals without underscores, with their values. -/
inductive IntegerForm : List Char → Nat → Prop
  | decimal {cs : List Char} {k : Nat} (nonempty : cs ≠ []) (digits : DigitsFor 10 cs k) :
    IntegerForm cs k
  | marked {mark : Char} {base : Nat} {cs : List Char} {k : Nat} (known : (mark, base) ∈ radixMarks)
      (nonempty : cs ≠ []) (digits : DigitsFor base cs k) :
    IntegerForm ('0' :: mark :: cs) k

section digits

theorem toNat_toLower (c : Char) :
    c.toLower.toNat = if 65 ≤ c.toNat ∧ c.toNat ≤ 90 then c.toNat + 32 else c.toNat := by
  have hrange : (c.val ≥ 'A'.val ∧ c.val ≤ 'Z'.val) ↔ 65 ≤ c.toNat ∧ c.toNat ≤ 90 := by
    rw [ge_iff_le, UInt32.le_iff_toNat_le, UInt32.le_iff_toNat_le]
    exact Iff.rfl
  by_cases h : 65 ≤ c.toNat ∧ c.toNat ≤ 90
  · have hstep : ('a'.val - 'A'.val).toNat = 32 := rfl
    have hval : c.val.toNat = c.toNat := rfl
    unfold Char.toLower
    rw [dif_pos (hrange.mpr h), if_pos h, Char.toNat, UInt32.toNat_add, hstep, hval]
    exact Nat.mod_eq_of_lt (by omega)
  · unfold Char.toLower
    rw [dif_neg (mt hrange.mp h), if_neg h]

theorem toNat_toUpper (c : Char) :
    c.toUpper.toNat = if 97 ≤ c.toNat ∧ c.toNat ≤ 122 then c.toNat - 32 else c.toNat := by
  have hrange : ('a'.val ≤ c.val ∧ c.val ≤ 'z'.val) ↔ 97 ≤ c.toNat ∧ c.toNat ≤ 122 := by
    rw [UInt32.le_iff_toNat_le, UInt32.le_iff_toNat_le]
    exact Iff.rfl
  by_cases h : 97 ≤ c.toNat ∧ c.toNat ≤ 122
  · -- the distance is a subtraction of words, so that adding it wraps
    have hstep : ('A'.val - 'a'.val).toNat = 4294967264 := rfl
    have hval : c.val.toNat = c.toNat := rfl
    unfold Char.toUpper
    rw [dif_pos (hrange.mpr h), if_pos h, Char.toNat, UInt32.toNat_add, hstep, hval]
    omega
  · unfold Char.toUpper
    rw [dif_neg (mt hrange.mp h), if_neg h]

/-- What a character was before it was put in lower case. -/
theorem eq_or_eq_toUpper_of_toLower {c x : Char} (h : c.toLower = x) : c = x ∨ c = x.toUpper := by
  subst h
  have hlow := toNat_toLower c
  by_cases hc : 65 ≤ c.toNat ∧ c.toNat ≤ 90
  · right
    apply Char.toNat_inj.mp
    rw [toNat_toUpper]
    rw [if_pos hc] at hlow
    rw [if_pos (by omega)]
    omega
  · left
    apply Char.toNat_inj.mp
    rw [hlow, if_neg hc]

theorem toNat_digitChar {d : Nat} (hd : d < 16) :
    (Nat.digitChar d).toNat = if d < 10 then d + 48 else d + 87 := by
  interval_cases d <;> rfl

theorem toLower_of_isDigitOf {c : Char} {d : Nat} (hd : d < 16) (h : IsDigitOf c d) :
    c.toLower = Nat.digitChar d := by
  obtain rfl | rfl := h <;> interval_cases d <;> rfl

theorem digit?_digitChar {base d : Nat} (hd : d < base) (hb : base ≤ 16) :
    Text.digit? base (Nat.digitChar d) = some d := by
  have hd16 : d < 16 := by omega
  interval_cases d <;> simp [Text.digit?, Nat.digitChar, hd]

/-- A character in lower case that the reader takes as a digit is the one for the number. -/
theorem eq_digitChar_of_digit? {base d : Nat} {c : Char} (hb : base ≤ 16)
    (hc : ¬(65 ≤ c.toNat ∧ c.toNat ≤ 90)) (h : Text.digit? base c = some d) :
    d < base ∧ c = Nat.digitChar d := by
  have hle : ∀ a b : Char, a ≤ b ↔ a.toNat ≤ b.toNat := fun a b => UInt32.le_iff_toNat_le
  simp only [Text.digit?, hle, Char.reduceToNat] at h
  by_cases hten : 48 ≤ c.toNat ∧ c.toNat ≤ 57
  · rw [if_pos hten] at h
    obtain ⟨hd, hval⟩ := Option.ite_none_right_eq_some.mp h
    cases hval
    refine ⟨hd, Char.toNat_inj.mp ?_⟩
    rw [toNat_digitChar (by omega), if_pos (by omega)]
    omega
  · rw [if_neg hten] at h
    by_cases hsix : 97 ≤ c.toNat ∧ c.toNat ≤ 122
    · rw [if_pos hsix] at h
      obtain ⟨hd, hval⟩ := Option.ite_none_right_eq_some.mp h
      cases hval
      refine ⟨hd, Char.toNat_inj.mp ?_⟩
      rw [toNat_digitChar (by omega), if_neg (by omega)]
      omega
    · rw [if_neg hsix, if_neg hc, if_neg (by omega)] at h
      cases h

/-- The reader, behind the change to lower case, takes the digits of the base and nothing else. -/
theorem digit?_toLower_eq_some {base d : Nat} {c : Char} (hb : base ≤ 16) :
    Text.digit? base c.toLower = some d ↔ d < base ∧ IsDigitOf c d := by
  constructor
  · intro h
    have hlow : ¬(65 ≤ c.toLower.toNat ∧ c.toLower.toNat ≤ 90) := by
      rw [toNat_toLower]
      split <;> omega
    obtain ⟨hd, hc⟩ := eq_digitChar_of_digit? hb hlow h
    exact ⟨hd, eq_or_eq_toUpper_of_toLower hc⟩
  · rintro ⟨hd, hc⟩
    rw [toLower_of_isDigitOf (by omega) hc]
    exact digit?_digitChar hd hb

/-- Reading a run of digits on top of a number. -/
theorem digitsFrom?_eq_some {base : Nat} (hb : base ≤ 16) :
    ∀ {cs : List Char} {start k : Nat},
      Text.digitsFrom? base start (Text.lowerAscii cs) = some k ↔
        ∃ ds : List Nat, List.Forall₂ (fun c d => d < base ∧ IsDigitOf c d) cs ds ∧
          ds.foldl (fun value d => d + base * value) start = k := by
  intro cs
  induction cs with
  | nil =>
    intro start k
    constructor
    · intro h
      exact ⟨[], .nil, Option.some.inj h⟩
    · rintro ⟨ds, hds, hk⟩
      cases hds
      exact congrArg some hk
  | cons c cs ih =>
    intro start k
    have hrun : Text.digitsFrom? base start (Text.lowerAscii (c :: cs)) =
        (Text.digit? base c.toLower).bind fun d =>
          Text.digitsFrom? base (start * base + d) (Text.lowerAscii cs) := rfl
    rw [hrun, Option.bind_eq_some_iff]
    constructor
    · rintro ⟨d, hd, hrest⟩
      obtain ⟨ds, hds, hk⟩ := ih.mp hrest
      refine ⟨d :: ds, .cons ((digit?_toLower_eq_some hb).mp hd) hds, ?_⟩
      rw [List.foldl_cons, ← hk, Nat.add_comm, Nat.mul_comm]
    · rintro ⟨ds, hds, hk⟩
      cases hds with
      | cons hd hds =>
        rename_i d ds
        refine ⟨d, (digit?_toLower_eq_some hb).mpr hd, ih.mpr ⟨ds, hds, ?_⟩⟩
        rw [← hk, List.foldl_cons, Nat.add_comm, Nat.mul_comm]

/-- The reader of a run of digits, behind the change to lower case, reads the number the run is
for in the base. -/
theorem natural?_lowerAscii_eq_some {base k : Nat} {cs : List Char} (hb : base ≤ 16) :
    Text.natural? base (Text.lowerAscii cs) = some k ↔ cs ≠ [] ∧ DigitsFor base cs k := by
  by_cases hcs : cs = []
  · simp [hcs, Text.natural?, Text.lowerAscii]
  · have hne : (Text.lowerAscii cs).isEmpty = false := by
      simpa [Text.lowerAscii] using hcs
    rw [Text.natural?, hne, if_neg (by simp), digitsFrom?_eq_some hb]
    simp only [DigitsFor, ne_eq, hcs, not_false_eq_true, true_and, Nat.ofDigits_eq_foldr,
      List.foldr_reverse, Nat.cast_id]

end digits

section marks

/-- A text that the reader of the base leaves whole. -/
theorem splitRadix_of_ne {cs : List Char}
    (h : ∀ rest, cs ≠ '0' :: 'x' :: rest ∧ cs ≠ '0' :: 'b' :: rest ∧ cs ≠ '0' :: 'o' :: rest) :
    splitRadix cs = (10, cs) := by
  unfold splitRadix
  split
  · exact absurd rfl (h _).1
  · exact absurd rfl (h _).2.1
  · exact absurd rfl (h _).2.2
  · rfl

theorem mem_radixMarks {mark : Char} {base : Nat} :
    (mark, base) ∈ radixMarks ↔
      (mark.toLower = 'x' ∧ base = 16) ∨ (mark.toLower = 'b' ∧ base = 2) ∨
        (mark.toLower = 'o' ∧ base = 8) := by
  constructor
  · intro h
    simp only [radixMarks, List.mem_cons, Prod.mk.injEq, List.not_mem_nil, or_false] at h
    rcases h with ⟨rfl, h⟩ | ⟨rfl, h⟩ | ⟨rfl, h⟩ | ⟨rfl, h⟩ | ⟨rfl, h⟩ | ⟨rfl, h⟩ <;> simp [h]
  · rintro (⟨h, rfl⟩ | ⟨h, rfl⟩ | ⟨h, rfl⟩) <;>
      obtain rfl | rfl := eq_or_eq_toUpper_of_toLower h <;> decide

/-- Behind the change to lower case, a marked text is split at its mark. -/
theorem splitRadix_marked {mark : Char} {base : Nat} (h : (mark, base) ∈ radixMarks)
    (cs : List Char) :
    splitRadix (Text.lowerAscii ('0' :: mark :: cs)) = (base, Text.lowerAscii cs) := by
  have hcs : Text.lowerAscii ('0' :: mark :: cs) = '0' :: mark.toLower :: Text.lowerAscii cs := rfl
  rw [hcs]
  rcases mem_radixMarks.mp h with ⟨hm, rfl⟩ | ⟨hm, rfl⟩ | ⟨hm, rfl⟩ <;> rw [hm] <;> rfl

/-- Behind the change to lower case, a text without a mark is left whole. -/
theorem splitRadix_unmarked {cs : List Char}
    (h : ∀ mark base rest, (mark, base) ∈ radixMarks → cs ≠ '0' :: mark :: rest) :
    splitRadix (Text.lowerAscii cs) = (10, Text.lowerAscii cs) := by
  have hne : ∀ x base, (∀ c : Char, c.toLower = x → (c, base) ∈ radixMarks) →
      ∀ rest, Text.lowerAscii cs ≠ '0' :: x :: rest := by
    intro x base hx rest hlow
    obtain ⟨first, others, rfl, hfirst, hothers⟩ := List.map_eq_cons_iff.mp hlow
    obtain ⟨mark, others, rfl, hmark, -⟩ := List.map_eq_cons_iff.mp hothers
    have hzero : first = '0' := by
      obtain h | h := eq_or_eq_toUpper_of_toLower hfirst <;> exact h
    exact h mark base others (hx mark hmark) (by rw [hzero])
  apply splitRadix_of_ne
  intro rest
  refine ⟨hne 'x' 16 ?_ rest, hne 'b' 2 ?_ rest, hne 'o' 8 ?_ rest⟩ <;>
    intro c hc <;> exact mem_radixMarks.mpr (by simp [hc])

/-- A run of decimal digits has no mark. -/
theorem DigitsFor.ne_marked {cs : List Char} {k : Nat} (h : DigitsFor 10 cs k) (mark : Char)
    (base : Nat) (rest : List Char) (hm : (mark, base) ∈ radixMarks) : cs ≠ '0' :: mark :: rest := by
  rintro rfl
  obtain ⟨ds, hds, -⟩ := h
  cases hds with
  | cons _ hrest =>
    cases hrest with
    | @cons _ d _ _ hmark _ =>
      obtain ⟨hd, hdigit⟩ := hmark
      have hlow := toLower_of_isDigitOf (by omega) hdigit
      rcases mem_radixMarks.mp hm with ⟨hx, -⟩ | ⟨hx, -⟩ | ⟨hx, -⟩ <;>
        rw [hx] at hlow <;> interval_cases d <;> cases hlow

theorem le_sixteen_of_mem_radixMarks {mark : Char} {base : Nat} (h : (mark, base) ∈ radixMarks) :
    base ≤ 16 := by
  rcases mem_radixMarks.mp h with ⟨-, rfl⟩ | ⟨-, rfl⟩ | ⟨-, rfl⟩ <;> omega

/-- The reader of the base and the reader of the digits together follow the grammar. -/
theorem natural?_splitRadix_eq_some (cs : List Char) (k : Nat) :
    Text.natural? (splitRadix (Text.lowerAscii cs)).1 (splitRadix (Text.lowerAscii cs)).2 = some k ↔
      IntegerForm cs k := by
  constructor
  · intro h
    by_cases hm : ∃ mark base rest, (mark, base) ∈ radixMarks ∧ cs = '0' :: mark :: rest
    · obtain ⟨mark, base, rest, hmark, rfl⟩ := hm
      rw [splitRadix_marked hmark] at h
      obtain ⟨hne, hdigits⟩ :=
        (natural?_lowerAscii_eq_some (le_sixteen_of_mem_radixMarks hmark)).mp h
      exact .marked hmark hne hdigits
    · rw [splitRadix_unmarked fun mark base rest hmark heq => hm ⟨mark, base, rest, hmark, heq⟩] at h
      obtain ⟨hne, hdigits⟩ := (natural?_lowerAscii_eq_some (by omega)).mp h
      exact .decimal hne hdigits
  · rintro (⟨hne, hdigits⟩ | ⟨hmark, hne, hdigits⟩)
    · rw [splitRadix_unmarked hdigits.ne_marked]
      exact (natural?_lowerAscii_eq_some (by omega)).mpr ⟨hne, hdigits⟩
    · rw [splitRadix_marked hmark]
      exact (natural?_lowerAscii_eq_some (le_sixteen_of_mem_radixMarks hmark)).mpr ⟨hne, hdigits⟩

end marks

section texts

/-- The characters that stand in an integer literal besides underscores: digits and marks. -/
def integerChars : List Char := "0123456789abcdefABCDEFxXoO".toList

theorem IsDigitOf.mem_integerChars {c : Char} {d : Nat} (hd : d < 16) (h : IsDigitOf c d) :
    c ∈ integerChars := by
  obtain rfl | rfl := h <;> interval_cases d <;> decide

theorem DigitsFor.mem_integerChars {base : Nat} {cs : List Char} {k : Nat} (hb : base ≤ 16)
    (h : DigitsFor base cs k) : ∀ c ∈ cs, c ∈ integerChars := by
  obtain ⟨ds, hds, -⟩ := h
  induction hds with
  | nil =>
    intro c hc
    cases hc
  | cons hd _ ih =>
    intro c hc
    obtain rfl | hc := List.mem_cons.mp hc
    · exact hd.2.mem_integerChars (by omega)
    · exact ih c hc

theorem IntegerForm.mem_integerChars {cs : List Char} {k : Nat} (h : IntegerForm cs k) :
    ∀ c ∈ cs, c ∈ integerChars := by
  cases h with
  | decimal _ hdigits => exact hdigits.mem_integerChars (by omega)
  | marked hmark _ hdigits =>
    intro c hc
    obtain rfl | hc := List.mem_cons.mp hc
    · decide
    obtain rfl | hc := List.mem_cons.mp hc
    · rcases mem_radixMarks.mp hmark with ⟨hm, -⟩ | ⟨hm, -⟩ | ⟨hm, -⟩ <;>
        obtain rfl | rfl := eq_or_eq_toUpper_of_toLower hm <;> decide
    · exact hdigits.mem_integerChars (le_sixteen_of_mem_radixMarks hmark) c hc

/-- The numbers of the grammar that a word holds. -/
theorem int64OfInt?_eq_some {k : Nat} {n : Int64} :
    Text.int64OfInt? k = some n ↔ k ≤ 2 ^ 63 - 1 ∧ n.toInt = k := by
  rw [Text.int64OfInt?, Option.ite_none_right_eq_some]
  constructor
  · rintro ⟨⟨-, hk⟩, hn⟩
    cases hn
    exact ⟨by omega, Int64.toInt_ofInt_of_le (by omega) (by omega)⟩
  · rintro ⟨hk, hn⟩
    refine ⟨by omega, congrArg some ?_⟩
    rw [← hn, Int64.ofInt_toInt]

theorem integerLiteral?_eq_some {text : String} {n : Int64} :
    integerLiteral? text = some n ↔
      ∃ k, IntegerForm (withoutUnderscores text) k ∧ k ≤ 2 ^ 63 - 1 ∧ n.toInt = k := by
  simp only [integerLiteral?, Option.bind_eq_some_iff, natural?_splitRadix_eq_some,
    int64OfInt?_eq_some]

/-- **The integer literals.** A text is an integer literal if and only if, without its underscores,
it is a number of the grammar that fits in a signed word of 64 bits, and then it means that number.
Besides underscores it holds digits and marks only, so no sign and no blank. Any other text is
refused where it stands. -/
theorem integerLiteral_forms (text : String) :
    (∀ n, integerLiteral? text = some n ↔
      ∃ k, IntegerForm (text.toList.filter fun c => c ≠ '_') k ∧ k ≤ 2 ^ 63 - 1 ∧ n.toInt = k) ∧
    (∀ n, integerLiteral? text = some n → ∀ c ∈ text.toList, c = '_' ∨ c ∈ integerChars) ∧
    (∀ span push,
      (∃ n, integerLiteral? text = some n ∧
        (Expr.integer span text).code push =
          .ok ([(Op.newInteger n).at span] ++ pushIf push span)) ∨
      (integerLiteral? text = none ∧
        (Expr.integer span text).code push = .error (.invalidLiteral "integer" text span))) := by
  refine ⟨fun n => integerLiteral?_eq_some, ?_, ?_⟩
  · intro n hn c hc
    obtain ⟨k, hk, -, -⟩ := integerLiteral?_eq_some.mp hn
    by_cases hline : c = '_'
    · exact .inl hline
    · exact .inr (hk.mem_integerChars c (List.mem_filter.mpr ⟨hc, by simpa using hline⟩))
  · intro span push
    cases hn : integerLiteral? text with
    | none => exact .inr ⟨rfl, by simp only [Expr.code, hn]⟩
    | some n => exact .inl ⟨n, rfl, by simp only [Expr.code, hn]⟩

example : integerLiteral? "_0X_fF_" = some 255 := by decide +kernel

end texts

end ScriptVM
