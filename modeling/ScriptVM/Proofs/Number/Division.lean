import Mathlib.Algebra.Order.Floor.Ring
import Mathlib.Data.Int.Basic
import Mathlib.Data.Rat.Floor
import Mathlib.Tactic.Linarith
import ScriptVM.Proofs.Number.Operator

/-!
# Floor division of words

Truncating division of words, corrected where it has rounded up, is floor division. The corrections
never leave the range of words; only the quotient of the least word and minus one does, and it
wraps. Division by zero is a failure, whichever operand is asked.
-/
namespace ScriptVM

/-! ## Integers -/

/-- A quotient rounded down, and the remainder that it leaves. -/
structure FloorDivision (a b q r : ℤ) : Prop where
  eq : a = b * q + r
  sign : r = 0 ∨ r.sign = b.sign
  abs_lt : r.natAbs < b.natAbs

theorem abs_tmod_lt (a : ℤ) {b : ℤ} (hb : b ≠ 0) : (a.tmod b).natAbs < b.natAbs := by
  rw [Int.natAbs_tmod]
  exact Nat.mod_lt _ (Int.natAbs_pos.2 hb)

/-- A remainder of truncating division has the sign of what is divided. -/
theorem tmod_neg_iff {a b : ℤ} (hr : a.tmod b ≠ 0) : a.tmod b < 0 ↔ a < 0 := by
  rcases lt_or_ge a 0 with ha | ha
  · have hneg : 0 ≤ (-a).tmod b := Int.tmod_nonneg b (by omega)
    rw [Int.neg_tmod] at hneg
    omega
  · have hnonneg := Int.tmod_nonneg b ha
    omega

namespace FloorDivision

variable {a b q r : ℤ}

/-- The remainder goes in the direction of the divisor, and less than once. -/
theorem floor_eq (h : FloorDivision a b q r) (hb : b ≠ 0) : ⌊(a : ℚ) / b⌋ = q := by
  have hbq : (b : ℚ) ≠ 0 := Int.cast_ne_zero.2 hb
  have hsplit : (a : ℚ) / b = q + (r : ℚ) / b := by
    rw [h.eq]
    push_cast
    field_simp
  have hrest : 0 ≤ (r : ℚ) / b ∧ (r : ℚ) / b < 1 := by
    have habs := h.abs_lt
    rcases lt_or_gt_of_ne hb with hneg | hpos
    · have hr : r ≤ 0 := by
        rcases h.sign with hr | hr
        · exact hr.le
        · exact (Int.sign_eq_neg_one_iff_neg.1 (hr.trans (Int.sign_eq_neg_one_of_neg hneg))).le
      have hlt : b < r := by omega
      have hnegq : (b : ℚ) < 0 := Int.cast_lt_zero.2 hneg
      refine ⟨div_nonneg_of_nonpos (Int.cast_nonpos.2 hr) hnegq.le, ?_⟩
      rw [div_lt_one_of_neg hnegq]
      exact_mod_cast hlt
    · have hr : 0 ≤ r := by
        rcases h.sign with hr | hr
        · exact hr.ge
        · exact (Int.sign_eq_one_iff_pos.1 (hr.trans (Int.sign_eq_one_of_pos hpos))).le
      have hlt : r < b := by omega
      have hposq : (0 : ℚ) < b := Int.cast_pos.2 hpos
      refine ⟨div_nonneg (Int.cast_nonneg hr) hposq.le, ?_⟩
      rw [div_lt_one hposq]
      exact_mod_cast hlt
  rw [Int.floor_eq_iff, hsplit]
  exact ⟨by linarith, by linarith⟩

/-- Where truncating division leaves no remainder, or one with the sign of the divisor, it has
rounded down. -/
theorem of_tdiv (hb : b ≠ 0) (h : a.tmod b = 0 ∨ (a.tmod b < 0 ↔ b < 0)) :
    FloorDivision a b (a.tdiv b) (a.tmod b) where
  eq := (Int.mul_tdiv_add_tmod a b).symm
  sign := by
    by_cases hzero : a.tmod b = 0
    · exact .inl hzero
    · have hsign := h.resolve_left hzero
      right
      rcases lt_or_gt_of_ne hb with hneg | hpos
      · rw [Int.sign_eq_neg_one_of_neg hneg, Int.sign_eq_neg_one_of_neg (hsign.2 hneg)]
      · rw [Int.sign_eq_one_of_pos hpos, Int.sign_eq_one_of_pos (by omega)]
  abs_lt := abs_tmod_lt a hb

/-- Where it leaves one with the other sign, it has rounded up by one. -/
theorem of_tdiv_sub_one (hb : b ≠ 0) (hr : a.tmod b ≠ 0) (h : ¬(a.tmod b < 0 ↔ b < 0)) :
    FloorDivision a b (a.tdiv b - 1) (a.tmod b + b) where
  eq := by linarith [Int.mul_tdiv_add_tmod a b, mul_sub_one b (a.tdiv b)]
  sign := by
    have habs := abs_tmod_lt a hb
    right
    rcases lt_or_gt_of_ne hb with hneg | hpos
    · rw [Int.sign_eq_neg_one_of_neg hneg, Int.sign_eq_neg_one_of_neg (by omega)]
    · rw [Int.sign_eq_one_of_pos hpos, Int.sign_eq_one_of_pos (by omega)]
  abs_lt := by
    have habs := abs_tmod_lt a hb
    omega

end FloorDivision

/-! ## Words -/

section words

variable {a b : Int64}

theorem toInt_ne_zero_iff : a.toInt ≠ 0 ↔ a ≠ 0 := by
  rw [← Int64.toInt_zero, Ne, Int64.toInt_inj]

theorem toInt_neg_iff : a.toInt < 0 ↔ a < 0 := by
  rw [Int64.lt_iff_toInt_lt, Int64.toInt_zero]

/-- A remainder has the sign of what is divided. -/
theorem mod_neg_iff (hr : a % b ≠ 0) : a % b < 0 ↔ a < 0 := by
  rw [← toInt_ne_zero_iff, Int64.toInt_mod] at hr
  rw [← toInt_neg_iff, ← toInt_neg_iff, Int64.toInt_mod, tmod_neg_iff hr]

/-- Words are divided as integers are where there is a remainder. -/
theorem toInt_div_of_mod_ne_zero (hr : a % b ≠ 0) : (a / b).toInt = a.toInt.tdiv b.toInt := by
  refine Int64.toInt_div_of_ne_right a b fun hb => hr ?_
  rw [← Int64.toInt_inj, Int64.toInt_mod, hb]
  exact Int.tmod_eq_zero_of_dvd ⟨-a.toInt, by simp⟩

/-- The correction of a quotient stays in range: where there is a remainder, the divisor is not a
unit, and the quotient is at most half the dividend. -/
theorem toInt_div_sub_one (hb : b ≠ 0) (hr : a % b ≠ 0) :
    (a / b - 1).toInt = (a / b).toInt - 1 := by
  have hzero := toInt_ne_zero_iff.2 hb
  have hrest := toInt_ne_zero_iff.2 hr
  have hunit : 2 ≤ b.toInt.natAbs := by
    have hone : b.toInt.natAbs ≠ 1 := by
      intro hone
      rw [Int64.toInt_mod, ← Int.natAbs_ne_zero, Int.natAbs_tmod, hone, Nat.mod_one] at hrest
      exact hrest rfl
    omega
  have hhalf : (a / b).toInt.natAbs ≤ a.toInt.natAbs / 2 := by
    rw [toInt_div_of_mod_ne_zero hr, Int.natAbs_tdiv]
    exact Nat.div_le_div_left hunit (by decide)
  have hle := a.le_toInt
  have hlt := a.toInt_lt
  rw [Int64.toInt_sub, Int64.toInt_one, Int.bmod_eq_of_le (by omega) (by omega)]

/-- So does the correction of a remainder: it adds numbers of different signs. -/
theorem toInt_mod_add (h : ¬(a % b < 0 ↔ b < 0)) :
    (a % b + b).toInt = (a % b).toInt + b.toInt := by
  rw [← toInt_neg_iff, ← toInt_neg_iff] at h
  have hle := (a % b).le_toInt
  have hlt := (a % b).toInt_lt
  have hle' := b.le_toInt
  have hlt' := b.toInt_lt
  rw [Int64.toInt_add, Int.bmod_eq_of_le (by omega) (by omega)]

/-- Floor division of words is floor division of the integers, except for the one quotient that is
no word. -/
theorem floorDivision_words (hb : b ≠ 0) (h : ¬(a = Int64.minValue ∧ b = -1)) :
    FloorDivision a.toInt b.toInt (wordFloorDiv a b).toInt (wordFloorMod a b).toInt := by
  have hzero := toInt_ne_zero_iff.2 hb
  have hquotient : (a / b).toInt = a.toInt.tdiv b.toInt := by
    by_cases ha : a = Int64.minValue
    · exact Int64.toInt_div_of_ne_right a b fun hone => h ⟨ha, hone⟩
    · exact Int64.toInt_div_of_ne_left a b ha
  have hsign : (a % b ≠ 0 ∧ ¬(a < 0 ↔ b < 0)) ↔ (a % b ≠ 0 ∧ ¬(a % b < 0 ↔ b < 0)) :=
    and_congr_right fun hr => by rw [mod_neg_iff hr]
  simp only [wordFloorDiv, wordFloorMod, hsign]
  split
  next hc =>
    rw [toInt_div_sub_one hb hc.1, toInt_mod_add hc.2, hquotient, Int64.toInt_mod]
    rw [← toInt_ne_zero_iff, ← toInt_neg_iff, ← toInt_neg_iff, Int64.toInt_mod] at hc
    exact .of_tdiv_sub_one hzero hc.1 hc.2
  next hc =>
    rw [hquotient, Int64.toInt_mod]
    rw [not_and_or, not_not, not_not, ← toInt_neg_iff, ← toInt_neg_iff, ← Int64.toInt_inj,
      Int64.toInt_mod] at hc
    exact .of_tdiv hzero hc

/-- In wrapping arithmetic there is no exception. -/
theorem mul_wordFloorDiv_add (hb : b ≠ 0) : b * wordFloorDiv a b + wordFloorMod a b = a := by
  by_cases h : a = Int64.minValue ∧ b = -1
  · obtain ⟨rfl, rfl⟩ := h
    decide
  · have heq := (floorDivision_words hb h).eq
    calc b * wordFloorDiv a b + wordFloorMod a b
        = Int64.ofInt (b.toInt * (wordFloorDiv a b).toInt + (wordFloorMod a b).toInt) := by
          rw [Int64.ofInt_add, Int64.ofInt_mul, Int64.ofInt_toInt, Int64.ofInt_toInt,
            Int64.ofInt_toInt]
      _ = a := by rw [← heq, Int64.ofInt_toInt]

/-- What is left is less than the divisor, and has its sign. -/
theorem wordFloorMod_bounds (hb : b ≠ 0) :
    (wordFloorMod a b = 0 ∨ (wordFloorMod a b).toInt.sign = b.toInt.sign) ∧
      (wordFloorMod a b).toInt.natAbs < b.toInt.natAbs := by
  by_cases h : a = Int64.minValue ∧ b = -1
  · obtain ⟨rfl, rfl⟩ := h
    decide
  · have hfloor := floorDivision_words hb h
    exact ⟨hfloor.sign.imp_left Int64.toInt_inj.1, hfloor.abs_lt⟩

/-- The quotient is rounded down, and wraps where it is no word. -/
theorem toInt_wordFloorDiv (hb : b ≠ 0) :
    (wordFloorDiv a b).toInt =
      if a = Int64.minValue ∧ b = -1 then Int64.minValue.toInt
      else ⌊(a.toInt : ℚ) / b.toInt⌋ := by
  split
  next h =>
    obtain ⟨rfl, rfl⟩ := h
    decide
  next h => exact ((floorDivision_words hb h).floor_eq (toInt_ne_zero_iff.2 hb)).symm

end words

/-! ## The operators -/

namespace Engine

/-- Floor division and modulo of Integers. Neither correction leaves the range of words. The
quotient is rounded down, but for the one that wraps. The remainder has the sign of the divisor and
is less than it, and the two belong to one division in wrapping arithmetic. To divide by zero fails,
for each of the operands that can be asked and so for the operator. -/
theorem floor_division (d : Digests) (fuel : Nat) (a b : Int64) :
    (b ≠ 0 →
      (a % b ≠ 0 ∧ ¬(a < 0 ↔ b < 0) → (a / b - 1).toInt = (a / b).toInt - 1) ∧
      (a % b ≠ 0 ∧ ¬(a % b < 0 ↔ b < 0) → (a % b + b).toInt = (a % b).toInt + b.toInt) ∧
      (wordFloorDiv a b).toInt =
        (if a = Int64.minValue ∧ b = -1 then Int64.minValue.toInt
          else ⌊(a.toInt : ℚ) / b.toInt⌋) ∧
      (wordFloorMod a b = 0 ∨ (wordFloorMod a b).toInt.sign = b.toInt.sign) ∧
      (wordFloorMod a b).toInt.natAbs < b.toInt.natAbs ∧
      b * wordFloorDiv a b + wordFloorMod a b = a) ∧
    ∀ (m : Machine) (x y : Value), m.heap.kind x = .integer a → m.heap.kind y = .integer b →
      (b ≠ 0 →
        (m.heap.Answers x .floorDiv → ∃ r m',
          (withFuel (fuel + 1) d).operation .floorDiv x y m = .ok r m' ∧
            m'.heap.kind r = .integer (wordFloorDiv a b)) ∧
        (m.heap.Answers x .mod → ∃ r m',
          (withFuel (fuel + 1) d).operation .mod x y m = .ok r m' ∧
            m'.heap.kind r = .integer (wordFloorMod a b))) ∧
      (b = 0 → ∀ operator ∈ [BinaryOperator.div, .floorDiv, .mod],
        m.heap.Answers x operator.forward → m.heap.Answers y operator.reflected →
        (∃ m', (withFuel (fuel + 1) d).callSymbol x operator.forward [y] m =
          .error (.failed (.of .divisionByZero)) m') ∧
        (∃ m', (withFuel (fuel + 1) d).callSymbol y operator.reflected [x] m =
          .error (.failed (.of .divisionByZero)) m') ∧
        ∃ m', (withFuel (fuel + 1) d).operation operator x y m =
          .error (.failed (.of .divisionByZero)) m') := by
  refine ⟨fun hb => ⟨fun h => toInt_div_sub_one hb h.1, fun h => toInt_mod_add h.2,
    toInt_wordFloorDiv hb, (wordFloorMod_bounds hb).1, (wordFloorMod_bounds hb).2,
    mul_wordFloorDiv_add hb⟩, fun m x y hx hy => ⟨fun hb => ⟨fun hanswers => ?_, fun hanswers => ?_⟩,
    ?_⟩⟩
  · have hdiv : Arithmetic.onIntegers .floorDiv a b = .ok (.integer (wordFloorDiv a b)) := if_neg hb
    exact operation_of_ok d fuel .floorDiv rfl hx hy hanswers hdiv
  · have hmod : Arithmetic.onIntegers .mod a b = .ok (.integer (wordFloorMod a b)) := if_neg hb
    exact operation_of_ok d fuel .mod rfl hx hy hanswers hmod
  · intro hb operator hoperator hanswers hanswers'
    obtain ⟨op, hforward, hreflected, hfails⟩ : ∃ op : Arithmetic,
        operator.forward.arithmetic? = some (op, false) ∧
        operator.reflected.arithmetic? = some (op, true) ∧
        op.onIntegers a b = .error .divisionByZero := by
      simp only [List.mem_cons, List.not_mem_nil, or_false] at hoperator
      rcases hoperator with rfl | rfl | rfl
      · exact ⟨.div, rfl, rfl, if_pos hb⟩
      · exact ⟨.floorDiv, rfl, rfl, if_pos hb⟩
      · exact ⟨.mod, rfl, rfl, if_pos hb⟩
    have hgive : ∀ m', Arithmetic.give (op.onIntegers a b) m' =
        .error (.failed (.of .divisionByZero)) m' := fun m' => by rw [hfails]; rfl
    obtain ⟨h, -, hcall⟩ := callSymbol_arithmetic d fuel hforward hx hy hanswers
    obtain ⟨h', -, hcall'⟩ := callSymbol_arithmetic d fuel hreflected hy hx hanswers'
    exact ⟨⟨_, hcall.trans (hgive _)⟩, ⟨_, hcall'.trans (hgive _)⟩,
      operation_of_error d fuel operator hforward hreflected hx hy hanswers hanswers' hfails⟩

/-- An odd negative number is halved, and a number is divided by zero. -/
theorem floor_division_operands :
    let m : Machine := { (default : Machine) with
      heap := ⟨#[⟨.integer (-7), .empty, 0⟩, ⟨.integer 2, .empty, 0⟩, ⟨.integer 0, .empty, 0⟩]⟩ }
    wordFloorDiv (-7) 2 = -4 ∧ (wordFloorMod (-7) 2).toInt.sign = 1 ∧
      (∃ r m', (withFuel 1 .standard).operation .floorDiv ⟨0⟩ ⟨1⟩ m = .ok r m' ∧
        m'.heap.kind r = .integer (-4)) ∧
      ∃ m', (withFuel 1 .standard).operation .mod ⟨0⟩ ⟨2⟩ m =
        .error (.failed (.of .divisionByZero)) m' := by
  intro m
  obtain ⟨hwords, hoperators⟩ := floor_division .standard 0 (-7) 2
  obtain ⟨-, hzero⟩ := floor_division .standard 0 (-7) 0
  obtain ⟨-, -, -, hsign, -, -⟩ := hwords (by decide)
  obtain ⟨hfloor, -⟩ := (hoperators m ⟨0⟩ ⟨1⟩ rfl rfl).1 (by decide)
  obtain ⟨-, -, hfails⟩ := (hzero m ⟨0⟩ ⟨2⟩ rfl rfl).2 rfl .mod (by decide) (.inl rfl) (.inl rfl)
  exact ⟨by decide, hsign.resolve_left (by decide), hfloor (.inl rfl), hfails⟩

end Engine
end ScriptVM
