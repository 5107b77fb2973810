import Mathlib.Data.Int.ModEq
import Mathlib.RingTheory.Coprime.Lemmas
import Mathlib.RingTheory.Int.Basic
import Mathlib.Tactic.Ring
import ScriptVM.Proofs.Number.Operator

/-!
# Powers of words

Squaring and multiplying words agrees with the power of integers, up to wrapping. The exponent stops
at the largest one that is counted with. Past it, the power is still that of the whole exponent when
the base is even, or when what is left out of the exponent makes no difference.
-/
namespace ScriptVM

/-! ## Words up to wrapping -/

theorem eq_of_modEq {a b : Int64} (h : a.toInt ≡ b.toInt [ZMOD 2 ^ 64]) : a = b := by
  have ha := a.le_toInt
  have ha' := a.toInt_lt
  have hb := b.le_toInt
  have hb' := b.toInt_lt
  unfold Int.ModEq at h
  exact Int64.toInt_inj.1 (by omega)

theorem toInt_mul_modEq (a b : Int64) : (a * b).toInt ≡ a.toInt * b.toInt [ZMOD 2 ^ 64] := by
  rw [Int64.toInt_mul]
  exact Int.bmod_emod

/-- The power of a word is that of the number it stands for, up to wrapping. -/
theorem wordPower_modEq (a : Int64) (n : Nat) :
    (wordPower a n).toInt ≡ a.toInt ^ n [ZMOD 2 ^ 64] := by
  induction a, n using wordPower.induct with
  | case1 a =>
    rw [wordPower, if_pos rfl, pow_zero, Int64.toInt_one]
  | case2 a n hn hodd ih =>
    rw [wordPower, if_neg hn]
    simp only [hodd, if_true]
    calc (a * wordPower (a * a) (n / 2)).toInt
        ≡ a.toInt * (wordPower (a * a) (n / 2)).toInt [ZMOD 2 ^ 64] := toInt_mul_modEq _ _
      _ ≡ a.toInt * (a.toInt * a.toInt) ^ (n / 2) [ZMOD 2 ^ 64] :=
        (ih.trans ((toInt_mul_modEq a a).pow _)).mul_left _
      _ = a.toInt ^ (2 * (n / 2) + 1) := by ring
      _ = a.toInt ^ n := by congr 1; omega
  | case3 a n hn heven ih =>
    rw [wordPower, if_neg hn]
    simp only [heven, if_false]
    calc (wordPower (a * a) (n / 2)).toInt
        ≡ (a.toInt * a.toInt) ^ (n / 2) [ZMOD 2 ^ 64] := ih.trans ((toInt_mul_modEq a a).pow _)
      _ = a.toInt ^ (2 * (n / 2)) := by ring
      _ = a.toInt ^ n := by congr 1; omega

/-! ## Exponents that stop -/

/-- Large powers of an even number are all zero, up to wrapping. -/
theorem even_pow_modEq {a : ℤ} (ha : Even a) {n : Nat} (hn : 64 ≤ n) : a ^ n ≡ 0 [ZMOD 2 ^ 64] :=
  Int.modEq_zero_iff_dvd.2 ((pow_dvd_pow 2 hn).trans (pow_dvd_pow_of_dvd ha.two_dvd n))

/-- A power of an odd number can be taken away. -/
theorem odd_pow_mul_modEq {a x : ℤ} (ha : Odd a) {n : Nat} :
    a ^ n * x ≡ a ^ n [ZMOD 2 ^ 64] ↔ x ≡ 1 [ZMOD 2 ^ 64] := by
  refine ⟨fun h => ?_, fun h => by simpa using h.mul_left (a ^ n)⟩
  have hcoprime : IsCoprime ((2 : ℤ) ^ 64) (a ^ n) := (Int.isCoprime_two_left.2 ha).pow
  rw [Int.modEq_iff_dvd] at h ⊢
  exact hcoprime.dvd_of_dvd_mul_left (h.trans (by rw [mul_sub, mul_one]))

/-- Where the exponent that is counted with gives the power of the whole one. -/
theorem pow_counted_modEq_iff (a : ℤ) (n : Nat) :
    a ^ min n maxExponent ≡ a ^ n [ZMOD 2 ^ 64] ↔
      n ≤ maxExponent ∨ Even a ∨ a ^ (n - maxExponent) ≡ 1 [ZMOD 2 ^ 64] := by
  rcases le_or_gt n maxExponent with hle | hlt
  · rw [Nat.min_eq_left hle]
    exact iff_of_true rfl (.inl hle)
  · have hmin : min n maxExponent = maxExponent := Nat.min_eq_right hlt.le
    have hsplit : a ^ n = a ^ maxExponent * a ^ (n - maxExponent) := by
      rw [← pow_add, Nat.add_sub_cancel' hlt.le]
    have hlarge : 64 ≤ maxExponent := by decide
    rw [hmin]
    rcases Int.even_or_odd a with heven | hodd
    · exact iff_of_true ((even_pow_modEq heven hlarge).trans
        (even_pow_modEq heven (hlarge.trans hlt.le)).symm) (.inr (.inl heven))
    · have hnot : ¬Even a := Int.not_even_iff_odd.2 hodd
      rw [hsplit, Int.modEq_comm, odd_pow_mul_modEq hodd]
      simp [hnot, hlt.not_ge]

/-- The power that is counted out is the whole one for the exponents that are counted with, and for
even bases. -/
theorem wordPower_counted_modEq {a : Int64} {n : Nat} (h : n ≤ maxExponent ∨ Even a.toInt) :
    (wordPower a (min n maxExponent)).toInt ≡ a.toInt ^ n [ZMOD 2 ^ 64] :=
  (wordPower_modEq a _).trans
    ((pow_counted_modEq_iff a.toInt n).2 (h.imp_right .inl))

/-! ## The operator -/

section words

variable {a b c : Int64}

theorem Arithmetic.pow_of_nonneg (a : Int64) (hb : 0 ≤ b) :
    Arithmetic.onIntegers .pow a b =
      .ok (.integer (wordPower a (min b.toInt.toNat maxExponent))) :=
  if_pos hb

/-- The sum of two exponents, where it is a word. -/
theorem toNat_add (hb : 0 ≤ b) (hc : 0 ≤ c) (h : b.toInt + c.toInt < 2 ^ 63) :
    0 ≤ b + c ∧ (b + c).toInt.toNat = b.toInt.toNat + c.toInt.toNat := by
  rw [Int64.le_iff_toInt_le, Int64.toInt_zero] at hb hc ⊢
  have hsum : (b + c).toInt = b.toInt + c.toInt := by
    rw [Int64.toInt_add, Int.bmod_eq_of_le (by omega) (by omega)]
  rw [hsum]
  exact ⟨by omega, by omega⟩

/-- Exponents add up where their sum is counted with, and for even bases. -/
theorem wordPower_add (hsum : b.toInt.toNat + c.toInt.toNat ≤ maxExponent ∨ Even a.toInt) :
    wordPower a (min (b.toInt.toNat + c.toInt.toNat) maxExponent) =
      wordPower a (min b.toInt.toNat maxExponent) * wordPower a (min c.toInt.toNat maxExponent) := by
  have hleft : b.toInt.toNat ≤ maxExponent ∨ Even a.toInt := hsum.imp_left (by omega)
  have hright : c.toInt.toNat ≤ maxExponent ∨ Even a.toInt := hsum.imp_left (by omega)
  refine eq_of_modEq ((wordPower_counted_modEq hsum).trans ?_)
  rw [pow_add]
  exact (((wordPower_counted_modEq hleft).mul (wordPower_counted_modEq hright)).symm).trans
    (toInt_mul_modEq _ _).symm

end words

namespace Engine

/-- The power of Integers for an exponent that is not negative: an Integer that is the power of the
whole exponent, up to wrapping, exactly where the exponent is counted with, where the base is even,
or where the rest of the exponent makes no difference. Exponents add up in the first two cases. -/
theorem power_of_integers (d : Digests) (fuel : Nat) {a b : Int64} (hb : 0 ≤ b) {m : Machine}
    {x y : Value} (hx : m.heap.kind x = .integer a) (hy : m.heap.kind y = .integer b)
    (hanswers : m.heap.Answers x .pow) :
    ∃ r m' p, (withFuel (fuel + 1) d).operation .pow x y m = .ok r m' ∧
      m'.heap.kind r = .integer p ∧
      (p.toInt ≡ a.toInt ^ b.toInt.toNat [ZMOD 2 ^ 64] ↔
        b.toInt.toNat ≤ maxExponent ∨ Even a.toInt ∨
          a.toInt ^ (b.toInt.toNat - maxExponent) ≡ 1 [ZMOD 2 ^ 64]) ∧
      ∀ c : Int64, 0 ≤ c → b.toInt + c.toInt < 2 ^ 63 →
        b.toInt.toNat + c.toInt.toNat ≤ maxExponent ∨ Even a.toInt →
        ∃ q, Arithmetic.onIntegers .pow a c = .ok (.integer q) ∧
          Arithmetic.onIntegers .pow a (b + c) = .ok (.integer (p * q)) := by
  obtain ⟨r, m', hoperation, hr⟩ := operation_of_ok d fuel .pow rfl hx hy hanswers
    (Arithmetic.pow_of_nonneg a hb)
  refine ⟨r, m', _, hoperation, hr, ?_, fun c hc hrange hsum => ?_⟩
  · rw [← pow_counted_modEq_iff]
    have hpower := wordPower_modEq a (min b.toInt.toNat maxExponent)
    exact ⟨hpower.symm.trans, hpower.trans⟩
  · obtain ⟨hnonneg, hnat⟩ := toNat_add hb hc hrange
    refine ⟨_, Arithmetic.pow_of_nonneg a hc, ?_⟩
    rw [Arithmetic.pow_of_nonneg a hnonneg, hnat, wordPower_add hsum]

/-- Ten to the second and to the third. -/
theorem power_of_integers_ten :
    let m : Machine := { (default : Machine) with
      heap := ⟨#[⟨.integer 10, .empty, 0⟩, ⟨.integer 2, .empty, 0⟩]⟩ }
    ∃ r m' p, (withFuel 1 .standard).operation .pow ⟨0⟩ ⟨1⟩ m = .ok r m' ∧ m'.heap.kind r = .integer p ∧
      p.toInt ≡ 10 ^ 2 [ZMOD 2 ^ 64] ∧
      ∃ q, Arithmetic.onIntegers .pow 10 3 = .ok (.integer q) ∧
        Arithmetic.onIntegers .pow 10 5 = .ok (.integer (p * q)) := by
  intro m
  obtain ⟨r, m', p, hoperation, hr, hpower, hadd⟩ := power_of_integers .standard 0 (m := m) (x := ⟨0⟩)
    (y := ⟨1⟩) (a := 10) (b := 2) (by decide) rfl rfl (.inl rfl)
  exact ⟨r, m', p, hoperation, hr, hpower.2 (.inl (by decide)),
    hadd 3 (by decide) (by decide) (.inl (by decide))⟩

/-- The exponent next to the largest one that is counted with: it is even, but minus one stays minus
one. -/
theorem power_past_counted :
    let m : Machine := { (default : Machine) with
      heap := ⟨#[⟨.integer (-1), .empty, 0⟩, ⟨.integer 4294967296, .empty, 0⟩]⟩ }
    ∃ r m', (withFuel 1 .standard).operation .pow ⟨0⟩ ⟨1⟩ m = .ok r m' ∧ m'.heap.kind r =
      .integer (-1) ∧
      ¬(-1 : Int64).toInt ≡ (-1) ^ (4294967296 : Int64).toInt.toNat [ZMOD 2 ^ 64] := by
  intro m
  obtain ⟨r, m', hoperation, hr⟩ := operation_of_ok (m := m) (x := ⟨0⟩) (y := ⟨1⟩) .standard 0 .pow rfl
    rfl rfl (.inl rfl) (Arithmetic.pow_of_nonneg (-1) (b := 4294967296) (by decide))
  have hmin : min (4294967296 : Int64).toInt.toNat maxExponent = maxExponent := by decide
  have hpower : wordPower (-1) maxExponent = -1 := by
    refine eq_of_modEq ((wordPower_modEq (-1) maxExponent).trans ?_)
    rw [show (-1 : Int64).toInt = -1 from rfl, Odd.neg_one_pow (by decide)]
  have heven : (-1 : ℤ) ^ (4294967296 : Int64).toInt.toNat = 1 := Even.neg_one_pow (by decide)
  refine ⟨r, m', hoperation, ?_, ?_⟩
  · rw [hr, hmin, hpower]
    rfl
  · rw [heven]
    decide

end Engine
end ScriptVM
