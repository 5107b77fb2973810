/-!
# Shortest decimals

A positive binary floating-point number is a mantissa times a power of two. The reals that
round to it form an interval, and every decimal in that interval reads back as the number.
`shortest` picks the decimal with the fewest digits in the interval, among those the nearest
to the number, and between two equally near ones the even one. All arithmetic is exact.
-/
namespace ScriptVM.Text

/-- A positive decimal number, `digits` times ten to the power `exponent`. -/
structure Decimal where
  digits : Nat
  exponent : Int
  deriving DecidableEq, Repr

/-- A positive binary number `mantissa · 2 ^ exponent` with its rounding interval.

`atBoundary` says that the neighbour below is only half as far away as the one above. The ends
of the interval belong to it exactly when the mantissa is even. -/
structure BinaryNumber where
  mantissa : Nat
  exponent : Int
  atBoundary : Bool
  deriving DecidableEq, Repr

namespace BinaryNumber

/-- Four times the number over a common denominator, so that half a step is a whole number:
the result is the number's quadruple `x` and the denominator `d`, for the value `x / d`. -/
def quarters (b : BinaryNumber) : Nat × Nat :=
  let shift := b.exponent - 2
  if 0 ≤ shift then (4 * b.mantissa * Nat.pow 2 shift.toNat, 1)
  else (4 * b.mantissa, Nat.pow 2 (-shift).toNat)

/-- The distance to the ends of the rounding interval, below and above, over the same
denominator as `quarters`. -/
def margins (b : BinaryNumber) : Nat × Nat :=
  let unit := if 0 ≤ b.exponent - 2 then Nat.pow 2 (b.exponent - 2).toNat else 1
  (if b.atBoundary then unit else 2 * unit, 2 * unit)

/-- Whether `x`, over the number's denominator scaled by `scale`, lies in the interval. -/
def covers (b : BinaryNumber) (scale x : Nat) : Bool :=
  let value := b.quarters.1 * scale
  let low := value - b.margins.1 * scale
  let high := value + b.margins.2 * scale
  if b.mantissa % 2 = 0 then low ≤ x && x ≤ high else low < x && x < high

/-- The best decimal in the interval with the given power of ten, if there is one. -/
def onGrid? (b : BinaryNumber) (exponent : Int) : Option Decimal :=
  let (x, d) := b.quarters
  let scale := if 0 ≤ exponent then 1 else Nat.pow 10 (-exponent).toNat
  let unit := if 0 ≤ exponent then d * Nat.pow 10 exponent.toNat else d
  let value := x * scale
  let below := value / unit
  let above := below + 1
  let hitsBelow := below ≠ 0 && b.covers scale (below * unit)
  let hitsAbove := b.covers scale (above * unit)
  let fromBelow := value - below * unit
  let fromAbove := above * unit - value
  if hitsBelow && hitsAbove then
    if fromBelow < fromAbove then some ⟨below, exponent⟩
    else if fromAbove < fromBelow then some ⟨above, exponent⟩
    else if below % 2 = 0 then some ⟨below, exponent⟩
    else some ⟨above, exponent⟩
  else if hitsBelow then some ⟨below, exponent⟩
  else if hitsAbove then some ⟨above, exponent⟩
  else none

/-- The first hit on successively finer grids, at most `count` of them. -/
def firstHit? (b : BinaryNumber) : Nat → Int → Option Decimal
  | 0, _ => none
  | count + 1, exponent => (b.onGrid? exponent).or (b.firstHit? count (exponent - 1))

/-- A power of ten at or above the number, by at most two orders of magnitude. -/
def gridAbove (b : BinaryNumber) : Int :=
  let bits : Int := Int.ofNat (Nat.log2 b.mantissa) + 1 + b.exponent
  (bits * 30103).fdiv 100000 + 1

/-- Removes zeros at the end of the digits, at most `count` of them. -/
def dropZeros : Nat → Decimal → Decimal
  | 0, d => d
  | count + 1, d =>
    if d.digits ≠ 0 && d.digits % 10 = 0 then dropZeros count ⟨d.digits / 10, d.exponent + 1⟩
    else d

/-- The shortest decimal that reads back as the number. -/
def shortest (b : BinaryNumber) : Decimal :=
  dropZeros 400 ((b.firstHit? 20 b.gridAbove).getD ⟨0, 0⟩)

end BinaryNumber

/-- The binary number of a finite positive double, from its bits without the sign. -/
def BinaryNumber.ofBits (bits : Nat) : BinaryNumber :=
  let field := bits / 0x10000000000000
  let fraction := bits % 0x10000000000000
  if field = 0 then ⟨fraction, -1074, false⟩
  else ⟨0x10000000000000 + fraction, Int.ofNat field - 1075, fraction = 0 && 1 < field⟩

end ScriptVM.Text
