import ScriptVM.Text.Integer

/-!
# Reading floats

The text of a float: an optional sign, digits with an optional point among or beside them, and
an optional exponent; or one of the words `inf`, `infinity` and `nan` in any case. The value is
the nearest float, an infinity when it is too large and zero when it is too small.
-/
namespace ScriptVM.Text

/-- The parts of an unsigned decimal: the digits as one number, how many there are, and the
power of ten that multiplies them. -/
structure DecimalParts where
  digits : Nat
  exponent : Int
  deriving DecidableEq, Repr

/-- The run of decimal digits at the front of a text, and the rest. -/
def spanDigits (cs : List Char) : List Char × List Char :=
  cs.span fun c => '0' ≤ c && c ≤ '9'

/-- The value of a run of decimal digits. -/
def digitsValue (cs : List Char) : Nat := (digitsFrom? 10 0 cs).getD 0

/-- An exponent: a letter `e`, an optional sign and digits; nothing counts as zero. -/
def exponent? : List Char → Option Int
  | [] => some 0
  | e :: rest =>
    if e = 'e' ∨ e = 'E' then
      let (negative, digits) :=
        match rest with
        | '-' :: digits => (true, digits)
        | '+' :: digits => (false, digits)
        | digits => (false, digits)
      (natural? 10 digits).map fun n => if negative then -(Int.ofNat n) else Int.ofNat n
    else none

/-- The parts of an unsigned decimal text with at least one digit before the exponent. -/
def decimalParts? (cs : List Char) : Option DecimalParts :=
  let (whole, afterWhole) := spanDigits cs
  let (fraction, rest) :=
    match afterWhole with
    | '.' :: tail => spanDigits tail
    | tail => ([], tail)
  if whole.isEmpty && fraction.isEmpty then none
  else (exponent? rest).map fun e => ⟨digitsValue (whole ++ fraction), e - fraction.length⟩

/-- The float nearest to a decimal. The exponent is cut to the range in which it matters. -/
def DecimalParts.toFloat (d : DecimalParts) : Float :=
  if d.digits = 0 then 0.0
  else
    let order := d.exponent + Int.ofNat (Nat.log2 d.digits * 30103 / 100000)
    if 400 < order then Float.ofScientific 1 false 400
    else if order < -400 then 0.0
    else if 0 ≤ d.exponent then Float.ofScientific d.digits false d.exponent.toNat
    else Float.ofScientific d.digits true (-d.exponent).toNat

/-- A text with its ASCII capitals made small. -/
def lowerAscii (cs : List Char) : List Char := cs.map Char.toLower

/-- An unsigned float: a decimal or one of the words. -/
def magnitude? (cs : List Char) : Option Float :=
  let word := String.ofList (lowerAscii cs)
  if word = "inf" ∨ word = "infinity" then some (1.0 / 0.0)
  else if word = "nan" then some (0.0 / 0.0)
  else (decimalParts? cs).map DecimalParts.toFloat

/-- A float: an optional sign and a magnitude. -/
def float? : List Char → Option Float
  | '-' :: cs => (magnitude? cs).map fun x => -x
  | '+' :: cs => magnitude? cs
  | cs => magnitude? cs

end ScriptVM.Text
