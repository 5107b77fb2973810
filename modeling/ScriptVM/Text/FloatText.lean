import ScriptVM.Text.ShortestDecimal

/-!
# The text of a float

A finite float is written with the fewest digits that read back: positionally when its decimal
exponent lies between `-4` and `16`, in scientific notation otherwise. A whole number keeps one
zero after the point.
-/
namespace ScriptVM.Text

/-- Where positional notation ends and how an exponent is written. -/
structure FloatLayout where
  /-- The largest number of digits before the point in positional notation. -/
  maxPoint : Int
  /-- Positional notation has fewer zeros after the point than this says, counted negatively. -/
  minPoint : Int
  /-- Whether a positive exponent has a plus sign. -/
  plusSign : Bool

/-- Numbers are positional up to sixteen digits before the point and four zeros after it, and a
positive exponent has no sign. -/
def floatLayout : FloatLayout := ⟨16, -5, false⟩

/-- The text of an exponent of ten in a layout. -/
def exponentText (layout : FloatLayout) (exponent : Int) : String :=
  "e" ++ (if layout.plusSign && 0 ≤ exponent then "+" else "") ++ toString exponent

/-- The text of a positive decimal in a layout. -/
def layoutDecimal (layout : FloatLayout) (d : Decimal) : String :=
  let digits := toString d.digits
  let count : Int := digits.length
  let point := d.exponent + count
  let zeros := fun (n : Int) => String.ofList (List.replicate n.toNat '0')
  let take := fun (n : Int) => String.ofList (digits.toList.take n.toNat)
  let drop := fun (n : Int) => String.ofList (digits.toList.drop n.toNat)
  if 0 ≤ d.exponent && point ≤ layout.maxPoint then digits ++ zeros d.exponent ++ ".0"
  else if 0 < point && point ≤ layout.maxPoint then take point ++ "." ++ drop point
  else if layout.minPoint < point && point ≤ 0 then "0." ++ zeros (-point) ++ digits
  else if count = 1 then digits ++ exponentText layout (point - 1)
  else take 1 ++ "." ++ drop 1 ++ exponentText layout (point - 1)

/-- The text of a float in a layout. -/
def formatFloatIn (layout : FloatLayout) (x : Float) : String :=
  if x.isNaN then "NaN"
  else
    let bits := x.toBits.toNat
    let sign := if bits / 0x8000000000000000 = 1 then "-" else ""
    let magnitude := bits % 0x8000000000000000
    if x.isInf then sign ++ "inf"
    else if magnitude = 0 then sign ++ "0.0"
    else sign ++ layoutDecimal layout (BinaryNumber.ofBits magnitude).shortest

/-- The text of a float as programs and listings show it. -/
def formatFloat (x : Float) : String := formatFloatIn floatLayout x

end ScriptVM.Text
