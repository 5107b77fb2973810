/-!
# Reading whole numbers

Digits in a radix, signed 64-bit numbers and unsigned 64-bit counts. A sign stands only in
front and never alone, separators are not accepted, and a number out of range is refused.
-/
namespace ScriptVM.Text

/-- The value of a digit in a radix up to 36, letters in either case. -/
def digit? (radix : Nat) (c : Char) : Option Nat :=
  let value :=
    if '0' ≤ c ∧ c ≤ '9' then c.toNat - '0'.toNat
    else if 'a' ≤ c ∧ c ≤ 'z' then c.toNat - 'a'.toNat + 10
    else if 'A' ≤ c ∧ c ≤ 'Z' then c.toNat - 'A'.toNat + 10
    else radix
  if value < radix then some value else none

/-- The value of a run of digits that continues a number already worth `start`. -/
def digitsFrom? (radix : Nat) (start : Nat) : List Char → Option Nat
  | [] => some start
  | c :: rest => (digit? radix c).bind fun d => digitsFrom? radix (start * radix + d) rest

/-- The value of a non-empty run of digits. -/
def natural? (radix : Nat) (cs : List Char) : Option Nat :=
  if cs.isEmpty then none else digitsFrom? radix 0 cs

/-- The 64-bit signed word of a number that fits. -/
def int64OfInt? (n : Int) : Option Int64 :=
  if -0x8000000000000000 ≤ n ∧ n < 0x8000000000000000 then some (Int64.ofInt n) else none

/-- A signed 64-bit number in a radix: an optional sign, then digits. -/
def int64? (radix : Nat) (cs : List Char) : Option Int64 :=
  let magnitude := fun digits => (natural? radix digits).map Int.ofNat
  let value :=
    match cs with
    | '-' :: digits => (magnitude digits).map fun n => -n
    | '+' :: digits => magnitude digits
    | digits => magnitude digits
  value.bind int64OfInt?

/-- The largest count a machine word of 64 bits holds. -/
def maxCount : Nat := 0xFFFFFFFFFFFFFFFF

/-- An unsigned 64-bit decimal count: an optional plus sign, then digits. -/
def count? (cs : List Char) : Option Nat :=
  let value :=
    match cs with
    | '+' :: digits => natural? 10 digits
    | digits => natural? 10 digits
  value.filter fun n => n ≤ maxCount

end ScriptVM.Text
