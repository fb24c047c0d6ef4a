/-!
# Whole numbers in decimal digits

A number is a sign, which may be left out, and at least one digit. A number without a sign bit takes a plus
and no minus.

- `integer?`: a number between two bounds.
- `word?`: a natural number below a power of two.
-/

namespace Depot.Text.Decimal

/-- The value of digits, highest first, behind digits whose value is `high`. -/
def value? (high : Nat) : List Char → Option Nat
  | [] => some high
  | c :: rest => if c.isDigit then value? (10 * high + (c.toNat - '0'.toNat)) rest else none

/-- The value of at least one digit. -/
def natural? (digits : List Char) : Option Nat :=
  if digits.isEmpty then none else value? 0 digits

def integer? (low high : Int) (text : String) : Option Int := do
  let value ← match text.toList with
    | '-' :: digits => (natural? digits).map fun n => -(n : Int)
    | '+' :: digits => (natural? digits).map Int.ofNat
    | digits => (natural? digits).map Int.ofNat
  if low ≤ value ∧ value ≤ high then some value else none

/-- A signed 64-bit number. -/
def int64? (text : String) : Option Int :=
  integer? Int64.minValue.toInt Int64.maxValue.toInt text

def word? (bits : Nat) (text : String) : Option Nat := do
  let value ← match text.toList with
    | '+' :: digits => natural? digits
    | digits => natural? digits
  if value < 1 <<< bits then some value else none

end Depot.Text.Decimal
