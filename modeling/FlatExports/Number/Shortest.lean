import FlatExports.Number.Binary64

/-!
The shortest decimal text of a binary number.

Of all decimals that read back as the number, the text has the fewest digits,
and of those the nearest ones.  Between a ten-thousandth and ten to the
sixteenth the text is positional, with at least one digit behind the point;
elsewhere it has an exponent of at least two digits.
-/

namespace FlatExports.Binary64

structure Decimal where
  digits : Nat
  exponent : Int
  deriving DecidableEq, Repr

/-- The two multiples of a power of ten next to a quotient, the nearer one first. -/
def neighbours (numerator denominator : Nat) (exponent : Int) : List Decimal :=
  let (n, d) :=
    if 0 ≤ exponent then (numerator, denominator * Nat.pow 10 exponent.toNat)
    else (numerator * Nat.pow 10 (-exponent).toNat, denominator)
  let below := n / d
  let pair : List Decimal := [⟨below, exponent⟩, ⟨below + 1, exponent⟩]
  if 2 * (n % d) ≤ d then pair else pair.reverse

/-- The nearest of the decimals with a power of ten that reads back. -/
def readsBack? (significand : Nat) (binary ten : Int) : Option Decimal :=
  let (numerator, denominator) := ratio significand binary
  (neighbours numerator denominator ten).find? fun decimal =>
    ofDecimal false decimal.digits decimal.exponent = .finite false significand binary

def digitCount (n : Nat) : Nat := (toString n).length

/-- The position of the first digit of a quotient: the power of ten below it. -/
def leadingPower (numerator denominator : Nat) : Int :=
  let guess : Int := (digitCount numerator : Int) - digitCount denominator
  let (n, d) :=
    if 0 ≤ guess then (numerator, denominator * Nat.pow 10 guess.toNat)
    else (numerator * Nat.pow 10 (-guess).toNat, denominator)
  if n < d then guess - 1 else guess

def shortest (significand : Nat) (exponent : Int) : Decimal :=
  let (numerator, denominator) := ratio significand exponent
  let power := leadingPower numerator denominator
  ((List.range 17).findSome? fun (more : Nat) =>
    readsBack? significand exponent (power - more)).getD ⟨numerator, 0⟩

/-- A decimal without zeros at its end. -/
def trimmed : Nat → Decimal → Decimal
  | 0, decimal => decimal
  | left + 1, decimal =>
      if decimal.digits % 10 = 0 ∧ decimal.digits ≠ 0 then
        trimmed left ⟨decimal.digits / 10, decimal.exponent + 1⟩
      else decimal

def zeros (n : Nat) : List Char := List.replicate n '0'

/-- The digits with a point after the first `whole` of them. -/
def pointed (digits : List Char) (whole : Int) : List Char :=
  if whole ≤ 0 then '0' :: '.' :: zeros (-whole).toNat ++ digits
  else
    let whole := whole.toNat
    if digits.length ≤ whole then digits ++ zeros (whole - digits.length) ++ ['.', '0']
    else digits.take whole ++ '.' :: digits.drop whole

def exponentText (exponent : Int) : List Char :=
  let digits := (toString exponent.natAbs).toList
  'e' :: (if exponent < 0 then '-' else '+') :: zeros (2 - digits.length) ++ digits

def decimalText (decimal : Decimal) : List Char :=
  let decimal := trimmed 20 decimal
  let digits := (toString decimal.digits).toList
  let power := decimal.exponent + digits.length - 1
  if -4 ≤ power ∧ power < 16 then pointed digits (power + 1)
  else
    (match digits with
      | [single] => [single]
      | first :: rest => first :: '.' :: rest
      | [] => []) ++ exponentText power

def text : Binary64 → String
  | finite negative significand exponent =>
      let body :=
        if significand = 0 then ['0', '.', '0'] else decimalText (shortest significand exponent)
      String.ofList (if negative then '-' :: body else body)
  | infinite negative => if negative then "-inf" else "inf"
  | notNumber => "nan"

end FlatExports.Binary64
