/-!
Numbers of binary floating point with 53 significant bits.

A finite number is a natural number times a power of two, with a sign.  Every
operation goes through `ofRatio`, which rounds an exact quotient to the nearest
number, and to the one with an even significand when two are equally near.
-/

namespace FlatExports

inductive Binary64 where
  | finite (negative : Bool) (significand : Nat) (exponent : Int)
  | infinite (negative : Bool)
  | notNumber
  deriving DecidableEq, Repr

namespace Binary64

def precision : Nat := 53

def leastExponent : Int := -1074

def largestExponent : Int := 971

/-- The natural number nearest to a quotient, the even one of two. -/
def nearest (numerator denominator : Nat) : Nat :=
  let below := numerator / denominator
  let rest := 2 * (numerator % denominator)
  if rest < denominator then below
  else if denominator < rest then below + 1
  else below + below % 2

/-- A quotient divided by a power of two, as a new quotient. -/
def scaleDown (numerator denominator : Nat) (exponent : Int) : Nat × Nat :=
  if 0 ≤ exponent then (numerator, denominator * Nat.pow 2 exponent.toNat)
  else (numerator * Nat.pow 2 (-exponent).toNat, denominator)

/-- The exponent that leaves a quotient a significand of full precision. -/
def exponentFor (numerator denominator : Nat) : Int :=
  let guess : Int := (numerator.log2 : Int) - denominator.log2 - precision
  let (n, d) := scaleDown numerator denominator (guess + 1)
  max leastExponent (if n / d < Nat.pow 2 (precision - 1) then guess else guess + 1)

def ofRatio (negative : Bool) (numerator denominator : Nat) : Binary64 :=
  if numerator = 0 ∨ denominator = 0 then .finite negative 0 leastExponent
  else
    let exponent := exponentFor numerator denominator
    let (n, d) := scaleDown numerator denominator exponent
    let significand := nearest n d
    let (significand, exponent) :=
      if significand < Nat.pow 2 precision then (significand, exponent)
      else (significand / 2, exponent + 1)
    if largestExponent < exponent then .infinite negative
    else .finite negative significand exponent

/-- A power of ten past all finite numbers, and its inverse below all of them. -/
def decimalLimit : Nat := 400

/-- The number nearest to a whole number times a power of ten. -/
def ofDecimal (negative : Bool) (digits : Nat) (exponent : Int) : Binary64 :=
  if digits = 0 ∨ exponent < -(decimalLimit + digits.log2 : Nat) then ofRatio negative 0 1
  else if decimalLimit < exponent then .infinite negative
  else if 0 ≤ exponent then ofRatio negative (digits * Nat.pow 10 exponent.toNat) 1
  else ofRatio negative digits (Nat.pow 10 (-exponent).toNat)

/-- A significand and an exponent as a quotient. -/
def ratio (significand : Nat) (exponent : Int) : Nat × Nat :=
  if 0 ≤ exponent then (significand * Nat.pow 2 exponent.toNat, 1)
  else (significand, Nat.pow 2 (-exponent).toNat)

def isZero : Binary64 → Bool
  | finite _ significand _ => significand = 0
  | _ => false

/-- The whole number a finite number is equal to, if there is one. -/
def whole? : Binary64 → Option Int
  | finite negative significand exponent =>
      let (numerator, denominator) := ratio significand exponent
      if numerator % denominator = 0 then
        let size : Int := (numerator / denominator : Nat)
        some (if negative then -size else size)
      else none
  | _ => none

def negate : Binary64 → Binary64
  | finite negative significand exponent => .finite (!negative) significand exponent
  | infinite negative => .infinite (!negative)
  | notNumber => .notNumber

def addScaled (first : Binary64) (factor : Nat) (second : Binary64) : Binary64 :=
  let times (number : Binary64) (factor : Nat) : Binary64 :=
    match number with
    | finite negative significand exponent =>
        let (numerator, denominator) := ratio significand exponent
        ofRatio negative (numerator * factor) denominator
    | other => other
  match times first factor, second with
  | finite _ s e, finite _ s' e' =>
      let (n, d) := ratio s e
      let (n', d') := ratio s' e'
      ofRatio false (n * d' + n' * d) (d * d')
  | finite .., other => other
  | other, _ => other

end Binary64

end FlatExports
