import TreeScript.Decimal.Numeral
import TreeScript.Double

/-!
# Numbers as text

`display` is the form that `print` writes:
positional between `0.001` and `10000000`, with a power of ten outside. `general` is the form in
which a token shows its literal. Both start from the shortest decimal that reads back.
-/

namespace TreeScript.Number

open Decimal

def ofInt (i : Int) : Double :=
  Double.ofPattern (decide (i < 0)) (Binary64.nearest i.natAbs 1)

def sum [Machine] (ns : List Nat) : Double :=
  ns.foldl (fun total (n : Nat) => total + ofInt n) (ofInt 0)

/-- Whether two numbers are the same: all NaNs are one number, and `0` is not `-0`. -/
def same (x y : Double) : Bool :=
  if x.isNaN || y.isNaN then x.isNaN && y.isNaN else x.bits == y.bits

def isZero (x : Double) : Bool := x.magnitude == 0

def sign (x : Double) : List Char := if x.isNegative then ['-'] else []

def smallestPlain : Nat := Binary64.nearest 1 1000

/-- The smallest magnitude from which on numbers are displayed with a power of ten again. -/
def smallestLarge : Nat := Binary64.nearest 10000000 1

/-- Whether a magnitude is displayed positionally. Magnitudes are ordered like the numbers. -/
def isPlain (pattern : Nat) : Bool :=
  pattern == 0 || (decide (smallestPlain ≤ pattern) && decide (pattern < smallestLarge))

def displayMantissa : List Char → List Char
  | [d] => [d, '.', '0']
  | ds => mantissa ds

def displayMagnitude (pattern : Nat) : List Char :=
  let d := ofPattern pattern
  if isPlain pattern then
    if pattern = 0 then ['0'] else d.toPositional
  else displayMantissa (digitsOf d.digits) ++ 'E' :: (toString (d.point - 1)).toList

def display (x : Double) : String :=
  if x.isNaN then "NaN"
  else if x.magnitude = Binary64.infinity then
    if x.isNegative then "-Infinity" else "Infinity"
  else String.ofList (sign x ++ displayMagnitude x.magnitude)

def signedExponent (e : Int) : List Char :=
  let digits := digitsOf e.natAbs
  (if e < 0 then '-' else '+') :: (if digits.length < 2 then '0' :: digits else digits)

/-- The form of a literal: positional when the power of ten of the first digit is at least `-4` and
below `6`. -/
def general (x : Double) : String :=
  if x.isNaN then "NaN"
  else if x.magnitude = Binary64.infinity then
    if x.isNegative then "-Inf" else "+Inf"
  else if x.magnitude = 0 then String.ofList (sign x ++ ['0'])
  else
    let d := ofPattern x.magnitude
    let e := d.point - 1
    String.ofList (sign x ++
      if e < -4 ∨ 6 ≤ e then mantissa (digitsOf d.digits) ++ 'e' :: signedExponent e
      else d.toPositional)

end TreeScript.Number
