import TreeScript.Decimal.Shortest

/-!
# Decimal numerals as text

Digit strings, their values, and the two ways to place the point among the digits of a decimal:
positional, and with one digit before the point and a power of ten behind the digits.
-/

namespace TreeScript.Decimal

def digitsOf (n : Nat) : List Char := Nat.toDigits 10 n

def digitValue? (c : Char) : Option Nat :=
  if '0' ≤ c ∧ c ≤ '9' then some (c.toNat - '0'.toNat)
  else if 'a' ≤ c ∧ c ≤ 'f' then some (c.toNat - 'a'.toNat + 10)
  else if 'A' ≤ c ∧ c ≤ 'F' then some (c.toNat - 'A'.toNat + 10)
  else none

/-- The value of a digit string in a base; `none` if a character is no digit of that base.
The empty string has the value zero. -/
def valueOf? (base : Nat) (cs : List Char) : Option Nat :=
  cs.foldl
    (fun acc c => acc.bind fun v => (digitValue? c).bind fun d =>
      if d < base then some (v * base + d) else none)
    (some 0)

def zeros (n : Nat) : List Char := List.replicate n '0'

/-- The digits with the point after the first `point` of them, filled up with zeros on the side
where digits are missing. -/
def positional (digits : List Char) (point : Int) : List Char :=
  if point ≤ 0 then '0' :: '.' :: (zeros (-point).toNat ++ digits)
  else if (digits.length : Int) ≤ point then
    digits ++ zeros (point.toNat - digits.length)
  else digits.take point.toNat ++ '.' :: digits.drop point.toNat

def mantissa : List Char → List Char
  | [] => []
  | [d] => [d]
  | d :: ds => d :: '.' :: ds

def point (d : Decimal) : Int := (digitsOf d.digits).length + d.exponent

def toPositional (d : Decimal) : List Char := positional (digitsOf d.digits) d.point

/-- The pattern of the binary64 number closest to a decimal. A decimal far outside the range of
the format is settled without computing its power of ten. -/
def toPattern (d : Decimal) : Nat :=
  if d.digits = 0 then 0
  else if 400 < d.exponent then Binary64.infinity
  else if d.exponent < -((400 + d.digits.log2 : Nat) : Int) then 0
  else Binary64.nearest (d.digits * Nat.pow 10 d.exponent.toNat) (Nat.pow 10 (-d.exponent).toNat)

end TreeScript.Decimal
