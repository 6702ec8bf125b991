/-!
# Binary64 magnitudes in exact arithmetic

A finite binary64 number without its sign is a natural number below `infinity`, its bit pattern.
The pattern stands for `significand * 2 ^ exponent`, and larger patterns stand for larger numbers.
`nearest` is the other direction: the pattern of the number closest to a fraction, where a fraction
halfway between two numbers goes to the even pattern and one beyond the largest number goes to
`infinity`.
-/

namespace TreeScript.Decimal.Binary64

def infinity : Nat := 0x7FF0000000000000

def signBit : Nat := 0x8000000000000000

/-- The weight of the bit that all but the smallest significands start with and that no pattern
holds. -/
def hiddenBit : Nat := 0x10000000000000

def significand (pattern : Nat) : Nat :=
  if pattern < hiddenBit then pattern else hiddenBit + pattern % hiddenBit

def exponent (pattern : Nat) : Int :=
  ((pattern / hiddenBit - 1 : Nat) : Int) - 1074

/-- The integer closest to `n / d`; halfway between two it is the even one. -/
def roundDiv (n d : Nat) : Nat :=
  if 2 * (n % d) < d ∨ (2 * (n % d) = d ∧ n / d % 2 = 0) then n / d else n / d + 1

def order (n d : Nat) : Int :=
  let e : Int := (n.log2 : Int) - (d.log2 : Int)
  if d * Nat.pow 2 e.toNat ≤ n * Nat.pow 2 (-e).toNat then e else e - 1

/-- The pattern of the binary64 number closest to `n / d`. -/
def nearest (n d : Nat) : Nat :=
  if n = 0 then 0
  else
    let e := max (-1074) (order n d - 52)
    min infinity ((e + 1074).toNat * hiddenBit +
      roundDiv (n * Nat.pow 2 (-e).toNat) (d * Nat.pow 2 e.toNat))

end TreeScript.Decimal.Binary64
