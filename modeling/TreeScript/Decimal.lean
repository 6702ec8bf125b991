/-!
# Decimals

A non-negative number as an integer and a power of ten.
-/

namespace TreeScript

structure Decimal where
  digits : Nat
  exponent : Int
deriving DecidableEq, Repr

end TreeScript
