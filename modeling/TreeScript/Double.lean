import TreeScript.Decimal.Binary64

/-!
# Numbers

A number is the 64 bits of a binary64 number. `toFloat` is the number that they stand for; all bits
of no number stand for the same one, so that arithmetic and comparison do not depend on which of
them an operand has. Which of them a result has is up to the `Machine`.
-/

namespace TreeScript

open Decimal.Binary64 (infinity signBit)

structure Double where
  bits : UInt64
deriving DecidableEq, Repr

namespace Double

def ofPattern (negative : Bool) (pattern : Nat) : Double :=
  ⟨UInt64.ofNat (if negative then signBit + pattern else pattern)⟩

def magnitude (x : Double) : Nat := x.bits.toNat % signBit

def isNegative (x : Double) : Bool := decide (signBit ≤ x.bits.toNat)

def isNaN (x : Double) : Bool := decide (infinity < x.magnitude)

def toFloat (x : Double) : Float := .ofBits x.bits

inductive Operation where
  | add | sub | mul | div | neg
deriving DecidableEq, Repr

end Double

/-- The NaN that each operation gives for its operands where its result is no number. -/
class Machine where
  nan : Double.Operation → Double → Double → Double
  isNaN_nan : ∀ operation x y, (nan operation x y).isNaN = true

namespace Double

section Arithmetic

variable [Machine]

def ofResult (operation : Operation) (x y : Double) (result : Float) : Double :=
  if result.isNaN then Machine.nan operation x y else ⟨result.toBits⟩

instance : Add Double := ⟨fun x y => ofResult .add x y (x.toFloat + y.toFloat)⟩

instance : Sub Double := ⟨fun x y => ofResult .sub x y (x.toFloat - y.toFloat)⟩

instance : Mul Double := ⟨fun x y => ofResult .mul x y (x.toFloat * y.toFloat)⟩

instance : Div Double := ⟨fun x y => ofResult .div x y (x.toFloat / y.toFloat)⟩

instance : Neg Double := ⟨fun x => ofResult .neg x x (-x.toFloat)⟩

end Arithmetic

instance : LT Double := ⟨fun x y => x.toFloat < y.toFloat⟩

instance : LE Double := ⟨fun x y => x.toFloat ≤ y.toFloat⟩

instance (x y : Double) : Decidable (x < y) := inferInstanceAs (Decidable (x.toFloat < y.toFloat))

instance (x y : Double) : Decidable (x ≤ y) := inferInstanceAs (Decidable (x.toFloat ≤ y.toFloat))

/-! ## A common machine -/

def quietBit : UInt64 := 0x0008000000000000

def quieted (x : Double) : Double := ⟨x.bits ||| quietBit⟩

def flipped (x : Double) : Double := ⟨x.bits ^^^ 0x8000000000000000⟩

theorem isNaN_quieted {x : Double} (h : x.isNaN = true) : x.quieted.isNaN = true := by
  rw [isNaN, decide_eq_true_iff, magnitude, signBit] at h ⊢
  have hbits : (x.bits ||| quietBit).toNat % 2 ^ 63 =
      x.bits.toNat % 2 ^ 63 ||| quietBit.toNat % 2 ^ 63 := by
    rw [UInt64.toNat_or, Nat.or_mod_two_pow]
  have hle : x.bits.toNat % 2 ^ 63 ≤ (x.bits ||| quietBit).toNat % 2 ^ 63 :=
    hbits ▸ Nat.left_le_or
  exact Nat.lt_of_lt_of_le h hle

theorem isNaN_flipped {x : Double} (h : x.isNaN = true) : x.flipped.isNaN = true := by
  rw [isNaN, decide_eq_true_iff, magnitude, signBit] at h ⊢
  have hbits : (x.bits ^^^ 0x8000000000000000).toNat % 2 ^ 63 = x.bits.toNat % 2 ^ 63 := by
    rw [UInt64.toNat_xor, Nat.xor_mod_two_pow]
    exact Nat.xor_zero _
  exact Nat.lt_of_lt_of_eq h hbits.symm

end Double

/-- The first operand that is no number goes on, made quiet, and a negation changes its sign. -/
instance Machine.passing : Machine where
  nan
    | .neg, x, _ => if x.isNaN then x.flipped else ⟨0x7FF8000000000000⟩
    | _, x, y =>
      if x.isNaN then x.quieted else if y.isNaN then y.quieted else ⟨0xFFF8000000000000⟩
  isNaN_nan operation x y := by
    have hpassed : (if x.isNaN then x.quieted else if y.isNaN then y.quieted
        else ⟨0xFFF8000000000000⟩ : Double).isNaN = true := by
      split
      · exact Double.isNaN_quieted ‹_›
      · split
        · exact Double.isNaN_quieted ‹_›
        · decide
    cases operation with
    | neg =>
      change (if x.isNaN then x.flipped else _ : Double).isNaN = true
      split
      · exact Double.isNaN_flipped ‹_›
      · decide
    | _ => exact hpassed

end TreeScript
