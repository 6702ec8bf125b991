import Mathlib
import TreeScript.Decimal.Numeral
import TreeScript.Double

/-!
# The numbers that patterns stand for

A finite pattern stands for the rational number `value`. `order` finds the power of two that a
fraction starts at (`order_spec`). With its sign a pattern makes up the bits of a number. `toFloat`
tells numbers apart by their bits, except that all NaNs are one number (`toFloat_eq_iff`), and it
takes the operations on numbers to those of `Float` (`toFloat_add` and so on).
-/

namespace TreeScript.Decimal

namespace Binary64

def value (pattern : Nat) : ℚ := significand pattern * (2 : ℚ) ^ exponent pattern

/-! ## Powers of two -/

theorem zpow_eq_div (b : ℚ) (e : Int) : b ^ e = b ^ e.toNat / b ^ (-e).toNat := by
  rcases Int.le_total 0 e with h | h
  · obtain ⟨k, rfl⟩ := Int.eq_ofNat_of_zero_le h
    simp
  · obtain ⟨k, hk⟩ := Int.eq_ofNat_of_zero_le (Int.neg_nonneg_of_nonpos h)
    obtain rfl : e = -(k : Int) := by omega
    simp

theorem zpow_le_div_iff (n : Nat) {d : Nat} (hd : 0 < d) (e : Int) :
    (2 : ℚ) ^ e ≤ (n : ℚ) / d ↔ d * Nat.pow 2 e.toNat ≤ n * Nat.pow 2 (-e).toNat := by
  have hd' : (0 : ℚ) < d := by exact_mod_cast hd
  rw [zpow_eq_div 2, div_le_div_iff₀ (by positivity) hd', mul_comm]
  exact_mod_cast Iff.rfl

section Order

variable {n d : Nat} (hn : 0 < n) (hd : 0 < d)

include hn hd

theorem log2_bounds :
    (2 : ℚ) ^ ((n.log2 : Int) - d.log2 - 1) ≤ (n : ℚ) / d ∧
      (n : ℚ) / d < 2 ^ ((n.log2 : Int) - d.log2 + 1) := by
  have hd' : (0 : ℚ) < d := by exact_mod_cast hd
  have hnlow : (2 : ℚ) ^ n.log2 ≤ n := by exact_mod_cast Nat.log2_self_le (Nat.ne_of_gt hn)
  have hdlow : (2 : ℚ) ^ d.log2 ≤ d := by exact_mod_cast Nat.log2_self_le (Nat.ne_of_gt hd)
  have hnhigh : (n : ℚ) < 2 ^ (n.log2 + 1) := by exact_mod_cast Nat.lt_log2_self
  have hdhigh : (d : ℚ) < 2 ^ (d.log2 + 1) := by exact_mod_cast Nat.lt_log2_self
  have hpow (i j : Nat) : (2 : ℚ) ^ ((i : Int) - j) = 2 ^ i / 2 ^ j := by
    rw [zpow_sub₀ (by norm_num), zpow_natCast, zpow_natCast]
  constructor
  · have hexp : (n.log2 : Int) - d.log2 - 1 = (n.log2 : Int) - (d.log2 + 1 : Nat) := by omega
    rw [hexp, hpow, div_le_div_iff₀ (by positivity) hd']
    exact mul_le_mul hnlow hdhigh.le hd'.le (by positivity)
  · have hexp : (n.log2 : Int) - d.log2 + 1 = (n.log2 + 1 : Nat) - (d.log2 : Int) := by omega
    rw [hexp, hpow, div_lt_div_iff₀ hd' (by positivity)]
    exact mul_lt_mul hnhigh hdlow (by positivity) (by positivity)

theorem order_spec :
    (2 : ℚ) ^ order n d ≤ (n : ℚ) / d ∧ (n : ℚ) / d < 2 ^ (order n d + 1) := by
  obtain ⟨hlow, hhigh⟩ := log2_bounds hn hd
  unfold order
  simp only
  split
  next h => exact ⟨(zpow_le_div_iff n hd _).2 h, hhigh⟩
  next h =>
    refine ⟨hlow, ?_⟩
    rw [Int.sub_add_cancel]
    exact lt_of_not_ge fun hge => h ((zpow_le_div_iff n hd _).1 hge)

end Order

/-! ## Bit patterns -/

theorem significand_pos {p : Nat} (hp : 0 < p) : 0 < significand p := by
  unfold significand hiddenBit
  split <;> omega

theorem split_pattern {p : Nat} (hp : hiddenBit ≤ p) :
    (p / hiddenBit - 1) * hiddenBit + (hiddenBit + p % hiddenBit) = p := by
  have hdiv : 1 ≤ p / hiddenBit := (Nat.one_le_div_iff (by decide)).2 hp
  calc
    (p / hiddenBit - 1) * hiddenBit + (hiddenBit + p % hiddenBit)
      = (p / hiddenBit - 1 + 1) * hiddenBit + p % hiddenBit := by ring
    _ = p / hiddenBit * hiddenBit + p % hiddenBit := by rw [Nat.sub_add_cancel hdiv]
    _ = p := Nat.div_add_mod' p hiddenBit

end Binary64

end Decimal

namespace Double

open Decimal.Binary64 (infinity signBit)

theorem bits_inj {x y : Double} : x.bits = y.bits ↔ x = y := by
  rw [← Double.mk.injEq]

theorem pattern_magnitude (x : Double) :
    (if x.isNegative then signBit + x.magnitude else x.magnitude) = x.bits.toNat := by
  have hbits : x.bits.toNat < 2 * signBit := x.bits.toNat_lt
  unfold isNegative magnitude
  by_cases h : signBit ≤ x.bits.toNat
  · rw [if_pos (decide_eq_true h), Nat.mod_eq_sub_mod h, Nat.mod_eq_of_lt (by omega)]
    omega
  · rw [if_neg (by simpa using h), Nat.mod_eq_of_lt (by omega)]

theorem ofPattern_magnitude (x : Double) : ofPattern x.isNegative x.magnitude = x := by
  rw [ofPattern, pattern_magnitude, UInt64.ofNat_toNat]

theorem isNaN_iff {x : Double} : x.isNaN = true ↔ infinity < x.magnitude := decide_eq_true_iff

theorem isNaN_of_finite {x : Double} (h : x.magnitude < infinity) : x.isNaN = false :=
  decide_eq_false (Nat.not_lt_of_gt h)

section Bits

open Float.Model Float.Model.UnpackedFloat

theorem isNaNBits_iff (bits : UInt64) :
    @isNaNBits Format.binary64 bits.toBitVec = true ↔
      Decimal.Binary64.infinity < bits.toNat % signBit := by
  have hlt : bits.toNat < 2 ^ 64 := bits.toNat_lt
  have hexponent : @unpackExponent Format.binary64 bits.toBitVec = -1#11 ↔
      bits.toNat / 2 ^ 52 % 2 ^ 11 = 2 ^ 11 - 1 := by
    rw [unpackExponent_def, ← BitVec.toNat_inj, BitVec.extractLsb'_toNat,
      Nat.shiftRight_eq_div_pow]
    exact Iff.rfl
  have hmantissa : @unpackMantissa Format.binary64 bits.toBitVec = 0#52 ↔
      bits.toNat / 2 ^ 0 % 2 ^ 52 = 0 := by
    rw [unpackMantissa_def, ← BitVec.toNat_inj, BitVec.extractLsb'_toNat,
      Nat.shiftRight_eq_div_pow]
    exact Iff.rfl
  unfold isNaNBits Decimal.Binary64.infinity signBit
  rw [decide_eq_true_iff, Ne, hmantissa, hexponent]
  omega

theorem toBits_toFloat (x : Double) :
    x.toFloat.toBits = if x.isNaN then 0x7FF8000000000000 else x.bits := by
  have hbits := @pack_unpack Format.binary64 x.bits.toBitVec (by decide)
  have hnan : @isNaNBits Format.binary64 x.bits.toBitVec = x.isNaN := by
    rw [Bool.eq_iff_iff, isNaNBits_iff, isNaN_iff, magnitude]
  rw [hnan] at hbits
  rw [← UInt64.toBitVec_inj]
  refine Eq.trans hbits ?_
  split
  · decide
  · rfl

end Bits

theorem toFloat_eq_iff {x y : Double} :
    x.toFloat = y.toFloat ↔ x = y ∨ x.isNaN = true ∧ y.isNaN = true := by
  have hnan {z : Double} (h : 0x7FF8000000000000 = z.bits) : z.isNaN = true := by
    obtain rfl : z = ⟨0x7FF8000000000000⟩ := bits_inj.1 h.symm
    decide
  rw [← Float.toBits_inj, toBits_toFloat, toBits_toFloat]
  constructor
  · intro h
    split at h
    next hx =>
      split at h
      next hy => exact .inr ⟨hx, hy⟩
      next hy => exact absurd (hnan h) hy
    next hx =>
      split at h
      next hy => exact absurd (hnan h.symm) hx
      next hy => exact .inl (bits_inj.1 h)
  · rintro (rfl | ⟨hx, hy⟩)
    · rfl
    · rw [if_pos hx, if_pos hy]

theorem isNaN_toFloat (x : Double) : x.toFloat.isNaN = x.isNaN := by
  have hnan : (Float.ofBits 0x7FF8000000000000) = (⟨0x7FF8000000000000⟩ : Double).toFloat := rfl
  have hone : (⟨0x7FF8000000000000⟩ : Double).isNaN = true := by decide
  rw [Bool.eq_iff_iff, Float.isNaN_eq_decide_eq_nan, decide_eq_true_iff]
  have hsame : x.toFloat = (⟨0x7FF8000000000000⟩ : Double).toFloat ↔ x.isNaN = true := by
    rw [toFloat_eq_iff]
    constructor
    · rintro (rfl | h)
      · exact hone
      · exact h.1
    · exact fun h => .inr ⟨h, hone⟩
  exact hsame

/-! ## Operations -/

section Arithmetic

variable [Machine] (operation : Operation) (x y : Double)

theorem toFloat_ofResult (result : Float) :
    (ofResult operation x y result).toFloat = result := by
  unfold ofResult
  split
  next h =>
    rw [Float.isNaN_eq_decide_eq_nan, decide_eq_true_iff] at h
    have hnan : (⟨0x7FF8000000000000⟩ : Double).toFloat = result := h.symm
    rw [← hnan, toFloat_eq_iff]
    exact .inr ⟨Machine.isNaN_nan operation x y, by decide⟩
  next => exact Float.ofBits_toBits result

theorem ofResult_toFloat {z : Double} (h : z.isNaN = false) :
    ofResult operation x y z.toFloat = z := by
  have hnumber : ¬ z.toFloat.isNaN = true := by
    rw [isNaN_toFloat, h]
    exact Bool.false_ne_true
  have hbits := toBits_toFloat z
  rw [h] at hbits
  rw [ofResult, if_neg hnumber, hbits]
  rfl

theorem toFloat_add : (x + y).toFloat = x.toFloat + y.toFloat := toFloat_ofResult .add x y _

theorem toFloat_sub : (x - y).toFloat = x.toFloat - y.toFloat := toFloat_ofResult .sub x y _

theorem toFloat_mul : (x * y).toFloat = x.toFloat * y.toFloat := toFloat_ofResult .mul x y _

theorem toFloat_div : (x / y).toFloat = x.toFloat / y.toFloat := toFloat_ofResult .div x y _

theorem toFloat_neg : (-x).toFloat = -x.toFloat := toFloat_ofResult .neg x x _

end Arithmetic

end Double

end TreeScript
