import TreeScript.Number
import TreeScript.Proofs.Rounding

/-!
# Sums that are numbers

A sum that is itself a number is not rounded: `add_ofPattern` says so for numbers without a sign, by
following the addition of bit patterns step by step. Whole numbers below `2 ^ 53` are such numbers,
so they are added exactly (`IsWhole.add`), and so is a list of them (`isWhole_sum`).
-/

namespace TreeScript

namespace Decimal.Binary64

open Float.Model Float.Model.UnpackedFloat

/-! ## What a pattern is taken apart into -/

theorem toNat_unpackExponent (bits : UInt64) :
    (@unpackExponent Format.binary64 bits.toBitVec).toNat = bits.toNat / 2 ^ 52 % 2 ^ 11 := by
  rw [unpackExponent_def, BitVec.extractLsb'_toNat, Nat.shiftRight_eq_div_pow]
  rfl

theorem toNat_unpackMantissa (bits : UInt64) :
    (@unpackMantissa Format.binary64 bits.toBitVec).toNat = bits.toNat % 2 ^ 52 := by
  rw [unpackMantissa_def, BitVec.extractLsb'_toNat, Nat.shiftRight_eq_div_pow]
  simp

theorem toNat_unpackSign (bits : UInt64) :
    (@unpackSign Format.binary64 bits.toBitVec).toNat = bits.toNat / 2 ^ 63 % 2 := by
  rw [unpackSign_def, BitVec.extractLsb'_toNat, Nat.shiftRight_eq_div_pow]
  rfl

theorem toNat_one_append (m : BitVec 52) : (1#1 ++ m).toNat = hiddenBit + m.toNat := by
  rw [BitVec.toNat_append, ← Nat.shiftLeft_add_eq_or_of_lt m.isLt]
  rfl

theorem unpackSign_of_finite {bits : UInt64} (h : bits.toNat < infinity) :
    @unpackSign Format.binary64 bits.toBitVec = 0#1 := by
  rw [← BitVec.toNat_inj, toNat_unpackSign]
  unfold infinity at h
  show bits.toNat / 2 ^ 63 % 2 = 0
  omega

theorem unpackExponent_of_finite {bits : UInt64} (h : bits.toNat < infinity) :
    @unpackExponent Format.binary64 bits.toBitVec ≠ -1#11 := by
  rw [Ne, ← BitVec.toNat_inj, toNat_unpackExponent]
  unfold infinity at h
  show bits.toNat / 2 ^ 52 % 2 ^ 11 ≠ 2 ^ 11 - 1
  omega

theorem unpackExponent_eq_zero_iff {bits : UInt64} (h : bits.toNat < infinity) :
    @unpackExponent Format.binary64 bits.toBitVec = 0#11 ↔ bits.toNat < hiddenBit := by
  rw [← BitVec.toNat_inj, toNat_unpackExponent]
  unfold infinity at h
  show bits.toNat / 2 ^ 52 % 2 ^ 11 = 0 ↔ bits.toNat < 2 ^ 52
  omega

/-- The bits of a positive number are those of its integer part and of its power of two. -/
theorem unpack_bits {bits : UInt64} (hpos : 0 < bits.toNat) (h : bits.toNat < infinity) :
    UnpackedFloat.unpack Format.binary64 bits.toBitVec =
      .finite .positive (significand bits.toNat) (exponent bits.toNat) (significand_pos hpos) := by
  have hexponent := toNat_unpackExponent bits
  have hmantissa := toNat_unpackMantissa bits
  have hsmall := unpackExponent_eq_zero_iff h
  unfold UnpackedFloat.unpack
  simp only [unpackSign_of_finite h, unpackExponent_of_finite h, if_false]
  by_cases hp : bits.toNat < hiddenBit
  · -- Below the hidden bit the digits are the pattern itself.
    have hmne : @unpackMantissa Format.binary64 bits.toBitVec ≠ 0#52 := by
      rw [Ne, ← BitVec.toNat_inj, hmantissa]
      show bits.toNat % 2 ^ 52 ≠ 0
      unfold hiddenBit at hp
      omega
    rw [if_pos (hsmall.2 hp), dif_neg hmne, UnpackedFloat.finite.injEq]
    refine ⟨rfl, ?_, ?_⟩
    · rw [hmantissa, significand, if_pos hp]
      exact Nat.mod_eq_of_lt hp
    · rw [hsmall.2 hp, exponent, Nat.div_eq_of_lt hp]
      rfl
  · rw [if_neg (mt hsmall.1 hp), UnpackedFloat.finite.injEq]
    refine ⟨rfl, ?_, ?_⟩
    · rw [toNat_one_append, hmantissa, significand, if_neg hp]
      rfl
    · have hwhole : bits.toNat / 2 ^ 52 % 2 ^ 11 = bits.toNat / 2 ^ 52 := by
        unfold infinity at h
        omega
      rw [hexponent, hwhole, exponent]
      unfold hiddenBit at *
      show ((bits.toNat / 2 ^ 52 : Nat) : Int) - (1023 + 52) = _
      omega

theorem toNat_bits_ofPattern {p : Nat} (h : p < infinity) :
    (Double.ofPattern false p).bits.toNat = p := by
  rw [Double.ofPattern, if_neg (by decide), UInt64.toNat_ofNat',
    Nat.mod_eq_of_lt (Nat.lt_trans h (by decide))]

theorem magnitude_ofPattern {p : Nat} (h : p < infinity) :
    (Double.ofPattern false p).magnitude = p := by
  rw [Double.magnitude, toNat_bits_ofPattern h, Nat.mod_eq_of_lt (Nat.lt_trans h (by decide))]

theorem isNegative_ofPattern {p : Nat} (h : p < infinity) :
    (Double.ofPattern false p).isNegative = false := by
  have hlt : p < signBit := Nat.lt_trans h (by decide)
  rw [Double.isNegative, toNat_bits_ofPattern h, decide_eq_false (by omega)]

theorem isNaN_ofPattern {p : Nat} (h : p < infinity) :
    (Double.ofPattern false p).isNaN = false := by
  apply Double.isNaN_of_finite
  rwa [magnitude_ofPattern h]

theorem toNat_toBits_ofPattern {p : Nat} (h : p < infinity) :
    (Double.ofPattern false p).toFloat.toBits.toNat = p := by
  rw [Double.toBits_toFloat, isNaN_ofPattern h, if_neg Bool.false_ne_true, toNat_bits_ofPattern h]

theorem unpack_zero : (Double.ofPattern false 0).toFloat.toModel.unpack = .zero .positive := by
  have hbits : (Double.ofPattern false 0).toFloat.toModel.toBits = 0 := by
    rw [← UInt64.toNat_inj]
    exact toNat_toBits_ofPattern (by decide)
  rw [Float.Model.unpack, hbits]
  exact @unpack_packedZero Format.binary64 .positive

theorem unpack_ofPattern {p : Nat} (hpos : 0 < p) (h : p < infinity) :
    (Double.ofPattern false p).toFloat.toModel.unpack =
      .finite .positive (significand p) (exponent p) (significand_pos hpos) := by
  have hbits : (Double.ofPattern false p).toFloat.toModel.toBits.toNat = p :=
    toNat_toBits_ofPattern h
  have hpattern := @unpack_bits (Double.ofPattern false p).toFloat.toModel.toBits (by rwa [hbits])
    (by rwa [hbits])
  simp only [hbits] at hpattern
  exact hpattern

theorem pack_unpack_model (x : Float.Model) : Float.Model.pack x.unpack = x := by
  have hbits : UnpackedFloat.pack Format.binary64 x.unpack = x.toBits.toBitVec :=
    pack_unpack_of_valid x.valid
  cases x with
  | mk bits valid =>
    rw [Float.Model.pack, Float.Model.mk.injEq, ← UInt64.toBitVec_inj]
    exact hbits

/-! ## What is a number already is not rounded -/

theorem scaled_eq_iff {m s : Nat} {e f : Int} :
    (m : ℚ) * 2 ^ e = s * 2 ^ f ↔ m * 2 ^ (e - f).toNat = s * 2 ^ (f - e).toNat := by
  have hf : (0 : ℚ) < 2 ^ f := two_zpow_pos f
  have hpow : (2 : ℚ) ^ e = 2 ^ (e - f) * 2 ^ f := by
    rw [← zpow_add₀ (by norm_num), Int.sub_add_cancel]
  have hneg : -(e - f) = f - e := by omega
  have hpos : (0 : ℚ) < 2 ^ (f - e).toNat := by positivity
  rw [hpow, ← mul_assoc, mul_left_inj' hf.ne', zpow_eq_div, hneg, ← mul_div_assoc,
    div_eq_iff hpos.ne']
  exact_mod_cast Iff.rfl

theorem log2_mul_two_pow {m : Nat} (hm : 0 < m) (d : Nat) : (m * 2 ^ d).log2 = m.log2 + d := by
  have hlow := Nat.log2_self_le (Nat.ne_of_gt hm)
  have hhigh := @Nat.lt_log2_self m
  have hpos : m * 2 ^ d ≠ 0 := Nat.ne_of_gt (by positivity)
  rw [Nat.log2_eq_iff hpos]
  constructor
  · rw [pow_add]
    exact Nat.mul_le_mul_right _ hlow
  · rw [show m.log2 + d + 1 = m.log2 + 1 + d by omega, pow_add]
    exact Nat.mul_lt_mul_of_pos_right hhigh (by positivity)

theorem log2_significand {p : Nat} (hpos : 0 < p) :
    exponent p = -1074 ∧ (significand p).log2 ≤ 52 ∨
      -1074 ≤ exponent p ∧ (significand p).log2 = 52 := by
  have hne : significand p ≠ 0 := Nat.ne_of_gt (significand_pos hpos)
  by_cases hp : p < hiddenBit
  · have hlt : significand p < 2 ^ 52 := by
      rw [significand, if_pos hp]
      exact hp
    have hlog := (Nat.log2_lt hne).2 hlt
    left
    rw [exponent, Nat.div_eq_of_lt hp]
    omega
  · have hmod : p % hiddenBit < hiddenBit := Nat.mod_lt p (by decide)
    right
    constructor
    · unfold exponent
      omega
    · rw [Nat.log2_eq_iff hne, significand, if_neg hp]
      unfold hiddenBit at *
      omega

theorem targetExponent_of_scaled {p m : Nat} {e : Int} (hpos : 0 < p) (hm : 0 < m)
    (h : m * 2 ^ (e - exponent p).toNat = significand p * 2 ^ (exponent p - e).toNat) :
    Format.binary64.targetExponent (totalExponent m e) = exponent p := by
  have hlog : m.log2 + (e - exponent p).toNat = (significand p).log2 + (exponent p - e).toNat := by
    rw [← log2_mul_two_pow hm, ← log2_mul_two_pow (significand_pos hpos), h]
  have hbits := log2_significand hpos
  show max ((m.log2 : Int) + 1 + e - 53) (-1074) = exponent p
  omega

theorem shiftRight_mul_two_pow (m d : Nat) :
    ExtendedMantissa.ofMantissaAndAccuracy (m * 2 ^ d) .exact >>> d =
      ExtendedMantissa.ofMantissaAndAccuracy m .exact := by
  show Nat.repeat ExtendedMantissa.shiftRightOne d _ = _
  induction d generalizing m with
  | zero =>
    rw [pow_zero, mul_one]
    rfl
  | succ d ih =>
    have hpow : m * 2 ^ (d + 1) = m * 2 * 2 ^ d := by ring
    have hlast : (ExtendedMantissa.ofMantissaAndAccuracy (m * 2) .exact).shiftRightOne =
        ExtendedMantissa.ofMantissaAndAccuracy m .exact := by
      simp [ExtendedMantissa.ofMantissaAndAccuracy, ExtendedMantissa.shiftRightOne]
    rw [Nat.repeat, hpow, ih, hlast]

theorem shiftToTargetExponent_of_scaled {p d : Nat} {e : Int} (hpos : 0 < p)
    (he : e + d = exponent p) :
    shiftToTargetExponent Format.binary64 (significand p * 2 ^ d) e .exact =
      (ExtendedMantissa.ofMantissaAndAccuracy (significand p) .exact, exponent p) := by
  have hm : 0 < significand p * 2 ^ d := Nat.mul_pos (significand_pos hpos) (by positivity)
  have hd : (exponent p - e).toNat = d := by omega
  have hzero : (e - exponent p).toNat = 0 := by omega
  have htarget : Format.binary64.targetExponent (totalExponent (significand p * 2 ^ d) e) =
      exponent p := by
    apply targetExponent_of_scaled hpos hm
    rw [hd, hzero, pow_zero, mul_one]
  unfold shiftToTargetExponent shiftToExponent
  simp only [htarget, hd, shiftRight_mul_two_pow, he]

theorem roundWithAccuracy_of_scaled {p d : Nat} {e : Int} (hpos : 0 < p)
    (he : e + d = exponent p) :
    roundWithAccuracy Format.binary64 .positive (significand p * 2 ^ d) e .exact =
      .finite .positive (significand p) (exponent p) (significand_pos hpos) := by
  have hrounded : (ExtendedMantissa.ofMantissaAndAccuracy (significand p) .exact).roundedMantissa =
      significand p * 2 ^ 0 := by
    rw [pow_zero, mul_one]
    rfl
  have hagain : shiftToTargetExponent Format.binary64 (significand p * 2 ^ 0) (exponent p) .exact =
      (ExtendedMantissa.ofMantissaAndAccuracy (significand p) .exact, exponent p) :=
    shiftToTargetExponent_of_scaled hpos (add_zero (exponent p))
  unfold roundWithAccuracy
  simp only [shiftToTargetExponent_of_scaled hpos he, hrounded, hagain]
  exact dif_neg (Nat.ne_of_gt (significand_pos hpos))

theorem round_of_scaled {p m : Nat} {e : Int} (hpos : 0 < p) (hm : 0 < m)
    (h : m * 2 ^ (e - exponent p).toNat = significand p * 2 ^ (exponent p - e).toNat) :
    UnpackedFloat.round Format.binary64 .positive m e =
      .finite .positive (significand p) (exponent p) (significand_pos hpos) := by
  have he : e - (e - exponent p).toNat + (exponent p - e).toNat = exponent p := by omega
  unfold UnpackedFloat.round decreaseExponent
  simp only [targetExponent_of_scaled hpos hm h, Nat.shiftLeft_eq, h]
  exact roundWithAccuracy_of_scaled hpos he

theorem normalize_natCast {m : Nat} (hm : 0 < m) (e : Int) :
    UnpackedFloat.normalize Format.binary64 m e .positive =
      UnpackedFloat.round Format.binary64 .positive m e := by
  have hgt : compare (m : Int) 0 = .gt := Int.compare_eq_gt.2 (by exact_mod_cast hm)
  unfold UnpackedFloat.normalize
  rw [hgt]
  rfl

/-! ## Addition -/

theorem value_eq_scaled {p : Nat} {e : Int} (he : e ≤ exponent p) :
    value p = (significand p * 2 ^ (exponent p - e).toNat : Nat) * (2 : ℚ) ^ e := by
  have hzero : (e - exponent p).toNat = 0 := by omega
  rw [value, scaled_eq_iff, hzero, pow_zero, mul_one]

theorem add_finite {p q r : Nat} (hp : 0 < p) (hq : 0 < q) (hr : 0 < r)
    (h : value p + value q = value r) :
    UnpackedFloat.add Format.binary64
        (.finite .positive (significand p) (exponent p) (significand_pos hp))
        (.finite .positive (significand q) (exponent q) (significand_pos hq)) =
      .finite .positive (significand r) (exponent r) (significand_pos hr) := by
  unfold UnpackedFloat.add decreaseExponent
  simp only [Nat.shiftLeft_eq, Sign.apply]
  generalize hmin : min (exponent p) (exponent q) = e
  have hep : e ≤ exponent p := hmin ▸ Int.min_le_left _ _
  have heq : e ≤ exponent q := hmin ▸ Int.min_le_right _ _
  have hpos : 0 < significand p * 2 ^ (exponent p - e).toNat :=
    Nat.mul_pos (significand_pos hp) (by positivity)
  rw [← Int.natCast_add, normalize_natCast (Nat.add_pos_left hpos _)]
  apply round_of_scaled hr (Nat.add_pos_left hpos _)
  rw [← scaled_eq_iff, ← value, ← h, value_eq_scaled hep, value_eq_scaled heq, ← add_mul]
  push_cast
  rfl

theorem unpack_add {p q r : Nat} (hp : p < infinity) (hq : q < infinity) (hr : r < infinity)
    (h : value p + value q = value r) :
    UnpackedFloat.add Format.binary64 (Double.ofPattern false p).toFloat.toModel.unpack
      (Double.ofPattern false q).toFloat.toModel.unpack =
        (Double.ofPattern false r).toFloat.toModel.unpack := by
  by_cases hp0 : p = 0
  · -- Zero is added without any rounding.
    have hqr : q = r := by
      apply value_strictMono.injective
      rw [← h, hp0, value_zero, zero_add]
    rw [hp0, hqr, unpack_zero]
    by_cases hr0 : r = 0
    · rw [hr0, unpack_zero]
      rfl
    · rw [unpack_ofPattern (Nat.pos_of_ne_zero hr0) hr]
      rfl
  have hppos : 0 < p := Nat.pos_of_ne_zero hp0
  by_cases hq0 : q = 0
  · have hpr : p = r := by
      apply value_strictMono.injective
      rw [← h, hq0, value_zero, add_zero]
    rw [hq0, hpr, unpack_zero, unpack_ofPattern (hpr ▸ hppos) hr]
    rfl
  have hqpos : 0 < q := Nat.pos_of_ne_zero hq0
  have hrpos : 0 < r := by
    have hlt : value 0 < value p := value_strictMono hppos
    have hle := value_nonneg q
    apply value_strictMono.lt_iff_lt.1
    rw [← h]
    linarith
  rw [unpack_ofPattern hppos hp, unpack_ofPattern hqpos hq, unpack_ofPattern hrpos hr]
  exact add_finite hppos hqpos hrpos h

/-- A sum that is a number is the exact sum. -/
theorem add_ofPattern [Machine] {p q r : Nat} (hp : p < infinity) (hq : q < infinity)
    (hr : r < infinity) (h : value p + value q = value r) :
    Double.ofPattern false p + Double.ofPattern false q = Double.ofPattern false r := by
  have hsum : (Double.ofPattern false p).toFloat + (Double.ofPattern false q).toFloat =
      (Double.ofPattern false r).toFloat := by
    show Float.ofModel (Float.Model.pack (UnpackedFloat.add Format.binary64 _ _)) = _
    rw [unpack_add hp hq hr h, pack_unpack_model]
  show Double.ofResult .add _ _ (_ + _) = _
  rw [hsum, Double.ofResult_toFloat _ _ _ (isNaN_ofPattern hr)]

/-! ## Whole numbers -/

theorem exists_value_eq {n : Nat} (h : n < 2 ^ 53) : ∃ p < infinity, value p = n := by
  by_cases hn : n = 0
  · exact ⟨0, by decide, by rw [hn, value_zero, Nat.cast_zero]⟩
  have hlog : n.log2 < 53 := (Nat.log2_lt hn).2 h
  have hlow : hiddenBit ≤ n * 2 ^ (52 - n.log2) := by
    calc
      hiddenBit = 2 ^ n.log2 * 2 ^ (52 - n.log2) := by
        rw [← pow_add, Nat.add_sub_cancel' (by omega)]
        rfl
      _ ≤ n * 2 ^ (52 - n.log2) := Nat.mul_le_mul_right _ (Nat.log2_self_le hn)
  have hhigh : n * 2 ^ (52 - n.log2) < 2 * hiddenBit := by
    calc
      n * 2 ^ (52 - n.log2) < 2 ^ (n.log2 + 1) * 2 ^ (52 - n.log2) :=
        Nat.mul_lt_mul_of_pos_right Nat.lt_log2_self (by positivity)
      _ = 2 * hiddenBit := by
        rw [← pow_add, show n.log2 + 1 + (52 - n.log2) = 53 by omega]
        rfl
  refine ⟨(n.log2 + 1022) * hiddenBit + n * 2 ^ (52 - n.log2), ?_, ?_⟩
  · unfold infinity hiddenBit at *
    omega
  · have hexp : ((52 - n.log2 : Nat) : Int) + (((n.log2 + 1022 : Nat) : Int) - 1074) = 0 := by omega
    rw [value_block hhigh.le (.inr hlow), Nat.cast_mul, Nat.cast_pow, Nat.cast_ofNat, mul_assoc,
      ← zpow_natCast, ← zpow_add₀ (by norm_num), hexp, zpow_zero, mul_one]

end Decimal.Binary64

namespace Number

open Decimal

/-- The number is this whole number, neither rounded nor with a sign. -/
structure IsWhole (x : Double) (n : Nat) : Prop where
  positive : x.isNegative = false
  finite : x.magnitude < Binary64.infinity
  value : Binary64.value x.magnitude = n

theorem isWhole_iff {x : Double} {n : Nat} :
    IsWhole x n ↔ ∃ p < Binary64.infinity, Binary64.value p = n ∧ x = Double.ofPattern false p := by
  constructor
  · intro h
    refine ⟨x.magnitude, h.finite, h.value, ?_⟩
    rw [← h.positive, Double.ofPattern_magnitude]
  · rintro ⟨p, hp, hvalue, rfl⟩
    refine ⟨Binary64.isNegative_ofPattern hp, ?_, ?_⟩
    · rwa [Binary64.magnitude_ofPattern hp]
    · rwa [Binary64.magnitude_ofPattern hp]

theorem IsWhole.add [Machine] {x y : Double} {a b : Nat} (hx : IsWhole x a) (hy : IsWhole y b)
    (h : a + b < 2 ^ 53) : IsWhole (x + y) (a + b) := by
  obtain ⟨p, hp, hpa, rfl⟩ := isWhole_iff.1 hx
  obtain ⟨q, hq, hqb, rfl⟩ := isWhole_iff.1 hy
  obtain ⟨r, hr, hrab⟩ := Binary64.exists_value_eq h
  have hsum : Binary64.value p + Binary64.value q = Binary64.value r := by
    rw [hpa, hqb, hrab, Nat.cast_add]
  exact isWhole_iff.2 ⟨r, hr, hrab, Binary64.add_ofPattern hp hq hr hsum⟩

theorem isWhole_ofInt {n : Nat} (h : n < 2 ^ 53) : IsWhole (ofInt n) n := by
  obtain ⟨p, hp, hvalue⟩ := Binary64.exists_value_eq h
  have hrounds : Binary64.Rounds n p := by
    rw [← hvalue, Binary64.rounds_iff hp]
    exact Binary64.within_value p
  have hnearest : Binary64.nearest n 1 = p := by
    have hspec := Binary64.nearest_rounds n Nat.one_pos
    rw [Nat.cast_one, div_one] at hspec
    exact hspec.unique hrounds
  have hnonneg : ¬ (n : Int) < 0 := Int.not_lt.2 (Int.natCast_nonneg n)
  apply isWhole_iff.2
  refine ⟨p, hp, hvalue, ?_⟩
  rw [ofInt, Int.natAbs_natCast, hnearest, decide_eq_false hnonneg]

/-! ## Sums -/

variable [Machine]

theorem sum_concat (ns : List Nat) (n : Nat) : sum (ns ++ [n]) = sum ns + ofInt n := by
  rw [sum, List.foldl_append]
  rfl

/-- The induction is on what has been added so far, which is exact before the next step. -/
theorem isWhole_sum {ns : List Nat} (h : ns.sum < 2 ^ 53) : IsWhole (sum ns) ns.sum := by
  induction ns using List.reverseRecOn with
  | nil => exact isWhole_ofInt (by decide)
  | append_singleton ns n ih =>
    have hsum : (ns ++ [n]).sum = ns.sum + n := by simp
    rw [hsum] at h ⊢
    have hbefore : IsWhole (sum ns) ns.sum := ih (by omega)
    have hnext : IsWhole (ofInt n) n := isWhole_ofInt (by omega)
    rw [sum_concat]
    exact hbefore.add hnext h

end Number

end TreeScript
