import TreeScript.Proofs.Rounding
import TreeScript.Yaml.Scalar

/-!
# The integer that a scalar stands for

As an integer, a scalar that stands for a number counts without the fraction of the number. A
positive integer comes from a number that is one or more and below the first power of two that is
too large for an integer with a sign. All these numbers give their integer parts, and everything
else gives no positive integer.
-/

namespace TreeScript.Yaml.Scalar

open Decimal (Binary64.value Binary64.significand Binary64.exponent Binary64.infinity)

def exact (x : Double) : ℚ :=
  if x.isNegative then -Binary64.value x.magnitude
  else Binary64.value x.magnitude

inductive IsNumber : Scalar → ℚ → Prop where
  | int {i : Int} : IsNumber (.int i) i
  | float {x} : x.magnitude < Binary64.infinity → IsNumber (.float x) (exact x)

theorem floor_value (pattern : Nat) :
    ⌊Binary64.value pattern⌋ = ((Binary64.significand pattern *
      Nat.pow 2 (Binary64.exponent pattern).toNat / Nat.pow 2 (-Binary64.exponent pattern).toNat :
        Nat) : Int) := by
  rw [Binary64.value, Decimal.Binary64.zpow_eq_div, ← mul_div_assoc]
  exact_mod_cast Rat.floor_natCast_div_natCast _ _

theorem truncate_of_positive {x : Double} (h : x.isNegative = false) :
    truncate x = ⌊exact x⌋ := by
  unfold truncate exact
  rw [h, if_neg (by decide), if_neg (by decide), floor_value]

theorem truncate_of_negative {x : Double} (h : x.isNegative = true) :
    truncate x ≤ 0 ∧ exact x ≤ 0 := by
  unfold truncate exact
  rw [h, if_pos rfl, if_pos rfl]
  constructor
  · exact Int.neg_nonpos_of_nonneg (Int.natCast_nonneg _)
  · exact neg_nonpos.2 (Decimal.Binary64.value_nonneg _)

theorem one_le_floor_iff {q : ℚ} : 1 ≤ ⌊q⌋ ↔ 1 ≤ q := by
  rw [Int.le_floor, Int.cast_one]

theorem floor_le_maxInt_iff {q : ℚ} : ⌊q⌋ ≤ maxInt ↔ q < 2 ^ 63 := by
  have hmax : maxInt + 1 = 2 ^ 63 := by decide
  rw [← Int.lt_add_one_iff, hmax, Int.floor_lt]
  norm_num

theorem integer?_float {x : Double} (hfinite : x.magnitude < Binary64.infinity) {i : Int}
    (hi : 1 ≤ i) : (float x).integer? = some i ↔ truncate x = i ∧ i ≤ maxInt := by
  have hnan : ¬ Binary64.infinity < x.magnitude := by omega
  have hmin : minInt < 0 := by decide
  simp only [integer?, if_neg hnan, if_neg (Nat.ne_of_lt hfinite)]
  split
  next hlarge => simp; omega
  next =>
    split
    next hout =>
      simp only [Option.some.injEq]
      omega
    next hin =>
      simp only [Option.some.injEq]
      omega

theorem integer?_float_infinite {x : Double} (h : ¬ x.magnitude < Binary64.infinity)
    {i : Int} (hi : 1 ≤ i) : (float x).integer? ≠ some i := by
  have hmin : minInt < 0 := by decide
  simp only [integer?]
  split
  next => simp
  next hnan =>
    rw [if_pos (by omega)]
    split
    · simp only [ne_eq, Option.some.injEq]
      omega
    · simp

theorem truncate_eq_iff {x : Double} {i : Int} (hi : 1 ≤ i) :
    truncate x = i ↔ 1 ≤ exact x ∧ i = ⌊exact x⌋ := by
  cases h : x.isNegative with
  | false =>
      rw [truncate_of_positive h, ← one_le_floor_iff]
      omega
  | true =>
      obtain ⟨htruncate, hexact⟩ := truncate_of_negative h
      refine iff_of_false (by omega) fun hone => ?_
      linarith [hone.1]

theorem integer?_pos_iff {meaning : Scalar} {i : Int} (hi : 1 ≤ i) :
    meaning.integer? = some i ↔ ∃ q, meaning.IsNumber q ∧ 1 ≤ q ∧ q < 2 ^ 63 ∧ i = ⌊q⌋ := by
  have hnone (h : ∀ q, ¬ meaning.IsNumber q) :
      ¬ ∃ q, meaning.IsNumber q ∧ 1 ≤ q ∧ q < 2 ^ 63 ∧ i = ⌊q⌋ := fun ⟨q, hq, _⟩ => h q hq
  cases meaning with
  | null =>
      refine iff_of_false (by simp [integer?]; omega) (hnone ?_)
      rintro q ⟨⟩
  | bool _ | timestamp | text =>
      refine iff_of_false (by simp [integer?]) (hnone ?_)
      rintro q ⟨⟩
  | int j =>
      have hinteger : (int j).integer? = some i ↔ j = i ∧ i ≤ maxInt := by
        simp only [integer?]
        split <;> simp <;> omega
      rw [hinteger]
      constructor
      · intro ⟨hj, hmax⟩
        subst hj
        refine ⟨j, .int, by exact_mod_cast hi, ?_, (Int.floor_intCast j).symm⟩
        rwa [← floor_le_maxInt_iff, Int.floor_intCast]
      · rintro ⟨q, ⟨⟩, _, hlarge, hfloor⟩
        rw [← floor_le_maxInt_iff, ← hfloor] at hlarge
        exact ⟨(hfloor.trans (Int.floor_intCast j)).symm, hlarge⟩
  | float x =>
      by_cases hfinite : x.magnitude < Binary64.infinity
      · rw [integer?_float hfinite hi, truncate_eq_iff hi]
        constructor
        · intro ⟨⟨hone, hfloor⟩, hmax⟩
          rw [hfloor, floor_le_maxInt_iff] at hmax
          exact ⟨exact x, .float hfinite, hone, hmax, hfloor⟩
        · rintro ⟨q, ⟨⟩, hone, hlarge, hfloor⟩
          rw [← floor_le_maxInt_iff, ← hfloor] at hlarge
          exact ⟨⟨hone, hfloor⟩, hlarge⟩
      · refine iff_of_false (integer?_float_infinite hfinite hi) (hnone ?_)
        rintro q ⟨⟩
        contradiction

end TreeScript.Yaml.Scalar
