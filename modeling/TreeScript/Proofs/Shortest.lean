import TreeScript.Proofs.Rounding

/-!
# The shortest decimal

The search tries one grid of decimals after the other. A grid is passed over only if none of its
points rounds to the number (`not_within_of_pick_eq_none`), and the last one holds the number
itself (`floorOn_of_le_min`), so the decimal that is found rounds to the number
(`ofPattern_within`). One with fewer digits would be on a coarser grid, or would have a point of
the coarsest grid between itself and the number (`ofPattern_shortest`).
-/

namespace TreeScript.Decimal

namespace Binary64

open Shortest

/-! ## The interval in whole numbers -/

theorem scale_pos (q k : Int) : 0 < scale q k :=
  Nat.mul_pos (Nat.pow_pos (by decide)) (Nat.pow_pos (by decide))

theorem ten_zpow_pos (k : Int) : (0 : ℚ) < 10 ^ k := by positivity

theorem mul_unit_div_scale (a : Nat) (q k : Int) :
    ((a * unit q k : Nat) : ℚ) / scale q k = a * 2 ^ q / 10 ^ k := by
  rw [zpow_eq_div 2, zpow_eq_div 10]
  simp only [unit, scale, Nat.pow_eq, Nat.cast_mul, Nat.cast_pow, Nat.cast_ofNat]
  field_simp

theorem quarters_le_iff (a d : Nat) (q k : Int) :
    a * unit q k ≤ 4 * d * scale q k ↔ (a : ℚ) / 4 * 2 ^ q ≤ d * 10 ^ k := by
  have hscale : (0 : ℚ) < scale q k := by exact_mod_cast scale_pos q k
  have hten := ten_zpow_pos k
  calc
    a * unit q k ≤ 4 * d * scale q k ↔ ((a * unit q k : Nat) : ℚ) / scale q k ≤ 4 * d := by
      rw [div_le_iff₀ hscale]
      exact_mod_cast Iff.rfl
    _ ↔ (a : ℚ) / 4 * 2 ^ q ≤ d * 10 ^ k := by
      rw [mul_unit_div_scale, div_le_iff₀ hten]
      constructor <;> intro h <;> linarith

theorem le_quarters_iff (a d : Nat) (q k : Int) :
    4 * d * scale q k ≤ a * unit q k ↔ (d : ℚ) * 10 ^ k ≤ a / 4 * 2 ^ q := by
  have hscale : (0 : ℚ) < scale q k := by exact_mod_cast scale_pos q k
  have hten := ten_zpow_pos k
  calc
    4 * d * scale q k ≤ a * unit q k ↔ (4 * d : ℚ) ≤ ((a * unit q k : Nat) : ℚ) / scale q k := by
      rw [le_div_iff₀ hscale]
      exact_mod_cast Iff.rfl
    _ ↔ (d : ℚ) * 10 ^ k ≤ a / 4 * 2 ^ q := by
      rw [mul_unit_div_scale, le_div_iff₀ hten]
      constructor <;> intro h <;> linarith

theorem midpoint_eq (p : Nat) :
    midpoint p = ((4 * significand p + 2 : Nat) : ℚ) / 4 * 2 ^ exponent p := by
  rw [midpoint, value_succ, value]
  push_cast
  ring

theorem exponent_pred {p : Nat} (hp : 0 < p) :
    (2 : ℚ) ^ exponent (p - 1) =
      (below (significand p) (exponent p) : ℚ) / 2 * 2 ^ exponent p := by
  have hsplit : (significand p = hiddenBit ∧ -1074 < exponent p) ∧
      exponent p = exponent (p - 1) + 1 ∨
      ¬ (significand p = hiddenBit ∧ -1074 < exponent p) ∧ exponent p = exponent (p - 1) := by
    unfold significand exponent hiddenBit
    split <;> omega
  rcases hsplit with ⟨hedge, hexp⟩ | ⟨hinner, hexp⟩
  · rw [below, if_pos hedge, hexp, two_zpow_succ]
    push_cast
    ring
  · rw [below, if_neg hinner, hexp]
    push_cast
    ring

theorem below_le {p : Nat} (hp : 0 < p) :
    below (significand p) (exponent p) ≤ 4 * significand p := by
  have hsig := significand_pos hp
  unfold below
  split <;> omega

theorem midpoint_pred {p : Nat} (hp : 0 < p) :
    midpoint (p - 1) =
      ((4 * significand p - below (significand p) (exponent p) : Nat) : ℚ) / 4 *
        2 ^ exponent p := by
  have hvalue : value p = value (p - 1) + 2 ^ exponent (p - 1) := by
    rw [← value_succ, Nat.sub_add_cancel hp]
  have hmid : midpoint (p - 1) = value p - 2 ^ exponent (p - 1) / 2 := by
    rw [midpoint, Nat.sub_add_cancel hp]
    linarith
  rw [hmid, exponent_pred hp, value, Nat.cast_sub (below_le hp)]
  push_cast
  ring

theorem significand_parity (p : Nat) : significand p % 2 = p % 2 := by
  unfold significand hiddenBit
  split <;> omega

theorem within_iff_of_even {x : ℚ} {p : Nat} (hp : 0 < p) (heven : p % 2 = 0) :
    Within x p ↔ midpoint (p - 1) ≤ x ∧ x ≤ midpoint p :=
  ⟨fun h => ⟨h.low hp, h.high⟩, fun h => ⟨fun _ => h.1, h.2, fun _ _ => heven, fun _ => heven⟩⟩

theorem within_iff_of_odd {x : ℚ} {p : Nat} (hp : 0 < p) (hodd : ¬ p % 2 = 0) :
    Within x p ↔ midpoint (p - 1) < x ∧ x < midpoint p := by
  constructor
  · intro h
    have hlow : x ≠ midpoint (p - 1) := fun heq => hodd (h.even_low hp heq)
    have hhigh : x ≠ midpoint p := fun heq => hodd (h.even_high heq)
    exact ⟨(h.low hp).lt_of_ne hlow.symm, h.high.lt_of_ne hhigh⟩
  · rintro ⟨hlow, hhigh⟩
    exact ⟨fun _ => hlow.le, hhigh.le, fun _ heq => absurd heq hlow.ne',
      fun heq => absurd heq hhigh.ne⟩

/-- The test on whole numbers says whether a grid point rounds to the number. -/
theorem reads_iff {p : Nat} (hp : 0 < p) (k : Int) (d : Nat) :
    reads (significand p) (exponent p) k d = true ↔ Within (d * 10 ^ k) p := by
  unfold reads
  simp only [significand_parity]
  split
  next heven =>
    rw [within_iff_of_even hp heven, midpoint_pred hp, midpoint_eq, decide_eq_true_iff,
      quarters_le_iff, le_quarters_iff]
  next hodd =>
    rw [within_iff_of_odd hp hodd, midpoint_pred hp, midpoint_eq, decide_eq_true_iff,
      ← not_le, ← not_le, ← not_le, ← not_le, quarters_le_iff, le_quarters_iff]

/-! ## One grid -/

section Grid

variable {p : Nat} {k : Int}

def floorOn (p : Nat) (k : Int) : Nat :=
  significand p * unit (exponent p) k / scale (exponent p) k

theorem value_div_ten_zpow (p : Nat) (k : Int) :
    value p / 10 ^ k =
      ((significand p * unit (exponent p) k : Nat) : ℚ) / scale (exponent p) k := by
  rw [mul_unit_div_scale, value]

theorem floorOn_le (p : Nat) (k : Int) : (floorOn p k : ℚ) * 10 ^ k ≤ value p := by
  rw [← le_div_iff₀ (ten_zpow_pos k), value_div_ten_zpow]
  exact Nat.cast_div_le

theorem lt_floorOn_succ (p : Nat) (k : Int) :
    value p < ((floorOn p k + 1 : Nat) : ℚ) * 10 ^ k := by
  have hscale : (0 : ℚ) < scale (exponent p) k := by exact_mod_cast scale_pos _ k
  rw [← div_lt_iff₀ (ten_zpow_pos k), value_div_ten_zpow, div_lt_iff₀ hscale]
  exact_mod_cast (Nat.div_lt_iff_lt_mul (scale_pos _ k)).1 (Nat.lt_succ_self (floorOn p k))

theorem grid_mono {a b : Nat} (h : a ≤ b) (k : Int) : (a : ℚ) * 10 ^ k ≤ b * 10 ^ k :=
  mul_le_mul_of_nonneg_right (by exact_mod_cast h) (ten_zpow_pos k).le

theorem roundDiv_eq_or (n d : Nat) : roundDiv n d = n / d ∨ roundDiv n d = n / d + 1 := by
  unfold roundDiv
  split
  · exact .inl rfl
  · exact .inr rfl

theorem within_of_pick_eq_some (hp : 0 < p) {d : Nat}
    (h : pick (significand p) (exponent p) k = some d) :
    Within (d * 10 ^ k) p ∧ d ≤ floorOn p k + 1 := by
  unfold pick at h
  simp only at h
  split at h
  next hlow hhigh =>
    obtain rfl := Option.some.inj h
    rcases roundDiv_eq_or (significand p * unit (exponent p) k) (scale (exponent p) k)
      with hround | hround
    · rw [hround]
      exact ⟨(reads_iff hp k _).1 hlow, Nat.le_succ _⟩
    · rw [hround]
      exact ⟨(reads_iff hp k _).1 hhigh, Nat.le_refl _⟩
  next hlow _ =>
    obtain rfl := Option.some.inj h
    exact ⟨(reads_iff hp k _).1 hlow, Nat.le_succ _⟩
  next _ hhigh =>
    obtain rfl := Option.some.inj h
    exact ⟨(reads_iff hp k _).1 hhigh, Nat.le_refl _⟩
  next => cases h

/-- The two grid points next to the number are enough: one further away rounds to the number only if
the nearer one on its side does. -/
theorem not_within_of_pick_eq_none (hp : 0 < p)
    (h : pick (significand p) (exponent p) k = none) (d : Nat) : ¬ Within (d * 10 ^ k) p := by
  have hreads : reads (significand p) (exponent p) k (floorOn p k) = false ∧
      reads (significand p) (exponent p) k (floorOn p k + 1) = false := by
    unfold pick at h
    simp only at h
    split at h
    case h_4 hlow hhigh => exact ⟨hlow, hhigh⟩
    all_goals cases h
  simp only [← Bool.not_eq_true, reads_iff hp] at hreads
  obtain ⟨hlow, hhigh⟩ := hreads
  intro hwithin
  by_cases hle : d ≤ floorOn p k
  · exact hlow (hwithin.between (within_value p) (grid_mono hle k) (floorOn_le p k))
  · exact hhigh ((within_value p).between hwithin (lt_floorOn_succ p k).le
      (grid_mono (by omega) k))

theorem floorOn_of_le_min (h : k ≤ min (exponent p) 0) :
    (floorOn p k : ℚ) * 10 ^ k = value p := by
  have hzero : k.toNat = 0 := by omega
  have hten : 2 ^ (-k).toNat ∣ 10 ^ (-k).toNat := pow_dvd_pow_of_dvd (by decide) _
  have htwo : 2 ^ (-exponent p).toNat ∣ 10 ^ (-k).toNat :=
    (Nat.pow_dvd_pow 2 (by omega)).trans hten
  have hdvd : scale (exponent p) k ∣ significand p * unit (exponent p) k := by
    simp only [scale, unit, Nat.pow_eq, hzero, Nat.pow_zero, Nat.mul_one]
    exact (htwo.mul_left _).mul_left _
  have hscale : (scale (exponent p) k : ℚ) ≠ 0 := by exact_mod_cast (scale_pos _ k).ne'
  rw [floorOn, Nat.cast_div hdvd hscale, ← value_div_ten_zpow,
    div_mul_cancel₀ _ (ten_zpow_pos k).ne']

end Grid

/-! ## The search -/

/-- What the search finds from a grid on: a point that rounds to the number, close to it, and no
such point on the grids that are passed over. -/
structure Found (p : Nat) (k : Int) (found : Decimal) : Prop where
  le : found.exponent ≤ k
  within : Within found.value p
  digits_le : found.digits ≤ floorOn p found.exponent + 1
  coarsest : ∀ j, found.exponent < j → j ≤ k → ∀ d : Nat, ¬ Within (d * 10 ^ j) p

theorem found_search {p : Nat} (hp : 0 < p) (fuel : Nat) (k : Int)
    (h : k - fuel ≤ min (exponent p) 0) :
    Found p k (search (significand p) (exponent p) fuel k) := by
  induction fuel generalizing k with
  | zero =>
    have hexact : (floorOn p k : ℚ) * 10 ^ k = value p := floorOn_of_le_min (by simpa using h)
    refine ⟨Int.le_refl k, ?_, Nat.le_succ _, fun j hlt hle => absurd hle (Int.not_le.2 hlt)⟩
    have hwithin := within_value p
    rw [← hexact] at hwithin
    exact hwithin
  | succ fuel ih =>
    rw [search]
    split
    next d hpick =>
      obtain ⟨hwithin, hle⟩ := within_of_pick_eq_some hp hpick
      exact ⟨Int.le_refl k, hwithin, hle, fun j hlt hle => absurd hle (Int.not_le.2 hlt)⟩
    next hpick =>
      obtain ⟨hle, hwithin, hdigits, hcoarsest⟩ := ih (k - 1) (by omega)
      refine ⟨by omega, hwithin, hdigits, fun j hlt hle => ?_⟩
      by_cases hlast : j = k
      · rw [hlast]
        exact not_within_of_pick_eq_none hp hpick
      · exact hcoarsest j hlt (by omega)

end Binary64

namespace Shortest

/-! ## Digits -/

theorem digitCount_pos (n : Nat) : 0 < digitCount n := Nat.length_toDigits_pos

theorem digitCount_le_iff {n j : Nat} (hj : 0 < j) : digitCount n ≤ j ↔ n < 10 ^ j :=
  Nat.length_toDigits_le_iff (by decide) hj

theorem lt_pow_digitCount (n : Nat) : n < 10 ^ digitCount n :=
  (digitCount_le_iff (digitCount_pos n)).1 (Nat.le_refl _)

theorem pow_digitCount_le {n : Nat} (hn : 0 < n) : 10 ^ (digitCount n - 1) ≤ n := by
  by_cases hone : digitCount n = 1
  · rw [hone]
    exact hn
  · have hpos := digitCount_pos n
    rw [← Nat.not_lt, ← digitCount_le_iff (by omega)]
    omega

theorem lt_digitCount_of_pow_le {n j : Nat} (h : 10 ^ j ≤ n) : j < digitCount n :=
  (Nat.pow_lt_pow_iff_right (by decide)).1 (h.trans_lt (lt_pow_digitCount n))

theorem value_trim (digits : Nat) (exponent : Int) :
    (trim digits exponent).value = digits * (10 : ℚ) ^ exponent := by
  fun_induction trim digits exponent with
  | case1 => simp [value]
  | case2 digits exponent _ hmod ih =>
    have hdigits : (digits : ℚ) = (digits / 10 : Nat) * 10 := by
      exact_mod_cast (Nat.div_mul_cancel (Nat.dvd_of_mod_eq_zero hmod)).symm
    rw [ih, hdigits, zpow_add_one₀ (by norm_num)]
    ring
  | case3 => rfl

theorem trim_digits {digits : Nat} (exponent : Int) (h : 0 < digits) :
    (trim digits exponent).digits ≤ digits ∧ (trim digits exponent).digits % 10 ≠ 0 := by
  fun_induction trim digits exponent with
  | case1 => omega
  | case2 digits exponent _ hmod ih =>
    obtain ⟨hle, hlast⟩ := ih (by omega)
    exact ⟨by omega, hlast⟩
  | case3 digits exponent _ hmod => exact ⟨Nat.le_refl _, hmod⟩

theorem digitCount_floor {n d : Nat} (hd : 0 < d) (h : d ≤ n) :
    (10 : ℚ) ^ (digitCount (n / d) - 1) ≤ (n : ℚ) / d ∧
      (n : ℚ) / d < 10 ^ digitCount (n / d) := by
  have hd' : (0 : ℚ) < d := by exact_mod_cast hd
  have hlow := (Nat.le_div_iff_mul_le hd).1 (pow_digitCount_le (Nat.div_pos h hd))
  have hhigh := (Nat.div_lt_iff_lt_mul hd).1 (lt_pow_digitCount (n / d))
  rw [le_div_iff₀ hd', div_lt_iff₀ hd']
  exact ⟨by exact_mod_cast hlow, by exact_mod_cast hhigh⟩

theorem leading_spec {n d : Nat} (hn : 0 < n) (hd : 0 < d) :
    (10 : ℚ) ^ leading n d ≤ (n : ℚ) / d ∧ (n : ℚ) / d < 10 ^ (leading n d + 1) := by
  have hpow (j : Nat) : (10 : ℚ) ^ (-(j : Int)) = (10 ^ j)⁻¹ := by rw [zpow_neg, zpow_natCast]
  unfold leading
  split
  next h =>
    obtain ⟨hlow, hhigh⟩ := digitCount_floor hd h
    have hcount : (digitCount (n / d) : Int) - 1 = (digitCount (n / d) - 1 : Nat) := by
      have := digitCount_pos (n / d)
      omega
    rw [Int.sub_add_cancel, zpow_natCast, hcount, zpow_natCast]
    exact ⟨hlow, hhigh⟩
  next h =>
    have hn' : (0 : ℚ) < n := by exact_mod_cast hn
    have hd' : (0 : ℚ) < d := by exact_mod_cast hd
    obtain ⟨hlow, hhigh⟩ := digitCount_floor hn (Nat.le_of_not_le h)
    have hcount : 1 - (digitCount (d / n) : Int) = -((digitCount (d / n) - 1 : Nat) : Int) := by
      have := digitCount_pos (d / n)
      omega
    have hbelow : (10 : ℚ) ^ (-(digitCount (d / n) : Int)) < (n : ℚ) / d := by
      rw [hpow, ← inv_div]
      exact inv_strictAnti₀ (div_pos hd' hn') hhigh
    have habove : (n : ℚ) / d ≤ 10 ^ (1 - (digitCount (d / n) : Int)) := by
      rw [hcount, hpow, ← inv_div]
      exact inv_anti₀ (by positivity) hlow
    have hfits : (10 : ℚ) ^ (1 - (digitCount (d / n) : Int)) ≤ (n : ℚ) / d ↔
        d ≤ n * Nat.pow 10 (digitCount (d / n) - 1) := by
      rw [hcount, hpow, inv_eq_one_div, div_le_div_iff₀ (by positivity) hd', one_mul]
      exact_mod_cast Iff.rfl
    simp only
    split
    next hle =>
      refine ⟨hfits.2 hle, habove.trans_lt ?_⟩
      exact zpow_lt_zpow_right₀ (by norm_num) (by omega)
    next hlt =>
      refine ⟨hbelow.le, ?_⟩
      rw [neg_add_eq_sub]
      exact lt_of_not_ge (mt hfits.1 hlt)

end Shortest

/-! ## The result -/

open Shortest Binary64

section Result

variable {p : Nat} (hp : 0 < p)

include hp

theorem ofPattern_spec :
    ∃ k found, (10 : ℚ) ^ k ≤ Binary64.value p ∧ Binary64.value p < 10 ^ (k + 1) ∧
      Found p k found ∧ ofPattern p = trim found.digits found.exponent := by
  have hunit : 0 < unit (Binary64.exponent p) 0 :=
    Nat.mul_pos (Nat.pow_pos (by decide)) (Nat.pow_pos (by decide))
  have hlead := leading_spec (Nat.mul_pos (significand_pos hp) hunit)
    (scale_pos (Binary64.exponent p) 0)
  rw [← value_div_ten_zpow, zpow_zero, div_one] at hlead
  exact ⟨_, _, hlead.1, hlead.2, found_search hp _ _ (by omega), rfl⟩

theorem digits_pos_of_within {d : Decimal} (h : Within d.value p) : 0 < d.digits := by
  by_contra hzero
  have hlow := h.low hp
  rw [value, Nat.eq_zero_of_not_pos hzero, Nat.cast_zero, zero_mul] at hlow
  exact absurd (midpoint_pos (p - 1)) (not_lt.2 hlow)

variable {k : Int} {found : Decimal} (hfound : Found p k found)

include hfound

theorem digits_trim_lt (h : Binary64.value p < 10 ^ (k + 1)) :
    (trim found.digits found.exponent).digits < 10 ^ ((k - found.exponent).toNat + 1) := by
  obtain ⟨hle, hlast⟩ := trim_digits found.exponent (digits_pos_of_within hp hfound.within)
  have hexp : ((k - found.exponent).toNat + 1 : Nat) + found.exponent = k + 1 := by
    have := hfound.le
    omega
  have hfloor : (floorOn p found.exponent : ℚ) < 10 ^ ((k - found.exponent).toNat + 1) := by
    have hlt := (floorOn_le p found.exponent).trans_lt h
    rw [← hexp, zpow_add₀ (by norm_num), zpow_natCast] at hlt
    exact lt_of_mul_lt_mul_right hlt (ten_zpow_pos found.exponent).le
  have hfloor' : floorOn p found.exponent < 10 ^ ((k - found.exponent).toNat + 1) := by
    exact_mod_cast hfloor
  -- A power of ten would have been trimmed further.
  have hne : (trim found.digits found.exponent).digits ≠ 10 ^ ((k - found.exponent).toNat + 1) := by
    intro heq
    rw [heq, Nat.pow_succ, Nat.mul_mod_left] at hlast
    exact hlast rfl
  have hdigits := hfound.digits_le
  omega

/-- A decimal with too few digits for the grid that was found is on a coarser one, or so small that
the start of the leading digit is closer to the number. -/
theorem pow_le_digits (hlead : (10 : ℚ) ^ k ≤ Binary64.value p) {d : Decimal}
    (h : Within d.value p) : 10 ^ (k - found.exponent).toNat ≤ d.digits := by
  rcases hfound.le.eq_or_lt with hsame | hlt
  · rw [hsame, Int.sub_self]
    exact digits_pos_of_within hp h
  by_cases hcoarse : found.exponent < d.exponent
  · have hgrid : d.value =
        ((d.digits * 10 ^ (d.exponent - min d.exponent k).toNat : Nat) : ℚ) *
          10 ^ min d.exponent k := by
      have hexp : d.exponent =
          ((d.exponent - min d.exponent k).toNat : Int) + min d.exponent k := by
        omega
      rw [value, Nat.cast_mul, Nat.cast_pow, mul_assoc, ← zpow_natCast, Nat.cast_ofNat,
        ← zpow_add₀ (by norm_num), ← hexp]
    rw [hgrid] at h
    exact absurd h (hfound.coarsest _ (by omega) (Int.min_le_right _ _) _)
  · by_contra hfew
    have hdigits : (d.digits : ℚ) < 10 ^ (k - found.exponent).toNat := by
      exact_mod_cast Nat.lt_of_not_le hfew
    have hsmall : d.value ≤ ((1 : Nat) : ℚ) * 10 ^ k := by
      calc
        d.value ≤ 10 ^ (k - found.exponent).toNat * 10 ^ found.exponent :=
          mul_le_mul hdigits.le (ten_zpow_le (Int.not_lt.1 hcoarse)) (ten_zpow_pos _).le
            (by positivity)
        _ = 10 ^ (((k - found.exponent).toNat : Int) + found.exponent) := by
          rw [zpow_add₀ (by norm_num), zpow_natCast]
        _ = ((1 : Nat) : ℚ) * 10 ^ k := by
          rw [Int.toNat_of_nonneg (by omega), Int.sub_add_cancel, Nat.cast_one, one_mul]
    have hpoint : Within (((1 : Nat) : ℚ) * 10 ^ k) p :=
      h.between (within_value p) hsmall (by simpa using hlead)
    exact hfound.coarsest k hlt (Int.le_refl k) 1 hpoint

omit hfound

theorem ofPattern_within : Within (ofPattern p).value p := by
  obtain ⟨k, found, _, _, hfound, heq⟩ := ofPattern_spec hp
  rw [heq, value_trim]
  exact hfound.within

/-- No decimal that rounds to a number has fewer digits than the decimal of the number. -/
theorem ofPattern_shortest {d : Decimal} (h : Within d.value p) :
    digitCount (ofPattern p).digits ≤ digitCount d.digits := by
  obtain ⟨k, found, hlow, hhigh, hfound, heq⟩ := ofPattern_spec hp
  have hfew := digits_trim_lt hp hfound hhigh
  have hmany := pow_le_digits hp hfound hlow h
  calc
    digitCount (ofPattern p).digits ≤ (k - found.exponent).toNat + 1 := by
      rw [heq]
      exact (digitCount_le_iff (Nat.succ_pos _)).2 hfew
    _ ≤ digitCount d.digits := lt_digitCount_of_pow_le hmany

end Result

/-- A decimal that rounds to a pattern, with as few digits as such a decimal can have. -/
structure IsShortest (d : Decimal) (p : Nat) : Prop where
  rounds : Rounds d.value p
  fewest : ∀ d' : Decimal, Rounds d'.value p → digitCount d.digits ≤ digitCount d'.digits

theorem isShortest_ofPattern {p : Nat} (hpos : 0 < p) (hp : p < infinity) :
    IsShortest (ofPattern p) p where
  rounds := (rounds_iff hp).2 (ofPattern_within hpos)
  fewest _ h := ofPattern_shortest hpos (h.within hp)

theorem isShortest_zero : IsShortest ⟨0, 0⟩ 0 where
  rounds := by
    rw [value, Nat.cast_zero, zero_mul]
    exact rounds_zero
  fewest d' _ := digitCount_pos d'.digits

end TreeScript.Decimal
