import TreeScript.Proofs.Binary64

/-!
# Rounding to the nearest number

`Rounds x p` says without any computation that `p` is the pattern of the number closest to `x`, the
even one of two. The numbers that round to one pattern are those between the two points halfway to
its neighbours (`rounds_iff`), so there is never more than one such pattern. `nearest` and
`toPattern` find it.
-/

namespace TreeScript.Decimal

namespace Binary64

/-- The pattern of the number closest to `x`; of two equally close ones the even one. Infinity
counts as the power of two that follows the largest number. -/
structure Rounds (x : ℚ) (p : Nat) : Prop where
  le : p ≤ infinity
  closest : ∀ r ≤ infinity, |x - value p| ≤ |x - value r|
  even : ∀ r ≤ infinity, r ≠ p → |x - value r| = |x - value p| → p % 2 = 0

/-! ## Neighbours -/

theorem two_zpow_pos (e : Int) : (0 : ℚ) < 2 ^ e := by positivity

theorem two_zpow_succ (e : Int) : (2 : ℚ) ^ (e + 1) = 2 * 2 ^ e := by
  rw [zpow_add_one₀ (by norm_num), mul_comm]

theorem split_block {k r : Nat} (hr : r < 2 * hiddenBit) (h : k = 0 ∨ hiddenBit ≤ r) :
    significand (k * hiddenBit + r) = r ∧ exponent (k * hiddenBit + r) = (k : Int) - 1074 := by
  unfold significand exponent hiddenBit at *
  constructor
  · split <;> omega
  · omega

/-- The first number of the next binade has half the digits and twice the unit, so it counts as the
last one of a binade too. -/
theorem value_block {k r : Nat} (hr : r ≤ 2 * hiddenBit) (h : k = 0 ∨ hiddenBit ≤ r) :
    value (k * hiddenBit + r) = r * (2 : ℚ) ^ ((k : Int) - 1074) := by
  rcases hr.lt_or_eq with hlt | rfl
  · obtain ⟨hsig, hexp⟩ := split_block hlt h
    rw [value, hsig, hexp]
  · have hpattern : k * hiddenBit + 2 * hiddenBit = (k + 1) * hiddenBit + hiddenBit := by ring
    have hunit : ((k + 1 : Nat) : Int) - 1074 = (k : Int) - 1074 + 1 := by omega
    obtain ⟨hsig, hexp⟩ :=
      split_block (k := k + 1) (r := hiddenBit) (by decide) (.inr (Nat.le_refl _))
    rw [hpattern, value, hsig, hexp, hunit, two_zpow_succ]
    push_cast
    ring

theorem exists_block (p : Nat) :
    ∃ k r, p = k * hiddenBit + r ∧ r < 2 * hiddenBit ∧ (k = 0 ∨ hiddenBit ≤ r) := by
  by_cases hp : p < 2 * hiddenBit
  · exact ⟨0, p, by omega, hp, .inl rfl⟩
  · refine ⟨p / hiddenBit - 1, hiddenBit + p % hiddenBit, ?_, ?_, .inr (Nat.le_add_right _ _)⟩
    · exact (split_pattern (by omega)).symm
    · have hmod : p % hiddenBit < hiddenBit := Nat.mod_lt p (by decide)
      omega

/-- The next number is one unit of the last place further. -/
theorem value_succ (p : Nat) : value (p + 1) = value p + 2 ^ exponent p := by
  obtain ⟨k, r, rfl, hr, h⟩ := exists_block p
  have hnext : value (k * hiddenBit + (r + 1)) = ((r + 1 : Nat) : ℚ) * 2 ^ ((k : Int) - 1074) :=
    value_block hr (by omega)
  rw [value_block hr.le h, (split_block hr h).2, Nat.add_assoc, hnext]
  push_cast
  ring

theorem value_strictMono : StrictMono value := by
  apply strictMono_nat_of_lt_succ
  intro p
  have hpos := two_zpow_pos (exponent p)
  rw [value_succ]
  linarith

theorem value_zero : value 0 = 0 := by
  rw [value, significand, if_pos (by decide), Nat.cast_zero, zero_mul]

theorem value_nonneg (p : Nat) : 0 ≤ value p := by
  rw [← value_zero]
  exact value_strictMono.monotone (Nat.zero_le p)

theorem value_infinity : value infinity = 2 ^ (1024 : Int) := by
  have hsig : significand infinity = hiddenBit := by decide
  have hexp : exponent infinity = 972 := by decide
  have hbit : (hiddenBit : ℚ) = 2 ^ (52 : Int) := by norm_num [hiddenBit]
  rw [value, hsig, hexp, hbit, ← zpow_add₀ (by norm_num)]
  rfl

def midpoint (p : Nat) : ℚ := (value p + value (p + 1)) / 2

theorem value_lt_midpoint (p : Nat) : value p < midpoint p := by
  have hlt : value p < value (p + 1) := value_strictMono (Nat.lt_succ_self p)
  unfold midpoint
  linarith

theorem midpoint_lt_value (p : Nat) : midpoint p < value (p + 1) := by
  have hlt : value p < value (p + 1) := value_strictMono (Nat.lt_succ_self p)
  unfold midpoint
  linarith

theorem midpoint_strictMono : StrictMono midpoint := by
  apply strictMono_nat_of_lt_succ
  intro p
  exact (midpoint_lt_value p).trans (value_lt_midpoint (p + 1))

theorem midpoint_pos (p : Nat) : 0 < midpoint p := (value_nonneg p).trans_lt (value_lt_midpoint p)

/-! ## The numbers that round to a pattern -/

/-- The number is between the points halfway to the neighbours of a pattern; these points belong to
the even pattern. -/
structure Within (x : ℚ) (p : Nat) : Prop where
  low : 0 < p → midpoint (p - 1) ≤ x
  high : x ≤ midpoint p
  even_low : 0 < p → x = midpoint (p - 1) → p % 2 = 0
  even_high : x = midpoint p → p % 2 = 0

theorem within_value (p : Nat) : Within (value p) p := by
  have hhigh := value_lt_midpoint p
  refine ⟨fun hp => ?_, hhigh.le, fun hp heq => ?_, fun heq => absurd heq hhigh.ne⟩
  · have hlow := midpoint_lt_value (p - 1)
    rw [Nat.sub_add_cancel hp] at hlow
    exact hlow.le
  · have hlow := midpoint_lt_value (p - 1)
    rw [Nat.sub_add_cancel hp] at hlow
    exact absurd heq hlow.ne'

/-- What is between two numbers that round to a pattern rounds to it too. -/
theorem Within.between {x y z : ℚ} {p : Nat} (hx : Within x p) (hz : Within z p) (hxy : x ≤ y)
    (hyz : y ≤ z) : Within y p where
  low hp := (hx.low hp).trans hxy
  high := hyz.trans hz.high
  even_low hp heq := hx.even_low hp (le_antisymm (heq ▸ hxy) (hx.low hp))
  even_high heq := hz.even_high (le_antisymm hz.high (heq ▸ hyz))

theorem abs_sub_le_of_half_le {a b x : ℚ} (hba : b ≤ a) (h : (a + b) / 2 ≤ x) :
    |x - a| ≤ |x - b| := by
  rw [abs_of_nonneg (by linarith : 0 ≤ x - b), abs_le]
  constructor <;> linarith

theorem abs_sub_le_of_le_half {a b x : ℚ} (hab : a ≤ b) (h : x ≤ (a + b) / 2) :
    |x - a| ≤ |x - b| := by
  rw [abs_of_nonpos (by linarith : x - b ≤ 0), abs_le]
  constructor <;> linarith

theorem eq_half_of_abs_sub_eq {a b x : ℚ} (hne : b ≠ a) (h : |x - b| = |x - a|) :
    x = (a + b) / 2 := by
  rcases abs_eq_abs.1 h with heq | heq
  · exact absurd (by linarith) hne
  · linarith

theorem abs_sub_eq_of_eq_half {a b x : ℚ} (h : x = (a + b) / 2) : |x - b| = |x - a| := by
  have hflip : x - b = a - x := by linarith
  rw [hflip, abs_sub_comm]

theorem half_le_of_abs_sub_le {a b x : ℚ} (hba : b < a) (h : |x - a| ≤ |x - b|) :
    (a + b) / 2 ≤ x := by
  by_contra hlt
  have hcloser : |x - b| ≤ |x - a| := abs_sub_le_of_le_half hba.le (by linarith)
  exact hlt (eq_half_of_abs_sub_eq hba.ne (le_antisymm hcloser h)).ge

theorem le_half_of_abs_sub_le {a b x : ℚ} (hab : a < b) (h : |x - a| ≤ |x - b|) :
    x ≤ (a + b) / 2 := by
  by_contra hlt
  have hcloser : |x - b| ≤ |x - a| := abs_sub_le_of_half_le hab.le (by linarith)
  exact hlt (eq_half_of_abs_sub_eq hab.ne' (le_antisymm hcloser h)).le

theorem midpoint_eq_half {p : Nat} (hp : 0 < p) :
    midpoint (p - 1) = (value p + value (p - 1)) / 2 := by
  rw [midpoint, Nat.sub_add_cancel hp, add_comm]

theorem half_le_midpoint {r p : Nat} (h : r < p) : (value p + value r) / 2 ≤ midpoint (p - 1) := by
  have hle : value r ≤ value (p - 1) := value_strictMono.monotone (by omega)
  rw [midpoint_eq_half (by omega)]
  linarith

theorem midpoint_le_half {p r : Nat} (h : p < r) : midpoint p ≤ (value p + value r) / 2 := by
  have hle : value (p + 1) ≤ value r := value_strictMono.monotone h
  unfold midpoint
  linarith

/-- A number between the halfway points rounds to the pattern, or to infinity if the pattern is
beyond. -/
theorem Within.rounds_min {x : ℚ} {p : Nat} (h : Within x p) : Rounds x (min infinity p) := by
  have hbelow {r : Nat} (hr : r < min infinity p) : midpoint (min infinity p - 1) ≤ x :=
    (midpoint_strictMono.monotone (by omega)).trans (h.low (by omega))
  refine ⟨Nat.min_le_left _ _, fun r hr => ?_, fun r hr hne heq => ?_⟩
  · rcases Nat.lt_trichotomy r (min infinity p) with hlt | rfl | hgt
    · have hle : value r ≤ value (min infinity p) := value_strictMono.monotone hlt.le
      exact abs_sub_le_of_half_le hle ((half_le_midpoint hlt).trans (hbelow hlt))
    · exact le_rfl
    · have hp : min infinity p = p := by omega
      rw [hp] at hgt ⊢
      have hle : value p ≤ value r := value_strictMono.monotone hgt.le
      exact abs_sub_le_of_le_half hle (h.high.trans (midpoint_le_half hgt))
  · have hhalf := eq_half_of_abs_sub_eq (fun hvalue => hne (value_strictMono.injective hvalue)) heq
    rcases Nat.lt_or_gt_of_ne hne with hlt | hgt
    · -- Only the neighbour below can be equally close, and only if the pattern is not cut off.
      have hx : x = midpoint (min infinity p - 1) :=
        le_antisymm (hhalf.trans_le (half_le_midpoint hlt)) (hbelow hlt)
      have hp : min infinity p - 1 = p - 1 := by
        apply midpoint_strictMono.injective
        apply le_antisymm (midpoint_strictMono.monotone (by omega))
        exact (h.low (by omega)).trans hx.le
      have hmin : min infinity p = p := by omega
      rw [hp] at hx
      rw [hmin]
      exact h.even_low (by omega) hx
    · have hp : min infinity p = p := by omega
      rw [hp] at hgt hhalf ⊢
      exact h.even_high (le_antisymm h.high ((midpoint_le_half hgt).trans hhalf.ge))

namespace Rounds

variable {x : ℚ} {p : Nat}

theorem low (h : Rounds x p) (hp : 0 < p) : midpoint (p - 1) ≤ x := by
  rw [midpoint_eq_half hp]
  exact half_le_of_abs_sub_le (value_strictMono (by omega))
    (h.closest (p - 1) ((Nat.sub_le p 1).trans h.le))

theorem even_low (h : Rounds x p) (hp : 0 < p) (hx : x = midpoint (p - 1)) : p % 2 = 0 := by
  rw [midpoint_eq_half hp] at hx
  exact h.even (p - 1) ((Nat.sub_le p 1).trans h.le) (by omega) (abs_sub_eq_of_eq_half hx)

theorem high (h : Rounds x p) (hp : p < infinity) : x ≤ midpoint p :=
  le_half_of_abs_sub_le (value_strictMono (Nat.lt_succ_self p)) (h.closest (p + 1) hp)

theorem even_high (h : Rounds x p) (hp : p < infinity) (hx : x = midpoint p) : p % 2 = 0 :=
  h.even (p + 1) hp (Nat.succ_ne_self p) (abs_sub_eq_of_eq_half hx)

theorem within (h : Rounds x p) (hp : p < infinity) : Within x p :=
  ⟨h.low, h.high hp, h.even_low, h.even_high hp⟩

end Rounds

theorem rounds_iff {x : ℚ} {p : Nat} (hp : p < infinity) : Rounds x p ↔ Within x p := by
  refine ⟨fun h => h.within hp, fun h => ?_⟩
  have hmin := h.rounds_min
  rwa [Nat.min_eq_right hp.le] at hmin

theorem Rounds.le_of_rounds {x : ℚ} {p r : Nat} (hp : Rounds x p) (hr : Rounds x r) : r ≤ p := by
  by_contra hlt
  have hp' : p < infinity := by
    have hr' := hr.le
    omega
  have hhigh := hp.high hp'
  have hlow := hr.low (by omega)
  have hle : midpoint p ≤ midpoint (r - 1) := midpoint_strictMono.monotone (by omega)
  have hnext : p = r - 1 :=
    midpoint_strictMono.injective (le_antisymm hle (hlow.trans hhigh))
  have heven := hp.even_high hp' (le_antisymm hhigh (hle.trans hlow))
  have heven' := hr.even_low (by omega) (le_antisymm (hnext ▸ hhigh) hlow)
  omega

theorem Rounds.unique {x : ℚ} {p r : Nat} (hp : Rounds x p) (hr : Rounds x r) : p = r :=
  Nat.le_antisymm (hr.le_of_rounds hp) (hp.le_of_rounds hr)

/-- A larger number does not round to a smaller one. -/
theorem Rounds.mono {x y : ℚ} {p r : Nat} (hp : Rounds x p) (hr : Rounds y r) (h : x ≤ y) :
    p ≤ r := by
  by_contra hlt
  have hple := hp.le
  have hlow := hp.low (by omega)
  have hhigh := hr.high (by omega)
  have hmid : midpoint r ≤ midpoint (p - 1) := midpoint_strictMono.monotone (by omega)
  have hsame : x = y := le_antisymm h (hhigh.trans (hmid.trans hlow))
  subst hsame
  exact hlt (hp.unique hr).le

/-! ## Fractions -/

theorem roundDiv_spec (n : Nat) {d : Nat} (hd : 0 < d) :
    (roundDiv n d : ℚ) - 1 / 2 ≤ n / d ∧ (n : ℚ) / d ≤ roundDiv n d + 1 / 2 ∧
      ((n : ℚ) / d = roundDiv n d - 1 / 2 → roundDiv n d % 2 = 0) ∧
      ((n : ℚ) / d = roundDiv n d + 1 / 2 → roundDiv n d % 2 = 0) := by
  have hd' : (0 : ℚ) < d := by exact_mod_cast hd
  have hn : (n : ℚ) = d * (n / d : Nat) + (n % d : Nat) := by
    exact_mod_cast (Nat.div_add_mod n d).symm
  have hx : (n : ℚ) / d = (n / d : Nat) + ((n % d : Nat) : ℚ) / d := by
    rw [hn]
    field_simp
  have hlow : (0 : ℚ) ≤ ((n % d : Nat) : ℚ) / d := by positivity
  have hlt : ((n % d : Nat) : ℚ) / d < 1 := by
    rw [div_lt_one hd']
    exact_mod_cast Nat.mod_lt n hd
  have htwice : ((n % d : Nat) : ℚ) / d = ((2 * (n % d) : Nat) : ℚ) / d / 2 := by
    push_cast
    ring
  have hhalf : ((n % d : Nat) : ℚ) / d = 1 / 2 ↔ 2 * (n % d) = d := by
    rw [htwice, div_left_inj' two_ne_zero, div_eq_one_iff_eq hd'.ne', Nat.cast_inj]
  have hle : ((n % d : Nat) : ℚ) / d ≤ 1 / 2 ↔ 2 * (n % d) ≤ d := by
    rw [htwice, div_le_div_iff_of_pos_right two_pos, div_le_one hd', Nat.cast_le]
  rw [hx]
  unfold roundDiv
  split
  next h =>
    have hf := hle.2 (by omega)
    refine ⟨by linarith, by linarith, fun heq => by linarith, fun heq => ?_⟩
    have htie := hhalf.1 (by linarith)
    omega
  next h =>
    have hf : ¬ ((n % d : Nat) : ℚ) / d < 1 / 2 := by
      rw [lt_iff_le_and_ne, hle, Ne, hhalf]
      omega
    push_cast
    refine ⟨by linarith, by linarith, fun heq => ?_, fun heq => by linarith⟩
    have htie := hhalf.1 (by linarith)
    omega

theorem midpoint_block {k r : Nat} (hr : r < 2 * hiddenBit) (h : k = 0 ∨ hiddenBit ≤ r) :
    midpoint (k * hiddenBit + r) = (r + 1 / 2) * (2 : ℚ) ^ ((k : Int) - 1074) := by
  rw [midpoint, value_succ, value_block hr.le h, (split_block hr h).2]
  ring

theorem midpoint_pred_block {k r : Nat} (hr : r ≤ 2 * hiddenBit) (hpos : 0 < r)
    (h : k = 0 ∨ hiddenBit < r) :
    midpoint (k * hiddenBit + r - 1) = (r - 1 / 2) * (2 : ℚ) ^ ((k : Int) - 1074) := by
  have hprev : midpoint (k * hiddenBit + (r - 1)) = (((r - 1 : Nat) : ℚ) + 1 / 2) * _ :=
    midpoint_block (by omega) (by omega)
  rw [Nat.add_sub_assoc hpos, hprev, Nat.cast_sub hpos]
  ring

section Block

variable {k r : Nat} {y : ℚ}

theorem midpoint_pred_cases (hr : r ≤ 2 * hiddenBit) (hk : k = 0 ∨ hiddenBit ≤ r)
    (hy : k = 0 ∨ (hiddenBit : ℚ) ≤ y) (hp : 0 < k * hiddenBit + r) :
    midpoint (k * hiddenBit + r - 1) = (r - 1 / 2) * 2 ^ ((k : Int) - 1074) ∨
      midpoint (k * hiddenBit + r - 1) < y * 2 ^ ((k : Int) - 1074) := by
  by_cases hfirst : k = 0 ∨ hiddenBit < r
  · have hpos : 0 < r := by
      rcases hfirst with rfl | hlt
      · omega
      · exact Nat.zero_lt_of_lt hlt
    exact .inl (midpoint_pred_block hr hpos hfirst)
  · have hedge : r = hiddenBit := by omega
    have hle : (r : ℚ) ≤ y := hedge ▸ hy.resolve_left (fun hzero => hfirst (.inl hzero))
    have hlt := midpoint_lt_value (k * hiddenBit + r - 1)
    rw [Nat.sub_add_cancel hp, value_block hr hk] at hlt
    exact .inr (hlt.trans_le (mul_le_mul_of_nonneg_right hle (two_zpow_pos _).le))

theorem midpoint_cases (hr : r ≤ 2 * hiddenBit) (hk : k = 0 ∨ hiddenBit ≤ r)
    (hy : y < 2 * hiddenBit) :
    midpoint (k * hiddenBit + r) = (r + 1 / 2) * 2 ^ ((k : Int) - 1074) ∨
      y * 2 ^ ((k : Int) - 1074) < midpoint (k * hiddenBit + r) := by
  rcases hr.lt_or_eq with hlt | hedge
  · exact .inl (midpoint_block hlt hk)
  · have hy' : y < r := by
      rw [hedge]
      exact_mod_cast hy
    have hlt := value_lt_midpoint (k * hiddenBit + r)
    rw [value_block hr hk] at hlt
    exact .inr ((mul_lt_mul_of_pos_right hy' (two_zpow_pos _)).trans hlt)

theorem within_block (hk : k = 0 ∨ (hiddenBit : ℚ) ≤ y) (hy : y < 2 * hiddenBit)
    (hlow : (r : ℚ) - 1 / 2 ≤ y) (hhigh : y ≤ r + 1 / 2)
    (hlow' : y = r - 1 / 2 → r % 2 = 0) (hhigh' : y = r + 1 / 2 → r % 2 = 0) :
    Within (y * 2 ^ ((k : Int) - 1074)) (k * hiddenBit + r) := by
  have hunit := two_zpow_pos ((k : Int) - 1074)
  have hparity : (k * hiddenBit + r) % 2 = r % 2 := by
    unfold hiddenBit
    omega
  have hr : r ≤ 2 * hiddenBit := by
    have hcast : (r : ℚ) < (2 * hiddenBit + 1 : Nat) := by
      push_cast
      linarith
    exact Nat.lt_succ_iff.1 (by exact_mod_cast hcast)
  have hk' : k = 0 ∨ hiddenBit ≤ r := by
    refine hk.imp_right fun hle => ?_
    have hcast : (hiddenBit : ℚ) < (r + 1 : Nat) := by
      push_cast
      linarith
    exact Nat.lt_succ_iff.1 (by exact_mod_cast hcast)
  have hbelow := midpoint_pred_cases hr hk' hk
  have habove := midpoint_cases hr hk' hy
  refine ⟨fun hp => ?_, ?_, fun hp heq => ?_, fun heq => ?_⟩
  · rcases hbelow hp with hmid | hlt
    · exact hmid.trans_le (mul_le_mul_of_nonneg_right hlow hunit.le)
    · exact hlt.le
  · rcases habove with hmid | hlt
    · exact (mul_le_mul_of_nonneg_right hhigh hunit.le).trans_eq hmid.symm
    · exact hlt.le
  · rcases hbelow hp with hmid | hlt
    · exact hparity.trans (hlow' (mul_right_cancel₀ hunit.ne' (heq.trans hmid)))
    · exact absurd heq hlt.ne'
  · rcases habove with hmid | hlt
    · exact hparity.trans (hhigh' (mul_right_cancel₀ hunit.ne' (heq.trans hmid)))
    · exact absurd heq hlt.ne

end Block

theorem scaled_div (n d : Nat) (e : Int) :
    ((n * Nat.pow 2 (-e).toNat : Nat) : ℚ) / (d * Nat.pow 2 e.toNat : Nat) =
      (n : ℚ) / d / 2 ^ e := by
  rw [zpow_eq_div 2, div_div_div_eq]
  simp only [Nat.pow_eq, Nat.cast_mul, Nat.cast_pow, Nat.cast_ofNat]

theorem rounds_zero : Rounds 0 0 := by
  rw [rounds_iff (by decide)]
  simpa only [value_zero] using within_value 0

/-- `nearest` finds the pattern of the number closest to a fraction. -/
theorem nearest_rounds (n : Nat) {d : Nat} (hd : 0 < d) : Rounds ((n : ℚ) / d) (nearest n d) := by
  rcases Nat.eq_zero_or_pos n with rfl | hn
  · rw [Nat.cast_zero, zero_div]
    exact rounds_zero
  obtain ⟨hlow, hhigh⟩ := order_spec hn hd
  obtain ⟨k, hk⟩ : ∃ k : Nat, max (-1074) (order n d - 52) = (k : Int) - 1074 :=
    ⟨(max (-1074) (order n d - 52) + 1074).toNat, by omega⟩
  have hfield : ((k : Int) - 1074 + 1074).toNat = k := by omega
  have hunit := two_zpow_pos ((k : Int) - 1074)
  have hbit : (hiddenBit : ℚ) = 2 ^ (52 : Int) := by norm_num [hiddenBit]
  have hspec := roundDiv_spec (n * Nat.pow 2 (-((k : Int) - 1074)).toNat)
    (Nat.mul_pos hd (Nat.pow_pos (by decide)) : 0 < d * Nat.pow 2 ((k : Int) - 1074).toNat)
  rw [scaled_div] at hspec
  obtain ⟨hbelow, habove, htie, htie'⟩ := hspec
  have hlead : k = 0 ∨ (hiddenBit : ℚ) ≤ (n : ℚ) / d / 2 ^ ((k : Int) - 1074) := by
    by_cases hzero : k = 0
    · exact .inl hzero
    · right
      have horder : (52 : Int) + ((k : Int) - 1074) = order n d := by omega
      rwa [le_div_iff₀ hunit, hbit, ← zpow_add₀ (by norm_num), horder]
  have hfits : (n : ℚ) / d / 2 ^ ((k : Int) - 1074) < 2 * hiddenBit := by
    have hle : (2 : ℚ) ^ (order n d + 1) ≤ 2 ^ ((53 : Int) + ((k : Int) - 1074)) :=
      zpow_le_zpow_right₀ (by norm_num) (by omega)
    have hbit' : (2 : ℚ) * hiddenBit = 2 ^ (53 : Int) := by norm_num [hiddenBit]
    rw [div_lt_iff₀ hunit, hbit', ← zpow_add₀ (by norm_num)]
    exact hhigh.trans_le hle
  have hwithin := within_block hlead hfits hbelow habove htie htie'
  rw [div_mul_cancel₀ _ hunit.ne'] at hwithin
  simp only [nearest, if_neg (Nat.ne_of_gt hn), hk, hfield]
  exact hwithin.rounds_min

theorem rounds_infinity {x : ℚ} (h : value infinity ≤ x) : Rounds x infinity where
  le := Nat.le_refl _
  closest r hr := by
    have hle : value r ≤ value infinity := value_strictMono.monotone hr
    exact abs_sub_le_of_half_le hle (by linarith)
  even _ _ _ _ := by decide

theorem rounds_zero_of_lt {x : ℚ} (h : x < midpoint 0) : Rounds x 0 :=
  (rounds_iff (by decide)).2
    ⟨fun hp => absurd hp (Nat.lt_irrefl 0), h.le, fun _ _ => rfl, fun _ => rfl⟩

theorem midpoint_zero : midpoint 0 = 2 ^ (-1075 : Int) := by
  have hexp : exponent 0 = -1075 + 1 := by decide
  rw [midpoint, value_succ, value_zero, hexp, two_zpow_succ]
  ring

end Binary64

/-! ## Decimals -/

def value (d : Decimal) : ℚ := d.digits * (10 : ℚ) ^ d.exponent

theorem ten_zpow_le {e e' : Int} (h : e ≤ e') : (10 : ℚ) ^ e ≤ 10 ^ e' :=
  zpow_le_zpow_right₀ (by norm_num) h

theorem two_pow_le_ten_pow {n : Nat} (h : n ≤ 3 * 400) : (2 : ℚ) ^ n ≤ 10 ^ 400 :=
  calc
    (2 : ℚ) ^ n ≤ 2 ^ (3 * 400) := pow_le_pow_right₀ (by norm_num) h
    _ = (2 ^ 3) ^ 400 := pow_mul 2 3 400
    _ ≤ 10 ^ 400 := pow_le_pow_left₀ (by norm_num) (by norm_num) 400

theorem le_value_of_large {d : Decimal} (hd : 0 < d.digits) (h : 400 < d.exponent) :
    Binary64.value Binary64.infinity ≤ d.value := by
  have hdigits : (1 : ℚ) ≤ d.digits := by exact_mod_cast hd
  calc
    Binary64.value Binary64.infinity = 2 ^ (1024 : Nat) := Binary64.value_infinity
    _ ≤ 10 ^ (400 : Nat) := two_pow_le_ten_pow (by decide)
    _ ≤ 10 ^ d.exponent := ten_zpow_le h.le
    _ ≤ d.value := le_mul_of_one_le_left (by positivity) hdigits

theorem value_lt_of_small {d : Decimal} (h : d.exponent < -((400 + d.digits.log2 : Nat) : Int)) :
    d.value < Binary64.midpoint 0 := by
  have hdigits : (d.digits : ℚ) < 2 ^ (d.digits.log2 + 1) := by exact_mod_cast Nat.lt_log2_self
  have hpow : (10 : ℚ) ^ d.exponent ≤ 1 / 10 ^ (400 + d.digits.log2) := by
    rw [one_div, ← zpow_natCast, ← zpow_neg]
    exact ten_zpow_le h.le
  have hlog : (2 : ℚ) ^ d.digits.log2 ≤ 10 ^ d.digits.log2 := by gcongr; norm_num
  have hten : (0 : ℚ) < 10 ^ d.digits.log2 := by positivity
  calc
    d.value < 2 ^ (d.digits.log2 + 1) * 10 ^ d.exponent :=
      mul_lt_mul_of_pos_right hdigits (by positivity)
    _ ≤ 2 ^ (d.digits.log2 + 1) * (1 / 10 ^ (400 + d.digits.log2)) := by gcongr
    _ = 2 ^ d.digits.log2 / 10 ^ d.digits.log2 * (2 / 10 ^ 400) := by
      rw [pow_succ, pow_add]
      field_simp
    _ ≤ 1 * (2 / 10 ^ 400) := by
      gcongr
      exact (div_le_one hten).2 hlog
    _ ≤ 1 * (2 / 2 ^ (1075 + 1)) := by
      gcongr
      exact two_pow_le_ten_pow (by decide)
    _ = 1 / 2 ^ 1075 := by
      rw [pow_succ]
      field_simp
    _ = Binary64.midpoint 0 := by
      rw [Binary64.midpoint_zero, zpow_neg, one_div]
      rfl

/-- A decimal is read as the closest number. -/
theorem toPattern_rounds (d : Decimal) : Binary64.Rounds d.value d.toPattern := by
  unfold toPattern
  split
  next h =>
    rw [value, h, Nat.cast_zero, zero_mul]
    exact Binary64.rounds_zero
  next h =>
    split
    next hlarge => exact Binary64.rounds_infinity (le_value_of_large (Nat.pos_of_ne_zero h) hlarge)
    next =>
      split
      next hsmall => exact Binary64.rounds_zero_of_lt (value_lt_of_small hsmall)
      next =>
        have hfraction : d.value = ((d.digits * Nat.pow 10 d.exponent.toNat : Nat) : ℚ) /
            (Nat.pow 10 (-d.exponent).toNat : Nat) := by
          rw [value, Binary64.zpow_eq_div 10, mul_div_assoc']
          simp only [Nat.pow_eq, Nat.cast_mul, Nat.cast_pow, Nat.cast_ofNat]
        rw [hfraction]
        exact Binary64.nearest_rounds _ (Nat.pow_pos (by decide))

def exact (pattern : Nat) : Decimal where
  digits := Binary64.significand pattern * 2 ^ (Binary64.exponent pattern).toNat *
    5 ^ (-Binary64.exponent pattern).toNat
  exponent := -((-Binary64.exponent pattern).toNat : Int)

theorem value_exact (p : Nat) : (exact p).value = Binary64.value p := by
  have hpow (k : Nat) : (10 : ℚ) ^ k = 2 ^ k * 5 ^ k := by rw [← mul_pow]; norm_num
  rw [value, Binary64.value, Binary64.zpow_eq_div 2]
  simp only [exact, Nat.cast_mul, Nat.cast_pow, Nat.cast_ofNat, zpow_neg, zpow_natCast, hpow]
  field_simp

/-- A finite pattern is read from its decimal. -/
theorem toPattern_exact {p : Nat} (hp : p < Binary64.infinity) : (exact p).toPattern = p := by
  have hrounds : Binary64.Rounds (exact p).value p := by
    rw [value_exact]
    exact (Binary64.rounds_iff hp).2 (Binary64.within_value p)
  exact (toPattern_rounds (exact p)).unique hrounds

end TreeScript.Decimal
