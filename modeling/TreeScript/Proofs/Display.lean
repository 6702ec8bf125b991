import TreeScript.Proofs.Shortest
import TreeScript.Proofs.Spelling
import TreeScript.Value

/-!
# The printed form of numbers

The printed form of a finite number is a sign and a decimal numeral. The numeral reads as the number
and no other, with as few digits as such a numeral can have. So the printed forms of two numbers are
the same text only if the numbers are the same: the words for the other numbers are no numerals.
-/

namespace TreeScript

namespace Decimal

/-! ## Digits with zeros around them -/

theorem valueOf?_zeros_append (n : Nat) (cs : List Char) :
    valueOf? 10 (zeros n ++ cs) = valueOf? 10 cs := by
  have hzeros : valueOf? 10 (zeros n) = some 0 := by
    induction n with
    | zero => rfl
    | succ n ih =>
      rw [zeros, List.replicate_succ', valueOf?_append_singleton, ← zeros, ih]
      rfl
  unfold valueOf? at hzeros ⊢
  rw [List.foldl_append, hzeros]

theorem valueOf?_append_zeros {cs : List Char} {v : Nat} (h : valueOf? 10 cs = some v) (n : Nat) :
    valueOf? 10 (cs ++ zeros n) = some (v * 10 ^ n) := by
  induction n with
  | zero => simpa [zeros] using h
  | succ n ih =>
    rw [zeros, List.replicate_succ', ← List.append_assoc, valueOf?_append_singleton, ← zeros, ih,
      Nat.pow_succ, ← Nat.mul_assoc]
    rfl

theorem isDigit_of_mem_zeros {n : Nat} {c : Char} (h : c ∈ zeros n) : c.isDigit := by
  rw [List.eq_of_mem_replicate h]
  decide

theorem toList_toString (e : Int) :
    (toString e).toList = (if e < 0 then ['-'] else []) ++ digitsOf e.natAbs := by
  rw [Int.toString_eq_repr, Int.repr_eq_if]
  by_cases h : 0 ≤ e
  · have habs : e.toNat = e.natAbs := by omega
    rw [if_pos h, if_neg (Int.not_lt.2 h), habs, Nat.repr_eq_ofList_toDigits]
    exact String.toList_ofList
  · have habs : (-e).toNat = e.natAbs := by omega
    rw [if_neg h, if_pos (Int.not_le.1 h), habs, Nat.repr_eq_ofList_toDigits, String.toList_append]
    exact congrArg (['-'] ++ ·) String.toList_ofList

end Decimal

namespace Yaml.Scalar

open Decimal (digitsOf)

/-! ## Numerals -/

theorem takeWhile_isDigit {ds : List Char} (hds : ∀ c ∈ ds, c.isDigit = true) (rest : List Char)
    (hrest : ∀ c, rest.head? = some c → c.isDigit = false) :
    (ds ++ rest).takeWhile Char.isDigit = ds := by
  rw [List.takeWhile_append_of_pos hds]
  cases rest with
  | nil => simp
  | cons c rest => simp [hrest c rfl]

section Numerals

variable (power : List Char → Option Nat) {whole fraction : List Char} {v : Nat}

theorem decimalBy?_whole (hne : whole ≠ []) (hwhole : ∀ c ∈ whole, c.isDigit = true)
    (hv : Decimal.valueOf? 10 whole = some v) : decimalBy? power whole = some ⟨v, 0⟩ := by
  have htake : whole.takeWhile Char.isDigit = whole := by
    simpa using takeWhile_isDigit hwhole [] (by simp)
  simp [decimalBy?, htake, hne, hv]

theorem splitSign_toString (e : Int) :
    splitSign (toString e).toList = (decide (e < 0), digitsOf e.natAbs) := by
  rw [Decimal.toList_toString]
  by_cases h : e < 0
  · simp [h, splitSign]
  · cases hdigits : digitsOf e.natAbs with
    | nil => exact absurd hdigits (Decimal.digitsOf_ne_nil _)
    | cons c rest =>
      have hc : c ∈ digitsOf e.natAbs := by rw [hdigits]; exact List.mem_cons_self
      simpa [h] using splitSign_of_isDigit (Decimal.isDigit_of_mem_digitsOf hc) rest

theorem decimalBy?_pointed (hne : whole ≠ []) (hwhole : ∀ c ∈ whole, c.isDigit = true)
    (hfraction : ∀ c ∈ fraction, c.isDigit = true)
    (hv : Decimal.valueOf? 10 (whole ++ fraction) = some v) :
    decimalBy? power (whole ++ '.' :: fraction) = some ⟨v, -(fraction.length : Int)⟩ := by
  have htake : (whole ++ '.' :: fraction).takeWhile Char.isDigit = whole :=
    takeWhile_isDigit hwhole _ (by simp)
  have htake' : fraction.takeWhile Char.isDigit = fraction := by
    simpa using takeWhile_isDigit hfraction [] (by simp)
  simp [decimalBy?, htake, htake', hne, hv]

theorem decimalBy?_exponent (hne : whole ≠ []) (hwhole : ∀ c ∈ whole, c.isDigit = true)
    (hfraction : ∀ c ∈ fraction, c.isDigit = true)
    (hv : Decimal.valueOf? 10 (whole ++ fraction) = some v) {e : Int}
    (hvalue : power (digitsOf e.natAbs) = some e.natAbs) :
    decimalBy? power (whole ++ '.' :: (fraction ++ 'E' :: (toString e).toList)) =
      some ⟨v, e - fraction.length⟩ := by
  have hsign := splitSign_toString e
  generalize (toString e).toList = exponent at hsign ⊢
  have htake : (whole ++ '.' :: (fraction ++ 'E' :: exponent)).takeWhile Char.isDigit = whole :=
    takeWhile_isDigit hwhole _ (by simp)
  have htake' : (fraction ++ 'E' :: exponent).takeWhile Char.isDigit = fraction :=
    takeWhile_isDigit hfraction _ (by simp)
  have habs : (if e < 0 then -(e.natAbs : Int) else e.natAbs) = e := by
    split <;> omega
  generalize e.natAbs = n at hsign hvalue habs
  cases hdigits : digitsOf n with
  | nil => exact absurd hdigits (Decimal.digitsOf_ne_nil n)
  | cons c rest =>
    rw [hdigits] at hsign hvalue
    simp only [decimalBy?, htake, List.drop_left, htake', hv, hsign, hvalue]
    simp [habs, hne]

end Numerals

end Yaml.Scalar

namespace Number

open Decimal Yaml.Scalar

/-! ## Layouts -/

/-- A numeral without a sign that stands for the same number as a decimal, and that is read to its
end. -/
structure Spells (cs : List Char) (d : Decimal) : Prop where
  starts : ∃ c rest, cs = c :: rest ∧ c.isDigit = true
  reads : ∃ d', decimal? cs = some d' ∧ decimalBy? power? cs = some d' ∧ d'.value = d.value

theorem exists_digit_cons {ds : List Char} (hne : ds ≠ []) (hds : ∀ c ∈ ds, c.isDigit = true)
    (rest : List Char) : ∃ c rest', ds ++ rest = c :: rest' ∧ c.isDigit = true := by
  cases ds with
  | nil => exact absurd rfl hne
  | cons c ds => exact ⟨c, ds ++ rest, rfl, hds c List.mem_cons_self⟩

section Layouts

variable (d : Decimal)

theorem forall_digitsOf : ∀ c ∈ digitsOf d.digits, c.isDigit = true :=
  fun _ hc => isDigit_of_mem_digitsOf hc

theorem point_eq : d.point = (digitsOf d.digits).length + d.exponent := rfl

theorem spells_leading_zeros (h : d.point ≤ 0) :
    Spells ('0' :: '.' :: (zeros (-d.point).toNat ++ digitsOf d.digits)) d := by
  have hfraction : ∀ c ∈ zeros (-d.point).toNat ++ digitsOf d.digits, c.isDigit = true := by
    intro c hc
    rcases List.mem_append.1 hc with hzero | hdigit
    · exact isDigit_of_mem_zeros hzero
    · exact isDigit_of_mem_digitsOf hdigit
  have hv : valueOf? 10 (['0'] ++ (zeros (-d.point).toNat ++ digitsOf d.digits)) =
      some d.digits :=
    calc
      _ = valueOf? 10 (zeros (-d.point).toNat ++ digitsOf d.digits) := valueOf?_zeros_append 1 _
      _ = valueOf? 10 (digitsOf d.digits) := valueOf?_zeros_append _ _
      _ = some d.digits := valueOf?_digitsOf d.digits
  have hexp : -((zeros (-d.point).toNat ++ digitsOf d.digits).length : Int) = d.exponent := by
    have hpoint := point_eq d
    rw [List.length_append, zeros, List.length_replicate]
    omega
  refine ⟨⟨'0', _, rfl, by decide⟩, _,
    decimalBy?_pointed _ (List.cons_ne_nil '0' []) (by simp) hfraction hv,
    decimalBy?_pointed _ (List.cons_ne_nil '0' []) (by simp) hfraction hv, ?_⟩
  rw [value, hexp, value]

theorem spells_trailing_zeros (h : (digitsOf d.digits).length ≤ d.point) :
    Spells (digitsOf d.digits ++ zeros (d.point.toNat - (digitsOf d.digits).length)) d := by
  have hne := digitsOf_ne_nil d.digits
  have hwhole : ∀ c ∈ digitsOf d.digits ++ zeros (d.point.toNat - (digitsOf d.digits).length),
      c.isDigit = true := by
    intro c hc
    rcases List.mem_append.1 hc with hdigit | hzero
    · exact isDigit_of_mem_digitsOf hdigit
    · exact isDigit_of_mem_zeros hzero
  have hexp : ((d.point.toNat - (digitsOf d.digits).length : Nat) : Int) = d.exponent := by
    have hpoint := point_eq d
    omega
  have hv := valueOf?_append_zeros (valueOf?_digitsOf d.digits)
    (d.point.toNat - (digitsOf d.digits).length)
  have hnonempty := List.append_ne_nil_of_left_ne_nil hne
    (zeros (d.point.toNat - (digitsOf d.digits).length))
  refine ⟨exists_digit_cons hne (forall_digitsOf d) _, _, decimalBy?_whole _ hnonempty hwhole hv,
    decimalBy?_whole _ hnonempty hwhole hv, ?_⟩
  rw [value, value, ← hexp, zpow_natCast, zpow_zero, mul_one, Nat.cast_mul, Nat.cast_pow]
  rfl

theorem spells_inner_point (hlow : 0 < d.point) (hhigh : d.point < (digitsOf d.digits).length) :
    Spells ((digitsOf d.digits).take d.point.toNat ++
      '.' :: (digitsOf d.digits).drop d.point.toNat) d := by
  have hne : (digitsOf d.digits).take d.point.toNat ≠ [] := by
    rw [Ne, List.take_eq_nil_iff, not_or]
    exact ⟨by omega, digitsOf_ne_nil d.digits⟩
  have hwhole : ∀ c ∈ (digitsOf d.digits).take d.point.toNat, c.isDigit = true :=
    fun c hc => isDigit_of_mem_digitsOf (List.mem_of_mem_take hc)
  have hfraction : ∀ c ∈ (digitsOf d.digits).drop d.point.toNat, c.isDigit = true :=
    fun c hc => isDigit_of_mem_digitsOf (List.mem_of_mem_drop hc)
  have hv : valueOf? 10 ((digitsOf d.digits).take d.point.toNat ++
      (digitsOf d.digits).drop d.point.toNat) = some d.digits := by
    rw [List.take_append_drop]
    exact valueOf?_digitsOf d.digits
  have hexp : -(((digitsOf d.digits).drop d.point.toNat).length : Int) = d.exponent := by
    have hpoint := point_eq d
    rw [List.length_drop]
    omega
  refine ⟨exists_digit_cons hne hwhole _, _, decimalBy?_pointed _ hne hwhole hfraction hv,
    decimalBy?_pointed _ hne hwhole hfraction hv, ?_⟩
  rw [value, hexp, value]

theorem spells_toPositional : Spells d.toPositional d := by
  unfold toPositional positional
  split
  next hsmall => exact spells_leading_zeros d hsmall
  next hpos =>
    split
    next hlarge => exact spells_trailing_zeros d hlarge
    next hinner => exact spells_inner_point d (Int.not_le.1 hpos) (Int.not_le.1 hinner)

theorem spells_power (hsmall : (d.point - 1).natAbs < 100000) :
    Spells (displayMantissa (digitsOf d.digits) ++ 'E' :: (toString (d.point - 1)).toList) d := by
  have hvalue := valueOf?_digitsOf (d.point - 1).natAbs
  have hpower := power?_digitsOf hsmall
  have hdigits := forall_digitsOf d
  have hv := valueOf?_digitsOf d.digits
  have hpoint := point_eq d
  cases hcons : digitsOf d.digits with
  | nil => exact absurd hcons (digitsOf_ne_nil d.digits)
  | cons c rest =>
    rw [hcons] at hdigits hv hpoint
    have hfirst : c.isDigit = true := hdigits c List.mem_cons_self
    have hwhole : ∀ c' ∈ [c], c'.isDigit = true := by
      intro c' hc'
      rw [List.mem_singleton.1 hc']
      exact hfirst
    cases rest with
    | nil =>
      have hzero : ∀ c' ∈ zeros 1, c'.isDigit = true := fun _ hc' => isDigit_of_mem_zeros hc'
      have hv := valueOf?_append_zeros hv 1
      refine ⟨⟨c, _, rfl, hfirst⟩, _,
        decimalBy?_exponent _ (List.cons_ne_nil c []) hwhole hzero hv hvalue,
        decimalBy?_exponent _ (List.cons_ne_nil c []) hwhole hzero hv hpower, ?_⟩
      have hexp : d.exponent = d.point - 1 - ((zeros 1).length : Int) + 1 := by
        rw [List.length_singleton] at hpoint
        rw [zeros, List.length_replicate]
        omega
      rw [value, value, hexp, zpow_add_one₀ (by norm_num)]
      push_cast
      ring
    | cons c' rest =>
      have hexp : d.point - 1 - ((c' :: rest).length : Int) = d.exponent := by
        rw [List.length_cons] at hpoint
        omega
      have hrest : ∀ c₁ ∈ c' :: rest, c₁.isDigit = true :=
        fun c₁ hc₁ => hdigits c₁ (List.mem_cons_of_mem c hc₁)
      refine ⟨⟨c, _, rfl, hfirst⟩, _,
        decimalBy?_exponent _ (List.cons_ne_nil c []) hwhole hrest hv hvalue,
        decimalBy?_exponent _ (List.cons_ne_nil c []) hwhole hrest hv hpower, ?_⟩
      rw [value, hexp, value]

end Layouts

/-! ## Powers of ten -/

theorem value_lt_ten_zpow (d : Decimal) : d.value < (10 : ℚ) ^ d.point := by
  have hdigits : (d.digits : ℚ) < 10 ^ Shortest.digitCount d.digits := by
    exact_mod_cast Shortest.lt_pow_digitCount d.digits
  have hpoint : d.point = (Shortest.digitCount d.digits : Int) + d.exponent := rfl
  rw [value, hpoint, zpow_add₀ (by norm_num), zpow_natCast]
  exact mul_lt_mul_of_pos_right hdigits (Binary64.ten_zpow_pos _)

theorem ten_zpow_le_value {d : Decimal} (h : 0 < d.digits) :
    (10 : ℚ) ^ (d.point - 1) ≤ d.value := by
  have hcount := Shortest.digitCount_pos d.digits
  have hdigits : (10 : ℚ) ^ (Shortest.digitCount d.digits - 1) ≤ d.digits := by
    exact_mod_cast Shortest.pow_digitCount_le h
  have hpoint : d.point - 1 = ((Shortest.digitCount d.digits - 1 : Nat) : Int) + d.exponent := by
    have hpoint : d.point = (Shortest.digitCount d.digits : Int) + d.exponent := rfl
    omega
  rw [value, hpoint, zpow_add₀ (by norm_num), zpow_natCast]
  exact mul_le_mul_of_nonneg_right hdigits (Binary64.ten_zpow_pos _).le

theorem point_bounds {d : Decimal} {p : Nat} (hd : 0 < d.digits) (hpos : 0 < p)
    (hp : p < Binary64.infinity) (h : Binary64.Rounds d.value p) :
    -400 < d.point ∧ d.point ≤ 400 := by
  constructor
  · by_contra hsmall
    have hlt : d.value < Binary64.midpoint 0 :=
      calc
        d.value < 10 ^ d.point := value_lt_ten_zpow d
        _ ≤ 10 ^ (-(400 : Nat) : Int) := ten_zpow_le (by omega)
        _ = 1 / 10 ^ 400 := by rw [zpow_neg, one_div, zpow_natCast]
        _ ≤ 1 / 2 ^ 1075 := by
          gcongr
          exact two_pow_le_ten_pow (by decide)
        _ = Binary64.midpoint 0 := by
          rw [Binary64.midpoint_zero, zpow_neg, one_div]
          rfl
    exact hpos.ne (Binary64.rounds_zero_of_lt hlt |>.unique h)
  · by_contra hlarge
    have hle : Binary64.value Binary64.infinity ≤ d.value :=
      calc
        Binary64.value Binary64.infinity = 2 ^ (1024 : Nat) := Binary64.value_infinity
        _ ≤ 10 ^ (400 : Nat) := two_pow_le_ten_pow (by decide)
        _ ≤ 10 ^ (d.point - 1) := by
          rw [← zpow_natCast]
          exact ten_zpow_le (by omega)
        _ ≤ d.value := ten_zpow_le_value hd
    exact hp.ne (h.unique (Binary64.rounds_infinity hle))

theorem digits_ofPattern_pos {p : Nat} (hp : 0 < p) : 0 < (ofPattern p).digits :=
  digits_pos_of_within hp (ofPattern_within hp)

theorem exists_spells_displayMagnitude {p : Nat} (hp : p < Binary64.infinity) :
    ∃ d, Spells (displayMagnitude p) d ∧ IsShortest d p := by
  unfold displayMagnitude
  simp only
  split
  next =>
    split
    next hzero =>
      rw [hzero]
      exact ⟨⟨0, 0⟩, ⟨⟨'0', [], rfl, by decide⟩, ⟨0, 0⟩, rfl, rfl, rfl⟩, isShortest_zero⟩
    next hpos =>
      exact ⟨_, spells_toPositional _, isShortest_ofPattern (Nat.pos_of_ne_zero hpos) hp⟩
  next hplain =>
    have hpos : 0 < p := by
      refine Nat.pos_of_ne_zero fun hzero => hplain ?_
      rw [hzero]
      rfl
    have hshortest := isShortest_ofPattern hpos hp
    have hpoint := point_bounds (digits_ofPattern_pos hpos) hpos hp hshortest.rounds
    exact ⟨_, spells_power _ (by omega), hshortest⟩

/-! ## Texts of numbers -/

section Display

variable {x : Double}

theorem display_of_finite (h : x.magnitude < Binary64.infinity) :
    display x = String.ofList (sign x ++ displayMagnitude x.magnitude) := by
  have hnan : ¬ x.isNaN = true := by
    rw [Double.isNaN_iff]
    omega
  rw [display, if_neg hnan, if_neg h.ne]

theorem display_of_infinite (h : x.magnitude = Binary64.infinity) :
    display x = if x.isNegative then "-Infinity" else "Infinity" := by
  have hnan : ¬ x.isNaN = true := by
    rw [Double.isNaN_iff]
    omega
  rw [display, if_neg hnan, if_pos h]

theorem splitSign_display (h : x.magnitude < Binary64.infinity) :
    splitSign (display x).toList =
      (x.isNegative, displayMagnitude x.magnitude) := by
  obtain ⟨d, ⟨⟨c, rest, hcons, hc⟩, _⟩, _⟩ := exists_spells_displayMagnitude h
  rw [display_of_finite h, String.toList_ofList, hcons, sign]
  by_cases hnegative : x.isNegative
  · rw [if_pos hnegative, hnegative]
    rfl
  · rw [if_neg hnegative, List.nil_append, splitSign_of_isDigit hc]
    rw [Bool.not_eq_true] at hnegative
    rw [hnegative]

/-- The printed form reads as the number if it is finite, and the words for the others are no
numerals. -/
theorem float?_display (x : Double) :
    float? (display x).toList =
      if x.magnitude < Binary64.infinity then some x else none := by
  split
  next hfinite =>
    obtain ⟨d, ⟨_, d', -, hdecimal, hvalue⟩, hshortest⟩ := exists_spells_displayMagnitude hfinite
    have hpattern : d'.toPattern = x.magnitude :=
      (toPattern_rounds d').unique (hvalue ▸ hshortest.rounds)
    simp [float?, splitSign_display hfinite, hdecimal, hpattern, hfinite.ne,
      Double.ofPattern_magnitude]
  next hfinite =>
    by_cases hnan : x.isNaN = true
    · rw [display, if_pos hnan]
      rfl
    · have hinfinite : x.magnitude = Binary64.infinity := by
        rw [Double.isNaN_iff] at hnan
        omega
      rw [display_of_infinite hinfinite]
      split <;> rfl

theorem same_iff {x y : Double} :
    same x y = true ↔ x = y ∨ x.isNaN = true ∧ y.isNaN = true := by
  unfold same
  split
  next hnan =>
    rw [Bool.and_eq_true]
    constructor
    · exact .inr
    · rintro (rfl | h)
      · rw [Bool.or_self] at hnan
        exact ⟨hnan, hnan⟩
      · exact h
  next hnan =>
    rw [beq_iff_eq, Double.bits_inj]
    refine ⟨.inl, fun h => h.resolve_right ?_⟩
    rintro ⟨hx, -⟩
    rw [hx, Bool.true_or] at hnan
    exact hnan rfl

theorem same_refl (x : Double) : same x x = true := same_iff.2 (.inl rfl)

theorem same_of_display_eq_of_not_finite {x y : Double}
    (hx : ¬ x.magnitude < Binary64.infinity)
    (hy : ¬ y.magnitude < Binary64.infinity) (h : display x = display y) : same x y = true := by
  have hword {z : Double} (hz : ¬ z.magnitude < Binary64.infinity) :
      z.isNaN = true ∧ display z = "NaN" ∨ ∃ negative,
        z = Double.ofPattern negative Binary64.infinity ∧
          display z = if negative then "-Infinity" else "Infinity" := by
    by_cases hnan : z.isNaN = true
    · exact .inl ⟨hnan, if_pos hnan⟩
    · have hinfinite : z.magnitude = Binary64.infinity := by
        rw [Double.isNaN_iff] at hnan
        omega
      refine .inr ⟨z.isNegative, ?_, display_of_infinite hinfinite⟩
      rw [← hinfinite, Double.ofPattern_magnitude]
  rcases hword hx with ⟨hnan, htext⟩ | ⟨negative, rfl, htext⟩ <;>
    rcases hword hy with ⟨hnan', htext'⟩ | ⟨negative', rfl, htext'⟩ <;>
    rw [htext, htext'] at h
  · exact same_iff.2 (.inr ⟨hnan, hnan'⟩)
  · cases negative' <;> simp at h
  · cases negative <;> simp at h
  · cases negative <;> cases negative' <;> simp [same_refl] at h ⊢

theorem display_eq_iff {x y : Double} : display x = display y ↔ same x y = true := by
  constructor
  · intro h
    have hread := float?_display x
    rw [h, float?_display y] at hread
    by_cases hx : x.magnitude < Binary64.infinity
    · by_cases hy : y.magnitude < Binary64.infinity
      · rw [if_pos hx, if_pos hy] at hread
        exact same_iff.2 (.inl (Option.some.inj hread).symm)
      · rw [if_pos hx, if_neg hy] at hread
        cases hread
    · by_cases hy : y.magnitude < Binary64.infinity
      · rw [if_neg hx, if_pos hy] at hread
        cases hread
      · exact same_of_display_eq_of_not_finite hx hy h
  · intro h
    rcases same_iff.1 h with rfl | ⟨hx, hy⟩
    · rfl
    · rw [display, if_pos hx, display, if_pos hy]

end Display

/-- A text that is a sign and a numeral. The numeral rounds to the bits of the number and to no
others, with as few digits as possible apart from zeros around them, and the text reads as the
number. -/
def IsNumeralOf (s : String) (x : Double) : Prop :=
  ∃ negative numeral d short,
    splitSign s.toList = (negative, numeral) ∧ decimal? numeral = some d ∧
    (∀ p, Binary64.Rounds d.value p ↔
      (if negative then Binary64.signBit + p else p) = x.bits.toNat) ∧
    d.value = short.value ∧ IsShortest short x.magnitude ∧ float? s.toList = some x

theorem isNumeralOf_display {x : Double} (hfinite : x.magnitude < Binary64.infinity) :
    IsNumeralOf (display x) x := by
  obtain ⟨short, ⟨_, d, hdecimal, -, hvalue⟩, hshortest⟩ := exists_spells_displayMagnitude hfinite
  have hrounds (p : Nat) : Binary64.Rounds d.value p ↔ p = x.magnitude := by
    rw [hvalue]
    constructor
    · exact fun hp => hp.unique hshortest.rounds
    · rintro rfl
      exact hshortest.rounds
  have hbits (p : Nat) : p = x.magnitude ↔
      (if x.isNegative then Binary64.signBit + p else p) = x.bits.toNat := by
    rw [← Double.pattern_magnitude x]
    split <;> omega
  refine ⟨_, _, d, short, splitSign_display hfinite, hdecimal, fun p => ?_, hvalue, hshortest, ?_⟩
  · exact (hrounds p).trans (hbits p)
  · rw [float?_display, if_pos hfinite]

/-- The printed form of numbers is faithful: that of a finite number is a numeral of the number, and
two numbers are printed alike if and only if they are equal. -/
theorem display_faithful :
    (∀ x, x.magnitude < Binary64.infinity → IsNumeralOf (Value.number x).display x) ∧
      ∀ x y, (Value.number x).display = (Value.number y).display ↔
        (Value.number x).equals (Value.number y) = true := by
  exact ⟨fun x hfinite => isNumeralOf_display hfinite, fun x y => display_eq_iff⟩

/-- The negative number closest to zero, and the two zeros. -/
theorem display_faithful_around_zero :
    Double.magnitude ⟨0x8000000000000001⟩ < Binary64.infinity ∧
      IsNumeralOf (Value.number ⟨0x8000000000000001⟩).display ⟨0x8000000000000001⟩ ∧
      (Value.number ⟨0⟩).display ≠ (Value.number ⟨0x8000000000000000⟩).display :=
  ⟨by decide, display_faithful.1 _ (by decide), (display_faithful.2 _ _).not.2 (by decide)⟩

end Number

end TreeScript
