import Mathlib.Computability.RegularExpressions
import TreeScript.Proofs.Display

/-!
# The shape of printed numbers

A number from `0.001` on and below `10000000` is printed with a point at most, without zeros that
could be left out. Any other number but zero is printed with one digit before the point and a power
of ten. Whether a number is in the range is decided for the number itself, and the digits are those
of a decimal close to it, so it has to be shown that this decimal is on the same side of the ends of
the range.
-/

namespace TreeScript.Number

open Decimal
open RegularExpression (char)

/-! ## Patterns of numerals -/

def oneOf (cs : List Char) : RegularExpression Char := cs.foldr (fun c rest => char c + rest) 0

def optional (r : RegularExpression Char) : RegularExpression Char := 1 + r

def digit : RegularExpression Char := oneOf ['0', '1', '2', '3', '4', '5', '6', '7', '8', '9']

def nonzero : RegularExpression Char := oneOf ['1', '2', '3', '4', '5', '6', '7', '8', '9']

def whole : RegularExpression Char := nonzero * digit.star

def fraction : RegularExpression Char := digit.star * nonzero

/-- The pattern `(0|[1-9][0-9]*)(\.[0-9]*[1-9])?`. -/
def plain : RegularExpression Char := (char '0' + whole) * optional (char '.' * fraction)

def exponent : RegularExpression Char := optional (char '-') * whole

/-- The pattern `[1-9]\.([0-9]*[1-9]|0)E-?[1-9][0-9]*`. -/
def power : RegularExpression Char :=
  nonzero * (char '.' * ((fraction + char '0') * (char 'E' * exponent)))

def signed (r : RegularExpression Char) : RegularExpression Char := optional (char '-') * r

section Patterns

variable {P Q : RegularExpression Char} {c : Char} {cs ds : List Char}

theorem mem_oneOf (h : c ∈ cs) : [c] ∈ (oneOf cs).matches' := by
  induction cs with
  | nil => cases h
  | cons a cs ih =>
      rcases List.mem_cons.1 h with rfl | h
      · exact .inl rfl
      · exact .inr (ih h)

theorem mem_char (c : Char) : [c] ∈ (char c).matches' := rfl

theorem mem_append (hcs : cs ∈ P.matches') (hds : ds ∈ Q.matches') : cs ++ ds ∈ (P * Q).matches' :=
  Language.append_mem_mul hcs hds

theorem mem_cons (hc : [c] ∈ P.matches') (hds : ds ∈ Q.matches') : c :: ds ∈ (P * Q).matches' :=
  mem_append hc hds

theorem mem_left (h : cs ∈ P.matches') : cs ∈ (P + Q).matches' := .inl h

theorem mem_right (h : cs ∈ Q.matches') : cs ∈ (P + Q).matches' := .inr h

theorem nil_mem_optional (P : RegularExpression Char) : [] ∈ (optional P).matches' :=
  mem_left (Q := P) (Language.nil_mem_one)

theorem mem_optional (h : cs ∈ P.matches') : cs ∈ (optional P).matches' := mem_right h

theorem isDigit_cases (h : c.isDigit = true) :
    c ∈ ['0', '1', '2', '3', '4', '5', '6', '7', '8', '9'] := by
  obtain ⟨hlow, hhigh⟩ : 48 ≤ c.toNat ∧ c.toNat ≤ 57 := Char.isDigit_iff_toNat.1 h
  have hc : c = Char.ofNat c.toNat := (Char.ofNat_toNat c).symm
  rw [hc]
  generalize c.toNat = n at hlow hhigh
  interval_cases n <;> decide

theorem mem_digit (h : c.isDigit = true) : [c] ∈ digit.matches' := mem_oneOf (isDigit_cases h)

theorem mem_nonzero (h : c.isDigit = true) (hne : c ≠ '0') : [c] ∈ nonzero.matches' :=
  mem_oneOf ((List.mem_cons.1 (isDigit_cases h)).resolve_left hne)

theorem mem_digits (h : ∀ c ∈ cs, c.isDigit = true) : cs ∈ digit.star.matches' := by
  refine ⟨cs.map fun c => [c], (List.flatMap_singleton' cs).symm, fun word hword => ?_⟩
  obtain ⟨c, hc, rfl⟩ := List.mem_map.1 hword
  exact mem_digit (h c hc)

theorem mem_whole (hne : cs ≠ []) (h : ∀ c ∈ cs, c.isDigit = true) (hhead : cs.head? ≠ some '0') :
    cs ∈ whole.matches' := by
  cases cs with
  | nil => exact absurd rfl hne
  | cons c rest =>
      refine mem_cons (mem_nonzero (h c List.mem_cons_self) fun hc => hhead (congrArg some hc)) ?_
      exact mem_digits fun c' hc' => h c' (List.mem_cons_of_mem c hc')

theorem mem_fraction (hne : cs ≠ []) (h : ∀ c ∈ cs, c.isDigit = true)
    (hlast : cs.getLast? ≠ some '0') : cs ∈ fraction.matches' := by
  rw [← List.dropLast_append_getLast hne]
  refine mem_append (mem_digits fun c hc => h c (List.mem_of_mem_dropLast hc)) ?_
  refine mem_nonzero (h _ (List.getLast_mem hne)) fun hzero => hlast ?_
  rw [List.getLast?_eq_some_getLast hne, hzero]

end Patterns

/-! ## Digits of decimals -/

theorem getLast_digitsOf {n : Nat} (h : n % 10 ≠ 0) : (digitsOf n).getLast? ≠ some '0' := by
  have hchar : Nat.digitChar (n % 10) ≠ '0' := by
    have hlt : n % 10 < 10 := Nat.mod_lt n (by decide)
    generalize n % 10 = m at h hlt
    interval_cases m <;> first | exact absurd rfl h | decide
  rw [digitsOf, Nat.toDigits_eq_if (by decide)]
  by_cases hlt : n < 10
  · rw [if_pos hlt, ← Nat.mod_eq_of_lt hlt]
    exact fun heq => hchar (Option.some.inj heq)
  · rw [if_neg hlt, List.getLast?_concat]
    exact fun heq => hchar (Option.some.inj heq)

theorem digits_ofPattern {p : Nat} (hp : 0 < p) :
    0 < (ofPattern p).digits ∧ (ofPattern p).digits % 10 ≠ 0 := by
  obtain ⟨k, found, -, -, hfound, heq⟩ := ofPattern_spec hp
  have hwithin := ofPattern_within hp
  rw [heq] at hwithin ⊢
  exact ⟨digits_pos_of_within hp hwithin,
    (Shortest.trim_digits _ (digits_pos_of_within hp hfound.within)).2⟩

theorem whole_digitsOf {n : Nat} (h : 0 < n) : digitsOf n ∈ whole.matches' :=
  mem_whole (digitsOf_ne_nil n) (fun _ hc => isDigit_of_mem_digitsOf hc) (head_digitsOf h)

theorem exponent_toString {n : Int} (hn : n ≠ 0) :
    (toString n).toList ∈ exponent.matches' := by
  rw [toList_toString]
  refine mem_append ?_ (whole_digitsOf (Int.natAbs_pos.2 hn))
  split
  · exact mem_optional (mem_char '-')
  · exact nil_mem_optional _

/-! ## Layouts -/

section Layouts

variable {d : Decimal} (hpos : 0 < d.digits) (hlast : d.digits % 10 ≠ 0)

include hlast

theorem fraction_leading_zeros (n : Nat) : zeros n ++ digitsOf d.digits ∈ fraction.matches' := by
  have hne := digitsOf_ne_nil d.digits
  refine mem_fraction (List.append_ne_nil_of_right_ne_nil _ hne) (fun c hc => ?_) ?_
  · rcases List.mem_append.1 hc with hzero | hdigit
    · exact isDigit_of_mem_zeros hzero
    · exact isDigit_of_mem_digitsOf hdigit
  · rw [List.getLast?_append_of_ne_nil _ hne]
    exact getLast_digitsOf hlast

theorem fraction_drop {n : Nat} (hn : n < (digitsOf d.digits).length) :
    (digitsOf d.digits).drop n ∈ fraction.matches' := by
  refine mem_fraction ?_ (fun c hc => isDigit_of_mem_digitsOf (List.mem_of_mem_drop hc)) ?_
  · rw [Ne, List.drop_eq_nil_iff]
    omega
  · rw [List.getLast?_drop, if_neg (by omega)]
    exact getLast_digitsOf hlast

include hpos

omit hlast in
theorem whole_trailing_zeros (n : Nat) : digitsOf d.digits ++ zeros n ∈ whole.matches' := by
  have hne := digitsOf_ne_nil d.digits
  refine mem_whole (List.append_ne_nil_of_left_ne_nil hne _) (fun c hc => ?_) ?_
  · rcases List.mem_append.1 hc with hdigit | hzero
    · exact isDigit_of_mem_digitsOf hdigit
    · exact isDigit_of_mem_zeros hzero
  · rw [List.head?_append_of_ne_nil _ hne]
    exact head_digitsOf hpos

omit hlast in
theorem whole_take {n : Nat} (hn : 0 < n) : (digitsOf d.digits).take n ∈ whole.matches' := by
  refine mem_whole ?_ (fun c hc => isDigit_of_mem_digitsOf (List.mem_of_mem_take hc)) ?_
  · rw [Ne, List.take_eq_nil_iff, not_or]
    exact ⟨by omega, digitsOf_ne_nil d.digits⟩
  · rw [List.head?_take, if_neg (by omega)]
    exact head_digitsOf hpos

theorem plain_toPositional : d.toPositional ∈ plain.matches' := by
  unfold toPositional positional
  split
  next hsmall =>
    exact mem_cons (mem_left (mem_char '0'))
      (mem_optional (mem_cons (mem_char '.') (fraction_leading_zeros hlast _)))
  next hsmall =>
    split
    next hlarge =>
      rw [← List.append_nil (digitsOf d.digits ++ _)]
      exact mem_append (mem_right (whole_trailing_zeros hpos _)) (nil_mem_optional _)
    next hlarge =>
      exact mem_append (mem_right (whole_take hpos (by omega)))
        (mem_optional (mem_cons (mem_char '.') (fraction_drop hlast (by omega))))

theorem power_displayMantissa {n : Int} (hn : n ≠ 0) :
    displayMantissa (digitsOf d.digits) ++ 'E' :: (toString n).toList ∈ power.matches' := by
  have hexponent := mem_cons (mem_char 'E') (exponent_toString hn)
  have hdigits := forall_digitsOf d
  have hhead := head_digitsOf hpos
  have hfraction := fraction_drop (n := 1) hlast
  cases hcons : digitsOf d.digits with
  | nil => exact absurd hcons (digitsOf_ne_nil d.digits)
  | cons c rest =>
    rw [hcons] at hdigits hhead hfraction
    have hfirst : [c] ∈ nonzero.matches' :=
      mem_nonzero (hdigits c List.mem_cons_self) fun hc => hhead (congrArg some hc)
    cases rest with
    | nil =>
      exact mem_cons hfirst (mem_cons (mem_char '.')
        (mem_append (mem_right (mem_char '0')) hexponent))
    | cons c' rest =>
      have hrest : c' :: rest ∈ fraction.matches' := hfraction (by simp)
      exact mem_cons hfirst (mem_cons (mem_char '.') (mem_append (mem_left hrest) hexponent))

end Layouts

/-! ## The ends of the range -/

open Binary64 (Rounds infinity)

theorem rounds_value {p : Nat} (hp : p < infinity) : Rounds (Binary64.value p) p :=
  (Binary64.rounds_iff hp).2 (Binary64.within_value p)

theorem rounds_smallestPlain : Rounds (1 / 1000) smallestPlain := by
  have h := Binary64.nearest_rounds 1 (d := 1000) (by decide)
  rwa [Nat.cast_one, Nat.cast_ofNat] at h

theorem rounds_smallestLarge : Rounds (10 ^ 7) smallestLarge := by
  have h := Binary64.nearest_rounds 10000000 (d := 1) (by decide)
  rwa [Nat.cast_one, div_one] at h

theorem le_value_smallestPlain : 1 / 1000 ≤ Binary64.value smallestPlain := by
  have h : smallestPlain = 4562254508917369340 := by decide +kernel
  rw [h, Binary64.value]
  norm_num [Binary64.significand, Binary64.exponent, Binary64.hiddenBit]

theorem value_smallestLarge : Binary64.value smallestLarge = 10 ^ 7 := by
  have h : smallestLarge = 4711630319722168320 := by decide +kernel
  rw [h, Binary64.value]
  norm_num [Binary64.significand, Binary64.exponent, Binary64.hiddenBit]

section Range

variable {p : Nat} (hp : p < infinity)

theorem value_eq_zero_iff : Binary64.value p = 0 ↔ p = 0 := by
  rw [← Binary64.value_zero, Binary64.value_strictMono.injective.eq_iff]

theorem lt_smallestLarge_iff : p < smallestLarge ↔ Binary64.value p < 10 ^ 7 := by
  rw [← value_smallestLarge, Binary64.value_strictMono.lt_iff_lt]

include hp

theorem smallestPlain_le_iff : smallestPlain ≤ p ↔ 1 / 1000 ≤ Binary64.value p := by
  constructor
  · exact fun h => le_value_smallestPlain.trans (Binary64.value_strictMono.monotone h)
  · exact fun h => rounds_smallestPlain.mono (rounds_value hp) h

theorem isPlain_iff :
    isPlain p = true ↔
      Binary64.value p = 0 ∨ 1 / 1000 ≤ Binary64.value p ∧ Binary64.value p < 10 ^ 7 := by
  rw [isPlain, Bool.or_eq_true, Bool.and_eq_true, beq_iff_eq, decide_eq_true_iff,
    decide_eq_true_iff, smallestPlain_le_iff hp, lt_smallestLarge_iff, value_eq_zero_iff]

variable (hpos : 0 < p)

include hpos

theorem ofPattern_lt (h : Binary64.value p < 1 / 1000) : (ofPattern p).value < 1 / 1000 := by
  by_contra hge
  have hle := rounds_smallestPlain.mono (isShortest_ofPattern hpos hp).rounds (not_lt.1 hge)
  exact absurd ((smallestPlain_le_iff hp).1 hle) (not_le.2 h)

theorem le_ofPattern (h : 10 ^ 7 ≤ Binary64.value p) : 10 ^ 7 ≤ (ofPattern p).value := by
  have hlarge : smallestLarge ≤ p := by
    rw [← not_lt, lt_smallestLarge_iff]
    exact not_lt.2 h
  rcases hlarge.eq_or_lt with rfl | hlt
  · have hdecimal : ofPattern smallestLarge = ⟨1, 7⟩ := by decide +kernel
    rw [hdecimal, value]
    norm_num
  · by_contra hsmall
    have hle := (isShortest_ofPattern hpos hp).rounds.mono rounds_smallestLarge (not_le.1 hsmall).le
    omega

end Range

/-! ## Printed numbers -/

theorem mem_signed (x : Double) {cs : List Char} {r : RegularExpression Char}
    (h : cs ∈ r.matches') : sign x ++ cs ∈ (signed r).matches' := by
  refine mem_append ?_ h
  unfold sign
  split
  · exact mem_optional (mem_char '-')
  · exact nil_mem_optional _

theorem not_mem_front (x : Double) {ds : List Char} (hds : ∀ c ∈ ds, c.isDigit = true) :
    'E' ∉ sign x ++ displayMantissa ds := by
  have hdigits : 'E' ∉ ds := fun h => absurd (hds _ h) (by decide)
  have hsign : 'E' ∉ sign x := by
    unfold sign
    split <;> decide
  have hmantissa : 'E' ∉ displayMantissa ds := by
    match ds with
    | [] => decide
    | [d] => simpa [displayMantissa] using hdigits
    | d :: d' :: rest => simpa [displayMantissa, mantissa] using hdigits
  rw [List.mem_append, not_or]
  exact ⟨hsign, hmantissa⟩

theorem head_display {x : Double} (hfinite : x.magnitude < infinity) :
    (display x).toList.head? = some '-' ↔ x.isNegative = true := by
  obtain ⟨-, ⟨⟨c, rest, hcons, hc⟩, -⟩, -⟩ := exists_spells_displayMagnitude hfinite
  rw [display_of_finite hfinite, String.toList_ofList, hcons, sign]
  split
  next hnegative => exact iff_of_true rfl hnegative
  next hnegative =>
    refine iff_of_false (fun h => ?_) hnegative
    rw [Option.some.inj h] at hc
    exact absurd hc (by decide)

/-- The exponent that is printed with a number beyond an end of the range is beyond that end too. -/
theorem power_beyond {p : Nat} (hpos : 0 < p) (hp : p < infinity) (h : ¬ isPlain p = true) :
    10 ^ 7 ≤ Binary64.value p ∧ 7 ≤ (ofPattern p).point - 1 ∨
      Binary64.value p < 1 / 1000 ∧ (ofPattern p).point - 1 ≤ -4 := by
  have hten : (1 : ℚ) < 10 := by norm_num
  rw [isPlain_iff hp, value_eq_zero_iff] at h
  rcases lt_or_ge (Binary64.value p) (1 / 1000) with hsmall | hge
  · have hlt := (ten_zpow_le_value (digits_ofPattern hpos).1).trans_lt (ofPattern_lt hp hpos hsmall)
    have hend : (1 / 1000 : ℚ) = 10 ^ (-3 : Int) := by norm_num
    rw [hend, zpow_lt_zpow_iff_right₀ hten] at hlt
    exact .inr ⟨hsmall, by omega⟩
  · have hlarge : 10 ^ 7 ≤ Binary64.value p := not_lt.1 fun hlt => h (.inr ⟨hge, hlt⟩)
    have hlt := (le_ofPattern hp hpos hlarge).trans_lt (value_lt_ten_zpow _)
    rw [← zpow_natCast, zpow_lt_zpow_iff_right₀ hten] at hlt
    exact .inl ⟨hlarge, by omega⟩

/-- The shape of the printed form of a finite number. Zero and magnitudes from `0.001` on and below
`10000000` have no power of ten, and no zeros that could be left out. The others have one that is at
least `7` or at most `-4`. There is a minus if and only if the sign bit is set. -/
theorem display_shape {x : Double} (hfinite : x.magnitude < infinity) :
    let v := Binary64.value x.magnitude
    let text := (Value.number x).display.toList
    (v = 0 ∨ 1 / 1000 ≤ v ∧ v < 10 ^ 7 → text ∈ (signed plain).matches') ∧
      (¬ (v = 0 ∨ 1 / 1000 ≤ v ∧ v < 10 ^ 7) →
        text ∈ (signed power).matches' ∧
          ∃ front n, text = front ++ 'E' :: (toString n).toList ∧ 'E' ∉ front ∧
            (10 ^ 7 ≤ v ∧ 7 ≤ n ∨ v < 1 / 1000 ∧ n ≤ -4)) ∧
      (text.head? = some '-' ↔ x.isNegative = true) := by
  intro v text
  have htext : text = sign x ++ displayMagnitude x.magnitude := by
    change (display x).toList = _
    rw [display_of_finite hfinite, String.toList_ofList]
  refine ⟨fun hrange => ?_, fun hrange => ?_, head_display hfinite⟩
  · rw [htext]
    refine mem_signed x ?_
    unfold displayMagnitude
    rw [if_pos ((isPlain_iff hfinite).2 hrange)]
    split
    next => exact mem_append (mem_left (mem_char '0')) (nil_mem_optional _)
    next hne =>
      obtain ⟨hpos, hlast⟩ := digits_ofPattern (Nat.pos_of_ne_zero hne)
      exact plain_toPositional hpos hlast
  · have hplain : ¬ isPlain x.magnitude = true := mt (isPlain_iff hfinite).1 hrange
    have hne : x.magnitude ≠ 0 := fun hzero => hrange (.inl (value_eq_zero_iff.2 hzero))
    obtain ⟨hpos, hlast⟩ := digits_ofPattern (Nat.pos_of_ne_zero hne)
    have hbeyond := power_beyond (Nat.pos_of_ne_zero hne) hfinite hplain
    have hnonzero : (ofPattern x.magnitude).point - 1 ≠ 0 := by
      omega
    unfold displayMagnitude at htext
    rw [if_neg hplain] at htext
    rw [htext]
    refine ⟨mem_signed x (power_displayMantissa hpos hlast hnonzero), _, _,
      (List.append_assoc _ _ _).symm, not_mem_front x (forall_digitsOf _), hbeyond⟩

/-- The number next to `-0.001`, on the side of zero. -/
theorem display_shape_above_thousandth :
    let x : Double := ⟨0xBF50624DD2F1A9FB⟩
    let v := Binary64.value x.magnitude
    let text := (Value.number x).display.toList
    x.magnitude < infinity ∧ ¬ (v = 0 ∨ 1 / 1000 ≤ v ∧ v < 10 ^ 7) ∧
      (Value.number x).display = "-9.999999999999998E-4" ∧ text ∈ (signed power).matches' ∧
      text.head? = some '-' := by
  intro x v text
  have hfinite : x.magnitude < infinity := by decide
  have hmagnitude : x.magnitude = 4562254508917369339 := by decide
  have hv : 0 < v ∧ v < 1 / 1000 := by
    change 0 < Binary64.value x.magnitude ∧
      Binary64.value x.magnitude < 1 / 1000
    rw [hmagnitude, Binary64.value]
    norm_num [Binary64.significand, Binary64.exponent, Binary64.hiddenBit]
  have hrange : ¬ (v = 0 ∨ 1 / 1000 ≤ v ∧ v < 10 ^ 7) := by
    rintro (hzero | ⟨hge, -⟩)
    · exact hv.1.ne' hzero
    · exact absurd hge (not_le.2 hv.2)
  obtain ⟨-, hpower, hsign⟩ := display_shape hfinite
  exact ⟨hfinite, hrange, by decide +kernel, (hpower hrange).1, hsign.2 (by decide)⟩

end TreeScript.Number
