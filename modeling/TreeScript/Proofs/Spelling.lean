import TreeScript.Proofs.Rounding
import TreeScript.Yaml.Scalar

/-!
# A scalar for every number

Every number has a text that a scalar with the tag `!!float` converts to it: `.nan` and `.inf` for
the numbers that are not finite, and for the others all digits of their exact decimal with a power
of ten. Only one of the NaNs has a text, which is written for all of them. A positive integer that
fits is what a scalar with the tag `!!int` makes of its digits.
-/

namespace TreeScript

namespace Decimal

/-! ## Digit strings -/

theorem valueOf?_append_singleton (base : Nat) (cs : List Char) (c : Char) :
    valueOf? base (cs ++ [c]) = (valueOf? base cs).bind fun v => (digitValue? c).bind fun d =>
      if d < base then some (v * base + d) else none := by
  rw [valueOf?, List.foldl_append]
  rfl

theorem digitValue?_digitChar {d : Nat} (h : d < 10) : digitValue? d.digitChar = some d := by
  revert d
  decide

theorem valueOf?_digitsOf (n : Nat) : valueOf? 10 (digitsOf n) = some n := by
  induction n using Nat.strongRecOn with
  | ind n ih =>
      rw [digitsOf, Nat.toDigits_eq_if (by decide)]
      by_cases hlt : n < 10
      · rw [if_pos hlt]
        have hsingle := valueOf?_append_singleton 10 [] n.digitChar
        rw [digitValue?_digitChar hlt] at hsingle
        simpa [valueOf?, hlt] using hsingle
      · rw [if_neg hlt, valueOf?_append_singleton]
        have hdigit : n % 10 < 10 := Nat.mod_lt n (by decide)
        have hfront : valueOf? 10 (Nat.toDigits 10 (n / 10)) = some (n / 10) := ih _ (by omega)
        rw [hfront, digitValue?_digitChar hdigit]
        have hsum : n / 10 * 10 + n % 10 = n := Nat.div_add_mod' n 10
        simp only [Option.bind_some, if_pos hdigit, hsum]

theorem isDigit_of_mem_digitsOf {n : Nat} {c : Char} (h : c ∈ digitsOf n) : c.isDigit :=
  Nat.isDigit_of_mem_toDigits (by decide) (by decide) h

theorem digitsOf_ne_nil (n : Nat) : digitsOf n ≠ [] := Nat.toDigits_ne_nil

theorem head_digitsOf {n : Nat} (h : 0 < n) : (digitsOf n).head? ≠ some '0' := by
  induction n using Nat.strongRecOn with
  | ind n ih =>
      rw [digitsOf, Nat.toDigits_eq_if (by decide)]
      by_cases hlt : n < 10
      · rw [if_pos hlt, List.head?_cons]
        interval_cases n <;> decide
      · rw [if_neg hlt, List.head?_append_of_ne_nil _ Nat.toDigits_ne_nil]
        exact ih (n / 10) (by omega) (by omega)

theorem valueOf?_eq_none {base : Nat} {cs : List Char} {c : Char} (hc : c ∈ cs)
    (hvalue : ∀ d, digitValue? c = some d → base ≤ d) : valueOf? base cs = none := by
  induction cs using List.reverseRecOn with
  | nil => cases hc
  | append_singleton front last ih =>
      rw [valueOf?_append_singleton]
      rcases List.mem_append.1 hc with hfront | hlast
      · rw [ih hfront, Option.bind_none]
      · obtain rfl : c = last := by simpa using hlast
        cases hd : digitValue? c with
        | none => simp
        | some d => simp [Nat.not_lt.2 (hvalue d hd)]

def scientific (digits places : Nat) : List Char :=
  digitsOf digits ++ 'e' :: '-' :: digitsOf places

end Decimal

namespace Yaml.Scalar

open Decimal (digitsOf scientific)

theorem e_mem_scientific (digits places : Nat) : 'e' ∈ scientific digits places := by
  simp [scientific]

theorem mem_scientific {digits places : Nat} {c : Char} (h : c ∈ scientific digits places) :
    c.isDigit ∨ c = 'e' ∨ c = '-' := by
  rw [scientific, List.mem_append, List.mem_cons, List.mem_cons] at h
  rcases h with h | h | h | h
  · exact .inl (Decimal.isDigit_of_mem_digitsOf h)
  · exact .inr (.inl h)
  · exact .inr (.inr h)
  · exact .inl (Decimal.isDigit_of_mem_digitsOf h)

theorem power?_append_singleton (cs : List Char) (c : Char) :
    power? (cs ++ [c]) = (power? cs).bind fun n => (Decimal.digitValue? c).bind fun d =>
      if d < 10 then some (if n < 10000 then n * 10 + d else n) else none := by
  rw [power?, List.foldl_append]
  rfl

theorem power?_of_valueOf? {cs : List Char} {n : Nat} (h : Decimal.valueOf? 10 cs = some n)
    (hn : n < 100000) : power? cs = some n := by
  induction cs using List.reverseRecOn generalizing n with
  | nil => exact h
  | append_singleton front c ih =>
    rw [Decimal.valueOf?_append_singleton] at h
    obtain ⟨v, hfront, h⟩ := Option.bind_eq_some_iff.1 h
    obtain ⟨d, hd, h⟩ := Option.bind_eq_some_iff.1 h
    split at h
    next hten =>
      cases h
      have hsmall : v < 10000 := by omega
      rw [power?_append_singleton, ih hfront (by omega), Option.bind_some, hd, Option.bind_some,
        if_pos hten, if_pos hsmall]
    next => cases h

theorem power?_digitsOf {n : Nat} (hn : n < 100000) : power? (digitsOf n) = some n :=
  power?_of_valueOf? (Decimal.valueOf?_digitsOf n) hn

theorem decimalBy?_scientific (digits : Nat) {places : Nat} (hplaces : places < 100000) :
    decimalBy? power? (scientific digits places) = some ⟨digits, -(places : Int)⟩ := by
  have hdigits : ∀ c ∈ digitsOf digits, c.isDigit = true :=
    fun c hc => Decimal.isDigit_of_mem_digitsOf hc
  have hwhole : (scientific digits places).takeWhile Char.isDigit = digitsOf digits := by
    rw [scientific, List.takeWhile_append_of_pos hdigits]
    simp [Char.isDigit]
  have hrest : (scientific digits places).drop (digitsOf digits).length =
      'e' :: '-' :: digitsOf places := by
    rw [scientific, List.drop_left]
  have hexponent : splitSign ('-' :: digitsOf places) = (true, digitsOf places) := rfl
  cases hdigits : digitsOf places with
  | nil => exact absurd hdigits (Decimal.digitsOf_ne_nil places)
  | cons first others =>
      have hvalue := power?_digitsOf hplaces
      rw [hdigits] at hvalue hexponent
      have hempty : (digitsOf digits).isEmpty = false := by
        simpa using Decimal.digitsOf_ne_nil digits
      simp [decimalBy?, hwhole, hrest, hdigits, hempty, hexponent, hvalue,
        Decimal.valueOf?_digitsOf]

theorem magnitude?_eq_none {cs : List Char} (h : ∀ c ∈ cs, c.isDigit ∨ c = 'e' ∨ c = '-')
    (he : 'e' ∈ cs) : magnitude? cs = none := by
  have hvalue : Decimal.digitValue? 'e' = some 14 := by decide
  have hnone {base : Nat} {ds : List Char} (hbase : base ≤ 14) (hmem : 'e' ∈ ds) :
      Decimal.valueOf? base ds = none := by
    apply Decimal.valueOf?_eq_none hmem
    intro d hd
    rw [hvalue] at hd
    cases hd
    exact hbase
  unfold magnitude?
  split
  next => cases he
  next p d rest =>
    have hmem : 'e' ∈ p :: d :: rest := by simpa using he
    have hp : p.isDigit ∨ p = 'e' ∨ p = '-' := h p (by simp)
    have hbase : ∀ c ∈ ['x', 'X', 'o', 'O', 'b', 'B'], (p == c) = false := by
      intro c hc
      rw [beq_eq_false_iff_ne]
      rintro rfl
      fin_cases hc <;> simp [Char.isDigit] at hp
    simp only [List.forall_mem_cons] at hbase
    simp only [hbase, Bool.or_self, Bool.false_eq_true, if_false]
    exact hnone (by decide) hmem
  next rest _ =>
    have hmem : 'e' ∈ rest := by simpa using he
    exact hnone (by decide) hmem
  next => exact hnone (by decide) he

theorem splitSign_of_isDigit {c : Char} (h : c.isDigit) (rest : List Char) :
    splitSign (c :: rest) = (false, c :: rest) := by
  unfold splitSign
  split
  next heq =>
    cases heq
    cases h
  next heq =>
    cases heq
    cases h
  next => rfl

theorem exists_scientific_eq_cons (digits places : Nat) :
    ∃ c rest, scientific digits places = c :: rest ∧ c.isDigit := by
  cases hdigits : digitsOf digits with
  | nil => exact absurd hdigits (Decimal.digitsOf_ne_nil digits)
  | cons c rest =>
      refine ⟨c, rest ++ 'e' :: '-' :: digitsOf places, by rw [scientific, hdigits]; rfl, ?_⟩
      have hc : c ∈ digitsOf digits := by rw [hdigits]; exact List.mem_cons_self
      exact Decimal.isDigit_of_mem_digitsOf hc

def numeral (negative : Bool) (digits places : Nat) : List Char :=
  (if negative then ['-'] else []) ++ scientific digits places

section Numeral

variable (negative : Bool) (digits places : Nat)

theorem mem_numeral {c : Char} (h : c ∈ numeral negative digits places) :
    c.isDigit ∨ c = 'e' ∨ c = '-' := by
  rcases List.mem_append.1 h with hsign | hrest
  · cases negative with
    | true => exact .inr (.inr (by simpa using hsign))
    | false => cases hsign
  · exact mem_scientific hrest

theorem splitSign_numeral :
    splitSign (numeral negative digits places) = (negative, scientific digits places) := by
  cases negative with
  | true => rfl
  | false =>
      obtain ⟨c, rest, heq, hc⟩ := exists_scientific_eq_cons digits places
      change splitSign (scientific digits places) = _
      rw [heq]
      exact splitSign_of_isDigit hc rest

theorem int?_numeral : int? (numeral negative digits places) = none := by
  have hinner : magnitude? (scientific digits places) = none :=
    magnitude?_eq_none (fun _ hc => mem_scientific hc) (e_mem_scientific digits places)
  have houter : magnitude? (numeral negative digits places) = none :=
    magnitude?_eq_none (fun _ hc => mem_numeral negative digits places hc)
      (List.mem_append_right _ (e_mem_scientific digits places))
  simp only [int?, splitSign_numeral, hinner, houter, Option.bind_none]

theorem float?_numeral {pattern : Nat}
    (hplaces : places < 100000)
    (hpattern : Decimal.toPattern ⟨digits, -(places : Int)⟩ = pattern)
    (hfinite : pattern < Decimal.Binary64.infinity) :
    float? (numeral negative digits places) =
      some (Double.ofPattern negative pattern) := by
  have hne : pattern ≠ Decimal.Binary64.infinity := Nat.ne_of_lt hfinite
  simp [float?, splitSign_numeral, decimalBy?_scientific digits hplaces, hpattern, hne]

theorem word?_eq_none {s : String} (h : ∃ c ∈ s.toList, c.isDigit) : word? s = none := by
  have hcontains {words : List String} (hwords : ∀ w ∈ words, ∀ c ∈ w.toList, c.isDigit = false) :
      words.contains s = false := by
    rw [List.contains_eq_mem, decide_eq_false_iff_not]
    intro hmem
    obtain ⟨c, hc, hdigit⟩ := h
    rw [hwords s hmem c hc] at hdigit
    cases hdigit
  rw [word?, hcontains (by simp), hcontains (by simp), hcontains (by simp), hcontains (by simp),
    hcontains (by simp), hcontains (by simp)]
  rfl

/-- A text with a digit or a minus in front, and a digit behind, is a numeral. -/
theorem resolve_eq_ofNumeral {c : Char} {rest : List Char} (hc : c.isDigit ∨ c = '-')
    (hdigit : ∃ d ∈ c :: rest, d.isDigit) :
    resolve false (String.ofList (c :: rest)) = ofNumeral (c :: rest) := by
  have hword : word? (String.ofList (c :: rest)) = none :=
    word?_eq_none (by simpa using hdigit)
  have hpoint : (c == '.') = false := by
    rw [beq_eq_false_iff_ne]
    rintro rfl
    simp [Char.isDigit] at hc
  have hstart : (c.isDigit || c == '+' || c == '-') = true := by
    rcases hc with h | rfl
    · simp [h]
    · simp
  simp only [resolve, hword, String.toList_ofList, hpoint, hstart]
  simp

theorem resolve_numeral {pattern : Nat}
    (hplaces : places < 100000)
    (hpattern : Decimal.toPattern ⟨digits, -(places : Int)⟩ = pattern)
    (hfinite : pattern < Decimal.Binary64.infinity) :
    resolve false (String.ofList (numeral negative digits places)) =
      float (Double.ofPattern negative pattern) := by
  have hplain : (numeral negative digits places).filter (· != '_') =
      numeral negative digits places := by
    rw [List.filter_eq_self]
    intro c hc
    rw [bne_iff_ne]
    rintro rfl
    simpa [Char.isDigit] using mem_numeral negative digits places hc
  have hnumeral : ofNumeral (numeral negative digits places) =
      float (Double.ofPattern negative pattern) := by
    simp only [ofNumeral, hplain, int?_numeral, float?_numeral _ _ _ hplaces hpattern hfinite]
  obtain ⟨c, rest, heq, hc⟩ := exists_scientific_eq_cons digits places
  rw [← hnumeral]
  cases negative with
  | true =>
      change resolve false (String.ofList ('-' :: scientific digits places)) = _
      refine resolve_eq_ofNumeral (.inr rfl) ⟨c, ?_, hc⟩
      rw [heq]
      simp
  | false =>
      change resolve false (String.ofList (scientific digits places)) =
        ofNumeral (scientific digits places)
      rw [heq]
      exact resolve_eq_ofNumeral (.inl hc) ⟨c, List.mem_cons_self, hc⟩

end Numeral

/-! ## Numbers -/

/-- The number itself, unless it is a NaN, of which there is only one text. -/
def representative (x : Double) : Double := if x.isNaN then notNumber else x

theorem representative_representative (x : Double) :
    representative (representative x) = representative x := by
  by_cases hnan : x.isNaN = true
  · rw [representative, representative, if_pos hnan, ite_self]
  · rw [representative, representative, if_neg hnan, if_neg hnan]

def spelling (x : Double) : String :=
  let pattern := x.magnitude
  if Decimal.Binary64.infinity < pattern then ".nan"
  else if pattern = Decimal.Binary64.infinity then
    if x.isNegative then "-.inf" else ".inf"
  else
    let d := Decimal.exact pattern
    String.ofList (numeral x.isNegative d.digits (-d.exponent).toNat)

theorem resolve_spelling (x : Double) :
    resolve false (spelling x) = float (representative x) := by
  have hx := Double.ofPattern_magnitude x
  unfold spelling
  simp only
  split
  next hnan =>
    rw [representative, if_pos (Double.isNaN_iff.2 hnan)]
    rfl
  next hnan =>
    rw [representative, if_neg (mt Double.isNaN_iff.1 hnan)]
    split
    next hinf =>
      rw [hinf] at hx
      cases hneg : x.isNegative with
      | true =>
          rw [hneg] at hx
          rw [← hx]
          rfl
      | false =>
          rw [hneg] at hx
          rw [← hx]
          rfl
    next hinf =>
      have hfinite : x.magnitude < Decimal.Binary64.infinity := by omega
      have hexponent : -((-(Decimal.exact x.magnitude).exponent).toNat : Int) =
          (Decimal.exact x.magnitude).exponent := by
        simp only [Decimal.exact]
        omega
      have hplaces : (-(Decimal.exact x.magnitude).exponent).toNat < 100000 := by
        simp only [Decimal.exact, Decimal.Binary64.exponent]
        omega
      have hpattern := Decimal.toPattern_exact hfinite
      rw [resolve_numeral _ _ _ hplaces (hexponent.symm ▸ hpattern) hfinite, hx]

theorem ofTag_spelling (x : Double) :
    ofTag "!!float" (spelling x) = some (float (representative x)) := by
  have htimestamps : ("!!float" == "!!timestamp") = false := by decide
  simp only [ofTag, htimestamps, resolve_spelling]
  rfl

/-! ## Lines -/

theorem magnitude?_digitsOf {n : Nat} (hpos : 0 < n) : magnitude? (digitsOf n) = some n := by
  have hvalue := Decimal.valueOf?_digitsOf n
  have hhead := Decimal.head_digitsOf hpos
  unfold magnitude?
  split
  next heq => exact absurd heq (Decimal.digitsOf_ne_nil n)
  next heq => simp [heq] at hhead
  next heq => simp [heq] at hhead
  next => exact hvalue

theorem int?_digitsOf {n : Nat} (hpos : 0 < n) (hmax : (n : Int) ≤ maxInt) :
    int? (digitsOf n) = some (n : Int) := by
  have hsign : splitSign (digitsOf n) = (false, digitsOf n) := by
    cases hdigits : digitsOf n with
    | nil => exact absurd hdigits (Decimal.digitsOf_ne_nil n)
    | cons c rest =>
        have hc : c ∈ digitsOf n := by rw [hdigits]; exact List.mem_cons_self
        exact splitSign_of_isDigit (Decimal.isDigit_of_mem_digitsOf hc) rest
  have hmin : minInt ≤ (n : Int) := by
    unfold minInt
    omega
  have hsigned : signed? false n = some (n : Int) := if_pos ⟨hmin, hmax⟩
  simp only [int?, hsign, magnitude?_digitsOf hpos, Option.bind_some, hsigned]

theorem ofTag_digitsOf {n : Nat} (hpos : 0 < n) (hmax : (n : Int) ≤ maxInt) :
    ofTag "!!int" (String.ofList (digitsOf n)) = some (int n) := by
  have hplain : (digitsOf n).filter (· != '_') = digitsOf n := by
    rw [List.filter_eq_self]
    intro c hc
    rw [bne_iff_ne]
    rintro rfl
    exact absurd (Decimal.isDigit_of_mem_digitsOf hc) (by decide)
  have hnumeral : ofNumeral (digitsOf n) = int n := by
    simp only [ofNumeral, hplain, int?_digitsOf hpos hmax]
  have hresolve : resolve false (String.ofList (digitsOf n)) = int n := by
    rw [← hnumeral]
    cases hdigits : digitsOf n with
    | nil => exact absurd hdigits (Decimal.digitsOf_ne_nil n)
    | cons c rest =>
        have hc : c.isDigit :=
          Decimal.isDigit_of_mem_digitsOf (n := n) (by rw [hdigits]; exact List.mem_cons_self)
        exact resolve_eq_ofNumeral (.inl hc) ⟨c, List.mem_cons_self, hc⟩
  have htimestamps : ("!!int" == "!!timestamp") = false := by decide
  simp only [ofTag, htimestamps, hresolve]
  rfl

end Yaml.Scalar

end TreeScript
