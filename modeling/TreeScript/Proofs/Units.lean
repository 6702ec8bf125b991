import TreeScript.Eval
import TreeScript.Proofs.Addition

/-!
# What a text counts beside a number

Beside a number a text counts as the sum of its code units. That sum is the `total` over the
characters, whatever their order. A text of fewer than `2 ^ 37` code units is summed up exactly: no
sum on the way reaches `2 ^ 53`, so no addition rounds. A text and a number add up to the same in
either order.
-/

namespace TreeScript

namespace Text

/-- The code point of a character, or the sum of its two surrogates. -/
def weight (c : Char) : Nat :=
  if c.toNat < 0x10000 then c.toNat
  else (0xD800 + (c.toNat - 0x10000) >>> 10) + (0xDC00 + ((c.toNat - 0x10000) &&& 0x3FF))

def total (s : String) : Nat := (s.toList.map weight).sum

theorem total_append (s t : String) : total (s ++ t) = total s + total t := by
  rw [total, String.toList_append, List.map_append, List.sum_append]
  rfl

theorem total_eq_of_perm {s t : String} (h : s.toList.Perm t.toList) : total s = total t :=
  (h.map weight).sum_eq

theorem sum_unitsOf (c : Char) : (unitsOf c).sum = weight c := by
  have hmask (n : Nat) : n &&& 0x3FF = n % 0x400 := Nat.and_two_pow_sub_one_eq_mod n 10
  have hshift (n : Nat) : n >>> 10 = n / 0x400 := Nat.shiftRight_eq_div_pow n 10
  unfold unitsOf weight
  rw [hmask, hshift]
  split
  · rw [List.sum_singleton]
  · rw [List.sum_cons, List.sum_singleton]

theorem sum_units (s : String) : (units s).sum = total s := by
  rw [units, total]
  induction s.toList with
  | nil => rfl
  | cons c cs ih =>
    rw [List.flatMap_cons, List.sum_append, List.map_cons, List.sum_cons, sum_unitsOf, ih]

theorem le_of_mem_units {s : String} {u : Nat} (h : u ∈ units s) : u ≤ 0xFFFF := by
  obtain ⟨c, -, hu⟩ := List.mem_flatMap.1 h
  have hc : c.toNat < 0xD800 ∨ 0xDFFF < c.toNat ∧ c.toNat < 0x110000 := c.valid
  unfold unitsOf at hu
  split at hu
  · simp only [List.mem_singleton] at hu
    omega
  · simp only [List.mem_cons, List.not_mem_nil, or_false] at hu
    omega

theorem sum_take_units_lt {s : String} (h : (units s).length < 2 ^ 37) (n : Nat) :
    ((units s).take n).sum < 2 ^ 53 := by
  have hbound : ((units s).take n).sum ≤ ((units s).take n).length * 0xFFFF := by
    apply List.sum_le_card_nsmul
    intro u hu
    exact le_of_mem_units (List.mem_of_mem_take hu)
  have hlength : ((units s).take n).length ≤ (units s).length := List.length_take_le' n _
  have hmul := Nat.mul_le_mul_right 0xFFFF hlength
  omega

end Text

namespace Interpreter

section

variable [Machine]

theorem isWhole_unitSum {s : String} (h : (Text.units s).length < 2 ^ 37) :
    Number.IsWhole (unitSum s) (Text.total s) := by
  have hlt := Text.sum_take_units_lt h (Text.units s).length
  rw [List.take_length] at hlt
  rw [← Text.sum_units]
  exact Number.isWhole_sum hlt

def Combines (op : Token) (l r v : Value) : Prop :=
  ∀ (left right : Expr) (before between after : Interpreter), before.descend.tooDeep = false →
    eval left before.descend = (.value l, between) → eval right between = (.value r, after) →
      eval (.binary left op right) before = (.value v, after.ascend)

theorem combines_of_applyBinary {op : Token} {l r v : Value}
    (h : applyBinary op l r = Run.pure v) : Combines op l r v := by
  intro left right before between after hdepth hleft hright
  have hbody : (do
      let l ← eval left
      let r ← eval right
      applyBinary op l r : Run Value) before.descend = (.value v, after) := by
    show Run.bind (eval left) _ before.descend = _
    rw [Run.bind, hleft]
    show Run.bind (eval right) _ between = _
    rw [Run.bind, hright]
    show applyBinary op l r after = _
    rw [h, Run.pure]
  rw [eval, nested]
  simp only [hdepth, hbody]
  rfl

theorem applyBinary_plus {op : Token} (hop : op.kind = .plus) (l r : Value) :
    applyBinary op l r = add op l r := by
  unfold applyBinary
  rw [hop]

theorem combines_of_plus {op : Token} {l r v : Value} (hop : op.kind = .plus)
    (h : add op l r = Run.pure v) : Combines op l r v := by
  apply combines_of_applyBinary
  rw [applyBinary_plus hop, h]

/-- A text beside a number counts its exact total, on either side of the number. -/
theorem text_beside_number (s t : String) :
    Text.total (s ++ t) = Text.total s + Text.total t ∧
    (s.toList.Perm t.toList → Text.total s = Text.total t) ∧
    ((Text.units s).length < 2 ^ 37 →
      (∀ n, ((Text.units s).take n).sum < 2 ^ 53 ∧
        Number.IsWhole (Number.sum ((Text.units s).take n)) ((Text.units s).take n).sum) ∧
      Number.IsWhole (unitSum s) (Text.total s)) ∧
    ∀ (op : Token) (x : Double), op.kind = .plus →
      Combines op (.text s) (.number x) (.number (unitSum s + x)) ∧
      Combines op (.number x) (.text s) (.number (unitSum s + x)) := by
  refine ⟨Text.total_append s t, Text.total_eq_of_perm, ?_, ?_⟩
  · intro hlength
    refine ⟨fun n => ?_, isWhole_unitSum hlength⟩
    have hlt := Text.sum_take_units_lt hlength n
    exact ⟨hlt, Number.isWhole_sum hlt⟩
  · intro op x hop
    exact ⟨combines_of_plus hop rfl, combines_of_plus hop rfl⟩

end

/-- A character beyond `0xFFFF` counts its two surrogates. Its place in the text and the place of
the text make no difference. -/
theorem emoji_beside_half :
    let smile := Expr.literal (.ofKind .string 1) (.text "a😀")
    let half := Expr.literal (.ofKind .number 1) (.number ⟨0x3FE0000000000000⟩)
    "a😀".toList.Perm "😀a".toList ∧ Text.total "a😀" = Text.total "😀a" ∧
      Text.total ("a😀" ++ "😀a") = 224572 ∧
      (Text.units "a😀").length < 2 ^ 37 ∧ Number.IsWhole (unitSum "a😀") 112286 ∧
      evaluate (.binary smile (.ofKind .plus 1) half) new =
        (.value (.number (unitSum "a😀" + ⟨0x3FE0000000000000⟩)), new) ∧
      evaluate (.binary half (.ofKind .plus 1) smile) new =
        (.value (.number (unitSum "a😀" + ⟨0x3FE0000000000000⟩)), new) := by
  intro smile half
  obtain ⟨happend, hperm, hexact, hplus⟩ := text_beside_number "a😀" "😀a"
  obtain ⟨hleft, hright⟩ := hplus (.ofKind .plus 1) ⟨0x3FE0000000000000⟩ rfl
  have hswapped : "a😀".toList.Perm "😀a".toList := by decide
  have hlength : (Text.units "a😀").length < 2 ^ 37 := by decide
  have htotal : Text.total "a😀" = 112286 := by decide
  refine ⟨hswapped, hperm hswapped, ?_, hlength, ?_, ?_, ?_⟩
  · rw [happend, ← hperm hswapped, htotal]
  · rw [← htotal]
    exact (hexact hlength).2
  · exact hleft smile half new new.descend new.descend rfl rfl rfl
  · exact hright half smile new new.descend new.descend rfl rfl rfl

end Interpreter

end TreeScript
