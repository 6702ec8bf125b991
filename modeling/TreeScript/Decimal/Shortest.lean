import TreeScript.Decimal
import TreeScript.Decimal.Binary64

/-!
# The shortest decimal that reads back

`significand * 2 ^ exponent` is the nearest binary64 number for every real in a small interval
around it. `shortest` looks for a decimal in that interval on coarser grids first: the first grid
`10 ^ k` that has a point in the interval wins, of two points the closer one, and of two equally
close ones the even one.
-/

namespace TreeScript.Decimal

namespace Shortest

/-- On the grid `10 ^ k`, one unit of `2 ^ q` measures `unit q k / scale q k` steps. -/
def unit (q k : Int) : Nat := Nat.pow 2 q.toNat * Nat.pow 10 (-k).toNat

def scale (q k : Int) : Nat := Nat.pow 2 (-q).toNat * Nat.pow 10 k.toNat

/-- Quarter units between `m * 2 ^ q` and the lower end of its interval: half a unit, but a
quarter where the next smaller number is only half a unit away. -/
def below (m : Nat) (q : Int) : Nat := if m = Binary64.hiddenBit ∧ -1074 < q then 1 else 2

/-- Whether the grid point `d * 10 ^ k` rounds to `m * 2 ^ q`. The ends of the interval round to
the even neighbour, so they belong to an even `m`. -/
def reads (m : Nat) (q k : Int) (d : Nat) : Bool :=
  let point := 4 * d * scale q k
  let low := (4 * m - below m q) * unit q k
  let high := (4 * m + 2) * unit q k
  if m % 2 = 0 then decide (low ≤ point ∧ point ≤ high) else decide (low < point ∧ point < high)

/-- The best point of the grid `10 ^ k` that rounds to `m * 2 ^ q`, if there is one. Only the two
neighbours of `m * 2 ^ q` need to be looked at. -/
def pick (m : Nat) (q k : Int) : Option Nat :=
  let n := m * unit q k
  let d := scale q k
  let c := n / d
  match reads m q k c, reads m q k (c + 1) with
  | true, true => some (Binary64.roundDiv n d)
  | true, false => some c
  | false, true => some (c + 1)
  | false, false => none

/-- Tries the grids from `10 ^ k` on, `fuel` of them, each ten times finer than the last. -/
def search (m : Nat) (q : Int) : Nat → Int → Decimal
  | 0, k => ⟨m * unit q k / scale q k, k⟩
  | fuel + 1, k =>
    match pick m q k with
    | some d => ⟨d, k⟩
    | none => search m q fuel (k - 1)

def digitCount (n : Nat) : Nat := (Nat.toDigits 10 n).length

def leading (n d : Nat) : Int :=
  if d ≤ n then (digitCount (n / d) : Int) - 1
  else
    let k := digitCount (d / n)
    if d ≤ n * Nat.pow 10 (k - 1) then 1 - (k : Int) else -(k : Int)

def trim (digits : Nat) (exponent : Int) : Decimal :=
  if digits = 0 then ⟨0, 0⟩
  else if digits % 10 = 0 then trim (digits / 10) (exponent + 1)
  else ⟨digits, exponent⟩
termination_by digits
decreasing_by omega

end Shortest

open Shortest in
/-- The shortest decimal that rounds to `m * 2 ^ q`. The search reaches a grid that holds
`m * 2 ^ q` itself, so it always ends with a decimal that reads back. -/
def shortest (m : Nat) (q : Int) : Decimal :=
  let k := leading (m * unit q 0) (scale q 0)
  let found := search m q (k - min q 0).toNat k
  trim found.digits found.exponent

/-- The shortest decimal that rounds to the number with a finite, positive bit pattern. -/
def ofPattern (pattern : Nat) : Decimal :=
  shortest (Binary64.significand pattern) (Binary64.exponent pattern)

end TreeScript.Decimal
