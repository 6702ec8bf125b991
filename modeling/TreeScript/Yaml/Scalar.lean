import TreeScript.Number
import TreeScript.Yaml.Timestamp

/-!
# What scalars mean

A plain scalar without a tag is null, a truth value, an integer, a number, a point in time or a
text, by its spelling alone. A tag asks for one of them, and a scalar that is spelled like another
one is then refused. Tags are written in their short form.
-/

namespace TreeScript.Yaml

inductive Scalar where
  | null
  | bool (b : Bool)
  | int (i : Int)
  | float (x : Double)
  | timestamp
  | text
deriving DecidableEq

namespace Scalar

def tag : Scalar → String
  | null => "!!null"
  | bool _ => "!!bool"
  | int _ => "!!int"
  | float _ => "!!float"
  | timestamp => "!!timestamp"
  | text => "!!str"

def maxInt : Int := 0x7FFFFFFFFFFFFFFF

def minInt : Int := -0x8000000000000000

/-- The value of an unsigned integer: in base 16, 8 or 2 behind `0x`, `0o` or `0b`, in base 8 behind
a zero, and in base 10 otherwise. -/
def magnitude? : List Char → Option Nat
  | [] => none
  | '0' :: p :: d :: rest =>
    if p == 'x' || p == 'X' then Decimal.valueOf? 16 (d :: rest)
    else if p == 'o' || p == 'O' then Decimal.valueOf? 8 (d :: rest)
    else if p == 'b' || p == 'B' then Decimal.valueOf? 2 (d :: rest)
    else Decimal.valueOf? 8 (p :: d :: rest)
  | '0' :: rest => Decimal.valueOf? 8 rest
  | cs => Decimal.valueOf? 10 cs

def splitSign : List Char → Bool × List Char
  | '-' :: rest => (true, rest)
  | '+' :: rest => (false, rest)
  | cs => (false, cs)

def signed? (negative : Bool) (n : Nat) : Option Int :=
  let i : Int := if negative then -(n : Int) else n
  if minInt ≤ i ∧ i ≤ maxInt then some i else none

def signedIn? (base : Nat) (cs : List Char) : Option Int :=
  match splitSign cs with
  | (_, []) => none
  | (negative, digits) => (Decimal.valueOf? base digits).bind (signed? negative)

/-- The value of an integer without underscores. Without a sign it may be twice as large. -/
def int? (cs : List Char) : Option Int :=
  let (negative, digits) := splitSign cs
  match (magnitude? digits).bind (signed? negative) with
  | some i => some i
  | none =>
    match magnitude? cs with
    | some n => if n < 0x10000000000000000 then some (n : Int) else none
    | none => none

def innerSigned? : List Char → Option Int
  | '0' :: 'b' :: rest => signedIn? 2 rest
  | '0' :: 'o' :: rest => signedIn? 8 rest
  | _ => none

/-- The decimal that an unsigned numeral with an optional point and exponent stands for, where
`power?` reads the digits of the exponent. -/
def decimalBy? (power? : List Char → Option Nat) (cs : List Char) : Option Decimal := do
  let whole := cs.takeWhile Char.isDigit
  let rest := cs.drop whole.length
  let fraction := match rest with
    | '.' :: r => r.takeWhile Char.isDigit
    | _ => []
  let rest := match rest with
    | '.' :: r => r.drop fraction.length
    | _ => rest
  if whole.isEmpty && fraction.isEmpty then none
  let exponent : Int ← match rest with
    | [] => some 0
    | e :: r =>
      if e == 'e' || e == 'E' then
        match splitSign r with
        | (_, []) => none
        | (negative, digits) =>
          (power? digits).map fun n => if negative then -(n : Int) else n
      else none
  let digits ← Decimal.valueOf? 10 (whole ++ fraction)
  return ⟨digits, exponent - fraction.length⟩

def decimal? (cs : List Char) : Option Decimal := decimalBy? (Decimal.valueOf? 10) cs

/-- The exponent as far as it is read: no digits are added to one of ten thousand or more. -/
def power? (cs : List Char) : Option Nat :=
  cs.foldl
    (fun acc c => acc.bind fun n => (Decimal.digitValue? c).bind fun d =>
      if d < 10 then some (if n < 10000 then n * 10 + d else n) else none)
    (some 0)

/-- The number closest to a decimal numeral; none if it is too large for a number. -/
def float? (cs : List Char) : Option Double := do
  let (negative, numeral) := splitSign cs
  let d ← decimalBy? power? numeral
  let pattern := d.toPattern
  if pattern = Decimal.Binary64.infinity then none
  else return Double.ofPattern negative pattern

/-- Drops the underscores of a text where each of them stands between two digits. `digit` says
whether a digit comes before the text. -/
def dropUnderscores? : Bool → List Char → Option (List Char)
  | _, [] => some []
  | digit, '_' :: c :: rest =>
    if digit && c.isDigit then (dropUnderscores? true rest).map (c :: ·) else none
  | _, c :: rest =>
    if c == '_' then none
    else (dropUnderscores? c.isDigit rest).map (c :: ·)

def infinity (negative : Bool) : Double :=
  Double.ofPattern negative Decimal.Binary64.infinity

def notNumber : Double := ⟨0x7FF8000000000001⟩

def word? (s : String) : Option Scalar :=
  if ["", "~", "null", "Null", "NULL"].contains s then some null
  else if ["true", "True", "TRUE"].contains s then some (bool true)
  else if ["false", "False", "FALSE"].contains s then some (bool false)
  else if [".nan", ".NaN", ".NAN"].contains s then some (float notNumber)
  else if [".inf", ".Inf", ".INF", "+.inf", "+.Inf", "+.INF"].contains s then
    some (float (infinity false))
  else if ["-.inf", "-.Inf", "-.INF"].contains s then some (float (infinity true))
  else none

def ofNumeral (cs : List Char) : Scalar :=
  let plain := cs.filter (· != '_')
  match int? plain with
  | some i => int i
  | none =>
    match float? plain with
    | some x => float x
    | none =>
      match innerSigned? plain with
      | some i => int i
      | none => text

/-- What a plain scalar stands for; points in time are recognised on demand. -/
def resolve (timestamps : Bool) (s : String) : Scalar :=
  match word? s with
  | some meaning => meaning
  | none =>
    match s.toList with
    | [] => null
    | c :: rest =>
      if c == '.' then
        match (dropUnderscores? false (c :: rest)).bind float? with
        | some x => float x
        | none => text
      else if c.isDigit || c == '+' || c == '-' then
        if timestamps && Timestamp.isTimestamp s then timestamp else ofNumeral (c :: rest)
      else text

/-- What a scalar with a tag stands for; none if its spelling does not fit the tag. Tags that ask
for nothing that is known here leave it a text. -/
def ofTag (tag s : String) : Option Scalar :=
  if ["!!bool", "!!int", "!!float", "!!null", "!!timestamp"].contains tag then
    let meaning := resolve (tag == "!!timestamp") s
    if meaning.tag == tag then some meaning
    else
      match meaning with
      | int i => if tag == "!!float" ∧ i ≤ maxInt then some (float (Number.ofInt i)) else none
      | _ => none
  else some text

/-- The number that a scalar stands for. -/
def number? : Scalar → Option Double
  | int i => some (Number.ofInt i)
  | float x => some x
  | _ => none

def truncate (x : Double) : Int :=
  let m := x.magnitude
  let e := Decimal.Binary64.exponent m
  let n := Decimal.Binary64.significand m * Nat.pow 2 e.toNat / Nat.pow 2 (-e).toNat
  if x.isNegative then -(n : Int) else n

/-- The integer that a scalar stands for. A number counts without its fraction; null counts as
zero. Numbers that are too small, and the first one that is too large, wrap around to the smallest
integer. -/
def integer? : Scalar → Option Int
  | null => some 0
  | int i => if i ≤ maxInt then some i else none
  | float x =>
    let m := x.magnitude
    if Decimal.Binary64.infinity < m then none
    else if m = Decimal.Binary64.infinity then
      if x.isNegative then some minInt else none
    else
      let i := truncate x
      if maxInt + 1 < i then none
      else if i < minInt ∨ maxInt < i then some minInt
      else some i
  | _ => none

end Scalar

end TreeScript.Yaml
