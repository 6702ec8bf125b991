/-!
# Base 64

Bytes written with sixty-four digits, four digits for three bytes. The last group is filled up with
equals signs. Line breaks may stand anywhere.
-/

namespace TreeScript.Text.Base64

def digit? (c : Char) : Option Nat :=
  if 'A' ≤ c ∧ c ≤ 'Z' then some (c.toNat - 'A'.toNat)
  else if 'a' ≤ c ∧ c ≤ 'z' then some (c.toNat - 'a'.toNat + 26)
  else if '0' ≤ c ∧ c ≤ '9' then some (c.toNat - '0'.toNat + 52)
  else if c = '+' then some 62
  else if c = '/' then some 63
  else none

def bytes (n count : Nat) : List UInt8 :=
  [UInt8.ofNat (n / 65536), UInt8.ofNat (n / 256), UInt8.ofNat n].take count

def number? (digits : List Char) : Option Nat :=
  digits.foldlM (fun n c => (digit? c).map (n * 64 + ·)) 0

/-- The bytes of a text without line breaks. Bits beyond the last byte are not looked at. -/
def decodeDigits : List Char → Option (List UInt8)
  | [] => some []
  | [a, b, '=', '='] => (number? [a, b, 'A', 'A']).map (bytes · 1)
  | [a, b, c, '='] => (number? [a, b, c, 'A']).map (bytes · 2)
  | a :: b :: c :: d :: rest => do
    let n ← number? [a, b, c, d]
    return bytes n 3 ++ (← decodeDigits rest)
  | _ => none

/-- The text that bytes encode. Where they encode none, every byte beyond ASCII counts as a
replacement character. -/
def textOf (bytes : List UInt8) : String :=
  (String.fromUTF8? ⟨bytes.toArray⟩).getD
    (String.ofList (bytes.map fun b => if b < 128 then Char.ofNat b.toNat else '\uFFFD'))

def decode? (s : String) : Option String :=
  (decodeDigits (s.toList.filter fun c => c != '\n' && c != '\r')).map textOf

end TreeScript.Text.Base64
