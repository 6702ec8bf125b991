import TreeScript.Text.Printable

/-!
# Quoted text

Text between double quotes. A quote and a backslash are written behind a backslash, printable
characters as they are, and every other character as an escape: one of the short ones, two hex
digits for the rest of the control characters, or four or eight hex digits.
-/

namespace TreeScript.Text

def hexDigit (n : Nat) : Char := Nat.digitChar n

def hex (n : Nat) : Nat → List Char
  | 0 => []
  | width + 1 => hex (n / 16) width ++ [hexDigit (n % 16)]

def escape (c : Char) : List Char :=
  match c.toNat with
  | 0x07 => ['\\', 'a']
  | 0x08 => ['\\', 'b']
  | 0x0C => ['\\', 'f']
  | 0x0A => ['\\', 'n']
  | 0x0D => ['\\', 'r']
  | 0x09 => ['\\', 't']
  | 0x0B => ['\\', 'v']
  | n =>
    if n < 0x20 ∨ n = 0x7F then '\\' :: 'x' :: hex n 2
    else if n < 0x10000 then '\\' :: 'u' :: hex n 4
    else '\\' :: 'U' :: hex n 8

def quotedChar (c : Char) : List Char :=
  if c = '"' ∨ c = '\\' then ['\\', c]
  else if isPrintable c then [c]
  else escape c

def quoted (s : String) : String :=
  String.ofList ('"' :: (s.toList.flatMap quotedChar ++ ['"']))

end TreeScript.Text
