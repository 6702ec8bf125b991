/-!
# UTF-16 code units

A character below `0x10000` is one code unit, its code point; any other is a pair of surrogates.
-/

namespace TreeScript.Text

/-- The code units of a character. -/
def unitsOf (c : Char) : List Nat :=
  if c.toNat < 0x10000 then [c.toNat]
  else [0xD800 + (c.toNat - 0x10000) / 0x400, 0xDC00 + (c.toNat - 0x10000) % 0x400]

def units (s : String) : List Nat := s.toList.flatMap unitsOf

end TreeScript.Text
