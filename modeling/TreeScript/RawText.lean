/-!
# Texts as they are stored

A file holds bytes. As a rule they spell a text in UTF-8, but nobody makes sure of it.
-/

namespace TreeScript

/-- Bytes that may spell a text. -/
structure RawText where
  bytes : List UInt8
deriving DecidableEq, Repr

def RawText.ofText (text : String) : RawText := ⟨text.toUTF8.data.toList⟩

instance : Coe String RawText := ⟨.ofText⟩

end TreeScript
