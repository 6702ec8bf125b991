import TreeScript.RawText
import TreeScript.Yaml.Character
import TreeScript.Yaml.SyntaxError

/-!
# From bytes to characters

A text is spelled in UTF-8, or else says by a byte order mark that it is in UTF-16. What is spelled
ends at the first bytes that spell no character, or one that may not stand in a text.
-/

namespace TreeScript.Yaml

/-- What comes next in bytes. -/
inductive Spelled where
  | char (width : Nat) (c : Char)
  /-- Something is wrong, as the next `width` bytes tell. -/
  | flaw (width : Nat) (problem : Problem)
  /-- The bytes end before the character does. -/
  | cutShort (problem : Problem)
deriving DecidableEq, Repr

namespace Spelled

def char? : Spelled → Option Char
  | .char _ c => some c
  | _ => none

def ofValue (width value : Nat) : Spelled :=
  if 0xD800 ≤ value && value ≤ 0xDFFF || 0x10FFFF < value then .flaw width .badCharacter
  else if isPermitted (Char.ofNat value) then .char width (Char.ofNat value)
  else .flaw width .controlCharacter

end Spelled

inductive Encoding where
  | utf8
  /-- Two bytes make a unit. The lower one comes first or last. -/
  | utf16 (lowFirst : Bool)
deriving DecidableEq, Repr

namespace Encoding

/-! ## UTF-8 -/

/-- The number of bytes of a character that begins with the given byte, and what this byte adds to
the number of the character. -/
def lead (b : UInt8) : Option (Nat × Nat) :=
  let n := b.toNat
  if n < 0x80 then some (1, n)
  else if 0xC0 ≤ n && n < 0xE0 then some (2, n - 0xC0)
  else if 0xE0 ≤ n && n < 0xF0 then some (3, n - 0xE0)
  else if 0xF0 ≤ n && n < 0xF8 then some (4, n - 0xF0)
  else none

def isTrailing (b : UInt8) : Bool := 0x80 ≤ b.toNat && b.toNat < 0xC0

/-- The least number of a character that takes so many bytes. -/
def least : Nat → Nat
  | 2 => 0x80
  | 3 => 0x800
  | 4 => 0x10000
  | _ => 0

def nextUtf8 (first : UInt8) (rest : List UInt8) : Spelled :=
  match lead first with
  | none => .flaw 1 .badLeadingByte
  | some (width, bits) =>
    let trailing := rest.take (width - 1)
    if trailing.length < width - 1 then .cutShort .endOfBytes
    else if !trailing.all isTrailing then .flaw width .badTrailingByte
    else
      let value := trailing.foldl (fun value b => value * 64 + (b.toNat - 0x80)) bits
      if value < least width then .flaw width .badLength else .ofValue width value

/-! ## UTF-16 -/

def unit (lowFirst : Bool) (first second : UInt8) : Nat :=
  if lowFirst then first.toNat + second.toNat * 256 else first.toNat * 256 + second.toNat

def isHigh (value : Nat) : Bool := 0xD800 ≤ value && value < 0xDC00

def isLow (value : Nat) : Bool := 0xDC00 ≤ value && value < 0xE000

def nextUtf16 (lowFirst : Bool) (first : UInt8) (rest : List UInt8) : Spelled :=
  match rest with
  | [] => .cutShort .endOfUnit
  | second :: rest =>
    let value := unit lowFirst first second
    if isLow value then .flaw 2 .unexpectedLow
    else if isHigh value then
      match rest with
      | third :: fourth :: _ =>
        let low := unit lowFirst third fourth
        if isLow low then .ofValue 4 (0x10000 + (value - 0xD800) * 1024 + (low - 0xDC00))
        else .flaw 4 .missingLow
      | _ => .cutShort .endOfPair
    else .ofValue 2 value

/-! ## Texts -/

def next : Encoding → UInt8 → List UInt8 → Spelled
  | utf8 => nextUtf8
  | utf16 lowFirst => nextUtf16 lowFirst

/-- What bytes spell, up to the first flaw. The first `passed` bytes belong to the character
before. -/
def spell (e : Encoding) : List UInt8 → (passed : Nat) → List Spelled
  | [], _ => []
  | _ :: rest, passed + 1 => spell e rest passed
  | b :: rest, 0 =>
    match e.next b rest with
    | .char width c => .char width c :: spell e rest (width - 1)
    | other => [other]

/-- How bytes are to be read, the width of the byte order mark that tells it, and the bytes behind
the mark. -/
def detect : List UInt8 → Encoding × Nat × List UInt8
  | 0xFF :: 0xFE :: rest => (.utf16 true, 2, rest)
  | 0xFE :: 0xFF :: rest => (.utf16 false, 2, rest)
  | 0xEF :: 0xBB :: 0xBF :: rest => (.utf8, 3, rest)
  | bytes => (.utf8, 0, bytes)

end Encoding

end TreeScript.Yaml
