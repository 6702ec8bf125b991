import TreeScript.Decimal.Numeral
import TreeScript.Yaml.Token

/-!
# Anchors, aliases and tags

The names behind `&` and `*`, and the tags behind `!`, with the escapes of the URIs in them.
-/

namespace TreeScript.Yaml.Property

def readAnchor (c : Cursor) : Except SyntaxError (String × Cursor) := do
  let (name, next) ← (← c.next.need 1).takeWhile isNameChar
  let ends := atGap next.rest ||
    next.rest.head?.any ['?', ':', ',', ']', '\x7d', '%', '@', Char.ofNat 0x60].contains
  if name.isEmpty || !ends then next.mark.error .badAnchorName
  return (String.ofList name, next)

def isUriChar (c : Char) : Bool :=
  isNameChar c || [';', '/', '?', ':', '@', '&', '=', '+', '$', ',', '.', '!', '~', '*', '\'', '(',
    ')', '[', ']'].contains c

def octetCount? (n : Nat) : Option Nat :=
  if n < 0x80 then some 1
  else if 0xC0 ≤ n ∧ n < 0xE0 then some 2
  else if 0xE0 ≤ n ∧ n < 0xF0 then some 3
  else if 0xF0 ≤ n ∧ n < 0xF8 then some 4
  else none

/-- The characters made of octets, both last one first. Octets that make no character are a
replacement character each. -/
def ofOctets (octets : List Nat) : List Char :=
  match String.fromUTF8? (ByteArray.mk (octets.reverse.map (·.toUInt8)).toArray) with
  | some s => s.toList.reverse
  | none => octets.map fun _ => '\uFFFD'

/-- Reads a URI. `text` is what was read, `octets` the start of an escaped character, both last
one first, and `missing` the number of octets that it lacks. -/
def collectUri :
    List Char → Place → List Char → List Nat → Nat → Except SyntaxError (List Char × Cursor)
  | [], p, text, _, missing =>
    if missing == 0 then .ok (text.reverse, ⟨[], p⟩) else p.mark.error .badTagEscape
  | '%' :: a :: b :: rest, p, text, octets, missing => do
    let p ← p.need ('%' :: a :: b :: rest) 3
    match Decimal.digitValue? a, Decimal.digitValue? b with
    | some x, some y =>
      let octet := x * 16 + y
      let more := if missing == 0 then octetCount? octet
        else if 0x80 ≤ octet ∧ octet < 0xC0 then some missing else none
      let p := ((p.pass '%').pass a).pass b
      match more with
      | none => p.mark.error .badTagEscape
      | some n =>
        if n == 1 then
          let p ← p.need rest 1
          collectUri rest p (ofOctets (octet :: octets) ++ text) [] 0
        else collectUri rest p text (octet :: octets) (n - 1)
    | _, _ => p.mark.error .badTagEscape
  | c :: rest, p, text, octets, missing => do
    if c == '%' || missing != 0 then p.mark.error .badTagEscape
    else if isUriChar c then
      let p ← p.cross c rest 1
      collectUri rest p (c :: text) octets missing
    else return (text.reverse, ⟨c :: rest, p⟩)

def readUri (c : Cursor) : Except SyntaxError (String × Cursor) := do
  let c ← c.need 1
  let (uri, next) ← collectUri c.rest c.place [] [] 0
  if uri.isEmpty then c.mark.error .missingTagUri
  return (String.ofList uri, next)

/-- Reads `!`, the word behind it and the `!` behind that, if there is one. -/
def readHandle (c : Cursor) : Except SyntaxError (String × Cursor) := do
  let c ← c.need 1
  if c.rest.head? != some '!' then c.mark.error .missingTagHandle
  let (word, next) ← (← c.next.need 1).takeWhile isNameChar
  match next.rest with
  | '!' :: _ => return (String.ofList ('!' :: (word ++ ['!'])), next.next)
  | _ => return (String.ofList ('!' :: word), next)

/-- Reads a tag: its handle, empty if the tag is complete, and the rest of it. A handle that no `!`
ends is the start of the rest. -/
def readTag (c : Cursor) : Except SyntaxError (String × String × Cursor) := do
  let (handle, suffix, next) ← readForm (← c.need 2)
  let next ← next.need 1
  if !atGap next.rest then next.mark.error .badTagEnd
  return (handle, suffix, next)
where
  readForm (c : Cursor) : Except SyntaxError (String × String × Cursor) := do
    match c.rest with
    | _ :: '<' :: _ =>
      let (uri, next) ← readUri (c.advance 2)
      match next.rest with
      | '>' :: _ => return ("", uri, next.next)
      | _ => next.mark.error .badTagEnd
    | _ =>
      let (handle, next) ← readHandle c
      if 1 < handle.length && handle.endsWith "!" then
        let (uri, next) ← readUri next
        return (handle, uri, next)
      else
        let next ← next.need 1
        let (uri, next) ← collectUri next.rest next.place [] [] 0
        let suffix := String.ofList (handle.toList.drop 1 ++ uri)
        if suffix.isEmpty then return ("", "!", next) else return ("!", suffix, next)

end TreeScript.Yaml.Property
