import TreeScript.Decimal.Numeral
import TreeScript.Yaml.Token.Folding

/-!
# Quoted scalars

Text between single quotes, where a doubled quote stands for a quote, and between double quotes,
where a backslash starts an escape.
-/

namespace TreeScript.Yaml.QuotedScalar

def simpleEscape? (c : Char) : Option Char :=
  match c with
  | '0' => some (Char.ofNat 0)
  | 'a' => some (Char.ofNat 0x07)
  | 'b' => some (Char.ofNat 0x08)
  | 't' | '\t' => some '\t'
  | 'n' => some '\n'
  | 'v' => some (Char.ofNat 0x0B)
  | 'f' => some (Char.ofNat 0x0C)
  | 'r' => some '\r'
  | 'e' => some (Char.ofNat 0x1B)
  | ' ' => some ' '
  | '"' => some '"'
  | '\'' => some '\''
  | '\\' => some '\\'
  | 'N' => some nextLine
  | '_' => some (Char.ofNat 0xA0)
  | 'L' => some lineSeparator
  | 'P' => some paragraphSeparator
  | _ => none

def codeLength? (c : Char) : Option Nat :=
  match c with
  | 'x' => some 2
  | 'u' => some 4
  | 'U' => some 8
  | _ => none

/-- How far reading is: in a word, in the gap behind one, right behind an escaped line break, behind
a backslash, or in the hex digits of a code point. -/
inductive Phase where
  | word
  | gap
  | joint
  | escape
  | code (missing value : Nat)
deriving DecidableEq, Repr

def quote (single : Bool) : Char := if single then '\'' else '"'

/-- Reads up to the closing quote. `text` is what was read, last character first, and `gap` what
has come since. -/
def collect (single : Bool) :
    List Char → Place → List Char → Separation → Phase → Except SyntaxError (String × Cursor)
  | [], p, _, _, _ => p.mark.error .endOfScalar
  | '\r' :: '\n' :: rest, p, text, gap, phase => do
    if let .code _ _ := phase then p.mark.error .badHexadecimal
    let p ← p.crossBreak ('\r' :: '\n' :: rest) 2
    if phase = .escape then collect single rest p text (.breaks none []) .joint
    else collect single rest p text (gap.addBreak '\n') .gap
  | c :: rest, p, text, gap, phase => do
    match phase with
    | .code missing value =>
      match Decimal.digitValue? c with
      | none => p.mark.error .badHexadecimal
      | some d =>
        let value := value * 16 + d
        let p := p.pass c
        if 1 < missing then collect single rest p text gap (.code (missing - 1) value)
        else if (0xD800 ≤ value && value ≤ 0xDFFF) || 0x10FFFF < value then
          p.mark.error .badCodePoint
        else
          let p ← p.need rest 2
          collect single rest p (Char.ofNat value :: text) gap .word
    | .escape =>
      if isBreak c then
        let p ← p.crossBreak (c :: rest) 1
        collect single rest p text (.breaks none []) .joint
      else
        match simpleEscape? c, codeLength? c with
        | some e, _ =>
          let p ← p.cross c rest 2
          collect single rest p (e :: text) .none .word
        | none, some n =>
          let p ← p.cross c rest n
          collect single rest p text .none (.code n 0)
        | none, none => p.mark.error .badEscape
    | _ =>
      if isBreak c then
        let p ← p.crossBreak (c :: rest) 1
        collect single rest p text (gap.addBreak c) .gap
      else if isBlank c then
        let p ← p.cross c rest 1
        collect single rest p text (gap.addBlank c) .gap
      else
        let text := gap.folded ++ text
        if phase = .joint && c == quote single then
          return (String.ofList text.reverse, ⟨rest, p.pass c⟩)
        let p ← if phase = .word then pure p else p.need (c :: rest) 4
        if phase ≠ .word && p.mark.column == 0 && atDocumentIndicator (c :: rest) then
          p.mark.error .documentIndicatorInScalar
        if single && c == '\'' then
          match rest with
          | '\'' :: rest =>
            let p ← (p.pass '\'').cross '\'' rest 2
            collect single rest p ('\'' :: text) .none .word
          | _ => return (String.ofList text.reverse, ⟨rest, p.pass c⟩)
        else if !single && c == '"' then return (String.ofList text.reverse, ⟨rest, p.pass c⟩)
        else if !single && c == '\\' then collect single rest (p.pass c) text .none .escape
        else
          let p ← p.cross c rest 2
          collect single rest p (c :: text) .none .word

def read (single : Bool) (c : Cursor) : Except SyntaxError (String × Cursor) := do
  let inside ← c.next.need 4
  collect single inside.rest inside.place [] .none .word

end TreeScript.Yaml.QuotedScalar
