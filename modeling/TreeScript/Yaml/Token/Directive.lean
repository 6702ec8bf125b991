import TreeScript.Yaml.Token.Property

/-!
# Directives

Lines that start with `%`: the version of the format, and shorthands for tags.
-/

namespace TreeScript.Yaml.Directive

def readNumber (c : Cursor) : Except SyntaxError (Nat × Cursor) := do
  let c ← c.need 1
  let (digits, next) ← c.takeWhile Char.isDigit
  match Decimal.valueOf? 10 digits with
  | some n =>
    if digits.isEmpty || 2 < digits.length then c.mark.error .badVersion else return (n, next)
  | none => c.mark.error .badVersion

def readVersion (c : Cursor) : Except SyntaxError (Lexeme × Cursor) := do
  let (major, c) ← readNumber (← c.dropWhile isBlank)
  match c.rest with
  | '.' :: _ =>
    let (minor, c) ← readNumber c.next
    return (.version major minor, c)
  | _ => c.mark.error .badVersion

def readShorthand (c : Cursor) : Except SyntaxError (Lexeme × Cursor) := do
  let (handle, c) ← Property.readHandle (← c.dropWhile isBlank)
  if !handle.endsWith "!" then c.mark.error .missingTagHandle
  let c ← c.need 1
  if !(c.rest.head?.any isBlank) then c.mark.error .badTagEnd
  let (uri, c) ← Property.readUri (← c.dropWhile isBlank)
  if !atGap c.rest then c.mark.error .badTagEnd
  return (.tagShorthand handle uri, c)

/-- Reads the directive at a cursor up to and including its line break. The end of the token is
the end of what the directive says. -/
def read (c : Cursor) : Except SyntaxError (Lexeme × Mark × Cursor) := do
  let (name, c) ← (← c.next.need 1).takeWhile isNameChar
  if name.isEmpty || !atGap c.rest then c.mark.error .badDirectiveName
  let (lexeme, c) ←
    if name == "YAML".toList then readVersion c
    else if name == "TAG".toList then readShorthand c
    else c.mark.error .unknownDirective
  return (lexeme, c.mark, ← (← c.need 1).endLine .badDirectiveEnd)

end TreeScript.Yaml.Directive
