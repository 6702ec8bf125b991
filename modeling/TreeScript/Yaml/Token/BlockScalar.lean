import TreeScript.Yaml.Token

/-!
# Block scalars

Text on the lines below a `|` or a `>`, without the indentation that its lines share. Behind `|`
line breaks are kept, behind `>` the break between two lines that are not indented further is
folded. The sign `-` drops the last line break, and `+` keeps all of the breaks at the end.
-/

namespace TreeScript.Yaml.BlockScalar

inductive Chomping where
  | strip
  | clip
  | keep

structure Header where
  chomping : Chomping
  increment : Nat

def chomping? (c : Char) : Option Chomping :=
  match c with
  | '+' => some .keep
  | '-' => some .strip
  | _ => none

def readChomping (c : Cursor) : Except SyntaxError (Chomping × Cursor) := do
  match c.rest.head?.bind chomping? with
  | some chomping => return (chomping, ← c.next.need 1)
  | none => return (.clip, c)

def readIncrement (c : Cursor) : Except SyntaxError (Nat × Cursor) := do
  match c.rest with
  | [] => return (0, c)
  | d :: _ =>
    if d == '0' then c.mark.error .zeroIndentation
    else if d.isDigit then return (d.toNat - '0'.toNat, ← c.next.need 1)
    else return (0, c)

def readHeader (c : Cursor) : Except SyntaxError (Header × Cursor) := do
  if (c.rest.head?.bind chomping?).isSome then
    let (chomping, c) ← readChomping c
    let (increment, c) ← readIncrement c
    return (⟨chomping, increment⟩, c)
  else
    let (increment, c) ← readIncrement c
    if increment == 0 then return (⟨.clip, 0⟩, c)
    let (chomping, c) ← readChomping c
    return (⟨chomping, increment⟩, c)

/-- What was read of a block scalar. Texts are kept last character first. -/
structure Body where
  /-- The indentation of the lines, zero while it is not known. -/
  indent : Nat
  text : List Char := []
  /-- The break of the last line with text. -/
  lastBreak : List Char := []
  /-- The breaks of the empty lines since then. -/
  emptyLines : List Char := []
  /-- Whether the last line with text starts with a blank. -/
  leadingBlank : Bool := false
  /-- The deepest indentation before the first line with text. -/
  deepest : Nat := 0

def Body.startLine (literal : Bool) (b : Body) (c : Char) : Body :=
  let fold := !literal && !b.leadingBlank && !isBlank c && b.lastBreak == ['\n']
  let joint := if fold then (if b.emptyLines.isEmpty then [' '] else []) else b.lastBreak
  { b with
    text := c :: (b.emptyLines ++ (joint ++ b.text))
    lastBreak := []
    emptyLines := []
    leadingBlank := isBlank c }

/-- Reads lines. `inLine` says whether reading is behind the indentation of a line. -/
def collect (literal : Bool) (atLeast : Nat) :
    List Char → Place → Body → Bool → Except SyntaxError (Body × Cursor)
  | [], p, b, inLine => do
    let p ← if inLine then p.need [] 2 else pure p
    return (b, ⟨[], p⟩)
  | '\r' :: '\n' :: rest, p, b, inLine => do
    let column := p.mark.column
    let p ← p.crossBreak ('\r' :: '\n' :: rest) 2
    if inLine then collect literal atLeast rest p { b with lastBreak := ['\n'] } false
    else
      collect literal atLeast rest p
        { b with emptyLines := '\n' :: b.emptyLines, deepest := max b.deepest column } false
  | c :: rest, p, b, inLine => do
    let column := p.mark.column
    if inLine then
      if isBreak c then
        let p ← p.crossBreak (c :: rest) 1
        collect literal atLeast rest p { b with lastBreak := [breakText c] } false
      else
        let p ← p.cross c rest 1
        collect literal atLeast rest p { b with text := c :: b.text } true
    else if (b.indent == 0 || column < b.indent) && c == ' ' then
      let p ← p.cross c rest 1
      collect literal atLeast rest p b false
    else if (b.indent == 0 || column < b.indent) && c == '\t' then p.mark.error .tabInIndentation
    else if isBreak c then
      let p ← p.crossBreak (c :: rest) 1
      collect literal atLeast rest p
        { b with
          emptyLines := breakText c :: b.emptyLines
          deepest := max b.deepest column } false
    else
      let indent :=
        if b.indent == 0 then max (max (max b.deepest column) atLeast) 1 else b.indent
      let b := { b with indent }
      if column == indent then
        let p ← p.cross c rest 1
        collect literal atLeast rest p (b.startLine literal c) true
      else return (b, ⟨c :: rest, p⟩)

def Body.chomp (b : Body) : Chomping → List Char
  | .strip => b.text
  | .clip => b.lastBreak ++ b.text
  | .keep => b.emptyLines ++ (b.lastBreak ++ b.text)

/-- Reads the block scalar whose sign is at a cursor, inside of a block with the indentation
`parent`, which is `-1` outside of all blocks. -/
def read (literal : Bool) (parent : Int) (c : Cursor) : Except SyntaxError (String × Cursor) := do
  let (header, c) ← readHeader (← c.next.need 1)
  let c ← (← c.endLine .badHeaderEnd).need 1
  let indent := if header.increment == 0 then 0 else parent.toNat + header.increment
  let (body, next) ← collect literal (parent + 1).toNat c.rest c.place { indent } false
  return (String.ofList (body.chomp header.chomping).reverse, next)

end TreeScript.Yaml.BlockScalar
