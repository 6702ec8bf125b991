import TreeScript.Yaml.Token.Folding

/-!
# Plain scalars

Text without quotes. It ends before `: `, before ` #`, at a line with too little indentation, and
inside of a flow collection also at the signs of the collection.
-/

namespace TreeScript.Yaml.PlainScalar

/-- A plain scalar that was read: its text, where the text ends, where reading goes on, and whether
line breaks lie between the two. -/
structure Result where
  text : String
  stop : Mark
  next : Cursor
  passedBreak : Bool

def endsAt (inFlow : Bool) : List Char → Bool
  | [] => true
  | ':' :: rest => atGap rest
  | c :: _ => inFlow && [',', '?', '[', ']', '\x7b', '\x7d'].contains c

/-- Whether a place is to the left of the indentation that a line in a block needs. -/
def isDedented (inFlow : Bool) (indent : Int) (m : Mark) : Bool :=
  !inFlow && decide ((m.column : Int) < indent)

/-- Reads on. `text` is what was read, last character first, `stop` its end, and `gap` what has
come since. -/
def collect (inFlow : Bool) (indent : Int) :
    List Char → Place → List Char → Mark → Separation → Except SyntaxError Result
  | [], p, text, stop, gap => do
    let p ← if gap.isEmpty || isDedented inFlow indent p.mark then pure p else p.need [] 4
    return ⟨String.ofList text.reverse, stop, ⟨[], p⟩, gap.hasBreak⟩
  | '\r' :: '\n' :: rest, p, text, stop, gap => do
    let p ← p.crossBreak ('\r' :: '\n' :: rest) 2
    collect inFlow indent rest p text stop (gap.addBreak '\n')
  | c :: rest, p, text, stop, gap => do
    if isBreak c then
      let p ← p.crossBreak (c :: rest) 1
      collect inFlow indent rest p text stop (gap.addBreak c)
    else if isBlank c then
      if c == '\t' && gap.hasBreak && decide ((p.mark.column : Int) < indent) then
        p.mark.error .tabInIndentation
      else
        let p ← p.cross c rest 1
        collect inFlow indent rest p text stop (gap.addBlank c)
    else
      let done (p : Place) : Result :=
        ⟨String.ofList text.reverse, stop, ⟨c :: rest, p⟩, gap.hasBreak⟩
      if !gap.isEmpty && isDedented inFlow indent p.mark then return done p
      let p ← if gap.isEmpty then pure p else p.need (c :: rest) 4
      if (!gap.isEmpty && (c == '#' || (p.mark.column == 0 && atDocumentIndicator (c :: rest)))) ||
          endsAt inFlow (c :: rest) then return done p
      let next := p.pass c
      let p ← next.need rest 2
      collect inFlow indent rest p (c :: (gap.folded ++ text)) next.mark .none

/-- Reads the plain scalar at a cursor. Its lines have to be indented by `indent`. -/
def read (inFlow : Bool) (indent : Int) (c : Cursor) : Except SyntaxError Result := do
  let c ← c.need 4
  collect inFlow indent c.rest c.place [] c.mark .none

end TreeScript.Yaml.PlainScalar
