import TreeScript.Yaml.Token.Scanner

/-!
# Between tokens

Blanks, line breaks and comments. A tab is no indentation: where a line may start a key, only
spaces lead to the next token.
-/

namespace TreeScript.Yaml.Scanner

def readComments (s : Scanner) (gap : Mark) : Except SyntaxError Scanner := do
  let m := s.mark
  let newLines := s.cursor.place.newLines
  let last := s.queue.fromEnd? 0
  let token := if last.any (·.lexeme == .flowEntry) then (s.queue.fromEnd? 1).or last else last
  let foot := m.line + 1 - newLines + (if newLines == 0 && 1 < m.column then 1 else 0)
  let search : CommentSearch :=
    { inFlow := s.inFlow
      indent := s.indent.toNat
      footLine := if gap.line == 0 then none else some foot
      afterValue := token.any (·.lexeme == .value)
      gap
      token := (token.map (·.start)).getD {}
      line := m.line
      column := m.column
      firstLine := decide (newLines ≤ 1) }
  let sight ← CommentSearch.look s.cursor CommentSearch.range false s.cursor.rest 0 search
  let (cursor, search) ← CommentSearch.run (s.textLength + 1) sight
  return { s with cursor, comments := s.comments ++ search.found.reverse }

/-- A comment behind a token belongs to what follows if a block sequence starts there: behind its
first `-`, the comment becomes a head. -/
def promoteComment (s : Scanner) : Scanner :=
  if (s.queue.fromEnd? 1).any (·.lexeme == .blockSequenceStart) &&
      (s.queue.fromEnd? 0).any (·.lexeme == .blockEntry) &&
      !(s.cursor.rest.head?.any isBreak) then
    match s.comments.getLast? with
    | some c =>
      if c.kind == .line then
        let token := if c.start.line + 1 == s.mark.line then s.mark else c.token
        { s with comments := s.comments.dropLast ++ [{ c with kind := .head, token }] }
      else s
    | none => s
  else s

/-- Goes to the next token, through a gap that starts at `gap`. In a block, a key may start behind a
line break. Where a byte order mark was loaded, the first character of a line is passed over. -/
def skipGap (gap : Mark) : (fuel : Nat) → Scanner → Except SyntaxError Scanner
  | 0, s => .ok s
  | fuel + 1, s => do
    let c ← s.cursor.need 1
    let c := if c.mark.column == 0 && c.place.loadedAtMark then c.next else c
    let c ← c.need 1
    let c ← c.dropWhile fun d => d == ' ' || (d == '\t' && (s.inFlow || !s.keyAllowed))
    let s := { s with cursor := c }.promoteComment
    let s ← if c.rest.head? == some '#' then s.readComments gap else pure s
    if s.cursor.rest.head?.any isBreak then
      let cursor ← s.cursor.skipBreak
      skipGap gap fuel { s with cursor, keyAllowed := s.keyAllowed || !s.inFlow }
    else return s

def findLineComment (c : Cursor) :
    (fuel : Nat) → List Char → (distance : Nat) → Except SyntaxError (Cursor × Option Nat)
  | 0, _, _ => .ok (c, none)
  | fuel + 1, ahead, distance => do
    let c ← c.need (distance + 1)
    match ahead with
    | [] => return (c, none)
    | d :: ahead =>
      if isBlank d then findLineComment c fuel ahead (distance + 1)
      else return (c, if d == '#' then some distance else none)

def readLineComment (s : Scanner) (token : Mark) : Except SyntaxError Scanner := do
  if s.cursor.place.newLines != 0 then return s
  match ← findLineComment s.cursor CommentSearch.range s.cursor.rest 0 with
  | (cursor, none) => return { s with cursor }
  | (cursor, some distance) =>
    let start := cursor.mark.advance distance
    let cursor ← CommentSearch.pass start.index cursor.rest cursor.place
    return { s with cursor, comments := s.comments ++ [{ kind := .line, token, start }] }

end TreeScript.Yaml.Scanner
