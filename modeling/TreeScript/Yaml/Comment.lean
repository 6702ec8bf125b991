import TreeScript.Yaml.Token

/-!
# Comments

A comment says nothing, but it shows where a block ends: comments that are indented like the block
around it belong to what follows. So the comments between two tokens are kept until the token behind
them has been handed out. A comment is a line behind a token, the head of what follows, or the foot
of what comes before.
-/

namespace TreeScript.Yaml

namespace Comment

inductive Kind where
  | line
  | head
  | foot
deriving DecidableEq, Repr

end Comment

structure Comment where
  kind : Comment.Kind
  /-- The start of the gap that the comment stands in, or the end of the comment before it. -/
  gap : Mark := {}
  /-- The start of the token with which the comment is given up. -/
  token : Mark
  /-- Where the comment starts, with a column counted from one unless it is a line. -/
  start : Mark
  /-- The index behind the comment. -/
  stop : Nat := 0
deriving DecidableEq, Repr

namespace Comment

/-- Where a block with the given indentation ends: at `m`, or at the first of the comments right
before the index `stop` that start in the column of the block. Comments come last one first. -/
def endOfBlock (indent : Int) : List Comment → (stop : Nat) → (m : Mark) → Mark
  | [], _, m => m
  | c :: earlier, stop, m =>
    if c.stop < stop then m
    else endOfBlock indent earlier c.gap.index (if c.start.column == indent + 1 then c.start else m)

/-- The comments that are left when a token has been handed out. A head is never given up to the end
of a block. -/
def dropUpTo (comments : List Comment) (t : Token) : List Comment :=
  comments.dropWhile fun c =>
    decide (c.token.index ≤ t.start.index) && !(c.kind == .head && t.lexeme == .blockEnd)

end Comment

/-- The search for the comments of a gap. Columns count from one. -/
structure CommentSearch where
  inFlow : Bool
  /-- The indentation of the innermost block. -/
  indent : Nat
  /-- The line on which a comment is still the foot of what comes before. -/
  footLine : Option Nat
  /-- Whether the gap follows a `:`. -/
  afterValue : Bool
  /-- Where the search began, or the last comment ended. -/
  gap : Mark
  /-- The token that a foot belongs to. -/
  token : Mark
  line : Nat
  column : Nat
  /-- Whether no empty line has come yet. -/
  firstLine : Bool
  /-- Whether the last line was empty. -/
  afterEmpty : Bool := false
  /-- The start of the comment that is being read. -/
  start : Option Mark := none
  /-- The comments that are complete, last one first. -/
  found : List Comment := []

namespace CommentSearch

def closeFoot (s : CommentSearch) (index : Nat) (token : Mark) (start : Mark) : CommentSearch :=
  let here : Mark := ⟨index, s.line, s.column⟩
  { s with
    found := { kind := .foot, gap := s.gap, token, start, stop := index } :: s.found
    gap := here
    token := here
    start := none }

/-- Comes to the end of a line, or of the flow collection if `closing` is set. The comments before
the first empty line, or before the end of a collection, are the foot of what comes before. -/
def endLine (s : CommentSearch) (closing : Bool) (index : Nat) : CommentSearch :=
  match s.start with
  | none => s
  | some start =>
    let dedented := decide (start.column ≤ s.indent)
    if closing || (!s.afterEmpty && s.firstLine &&
        ((s.footLine == some start.line && !s.afterValue) || dedented)) then
      s.closeFoot index (if dedented then start else s.token) start
    else s

def newLine (s : CommentSearch) : CommentSearch :=
  { s with firstLine := false, afterEmpty := true, column := 0, line := s.line + 1 }

/-- Comes to a character that is no blank. A comment at another indentation than the one before,
outside of the block, makes that one a foot. -/
def change (s : CommentSearch) (index : Nat) : CommentSearch :=
  match s.start with
  | none => s
  | some start =>
    if s.column ≤ s.indent && s.column != start.column then s.closeFoot index s.token start else s

def enter (s : CommentSearch) (index : Nat) : CommentSearch :=
  { s with start := s.start.getD ⟨index, s.line, s.column⟩, afterEmpty := false }

/-- What the search sees: another comment, or something else, and how far ahead it is. -/
structure Sight where
  cursor : Cursor
  search : CommentSearch
  distance : Nat
  isComment : Bool

/-- Looks ahead over blanks and line breaks. `ahead` is the text at the given distance, `inside`
says that this is inside of a line break of several bytes, where the search ends. `fuel` is the
number of characters that are still looked at. -/
def look (c : Cursor) : (fuel : Nat) → (inside : Bool) → (ahead : List Char) → (distance : Nat) →
    CommentSearch → Except SyntaxError Sight
  | 0, _, _, distance, s => .ok ⟨c, s, distance, false⟩
  | fuel + 1, inside, ahead, distance, s => do
    let c ← c.need (distance + 1)
    let index := c.mark.index + distance
    let s := { s with column := s.column + 1 }
    if inside then return ⟨c, s.change index, distance, false⟩
    match ahead with
    | [] => return ⟨c, s.endLine false index, distance, false⟩
    | d :: ahead =>
      if isBlank d then look c fuel false ahead (distance + 1) s
      else if s.inFlow && (d == ']' || d == '\x7d') then
        return ⟨c, s.endLine true index, distance, false⟩
      else if isBreak d then
        look c fuel (d.utf8Size != 1) ahead (distance + 1) (s.endLine false index).newLine
      else
        let s := s.change index
        if d == '#' then return ⟨c, s.enter index, distance, true⟩
        else return ⟨c, s, distance, false⟩

/-- Passes the comment that starts at an index, with the blanks and line breaks before it, up to the
end of its line. -/
def pass (start : Nat) : List Char → Place → Except SyntaxError Cursor
  | [], p => do return ⟨[], ← p.need [] 1⟩
  | '\r' :: '\n' :: rest, p => do
    let p ← p.need ('\r' :: '\n' :: rest) 1
    if start ≤ p.mark.index then return ⟨'\r' :: '\n' :: rest, p⟩
    let p ← p.need ('\r' :: '\n' :: rest) 2
    pass start rest (p.passBreak 2)
  | d :: rest, p => do
    let p ← p.need (d :: rest) 1
    if isBreak d then
      if start ≤ p.mark.index then return ⟨d :: rest, p⟩
      let p ← p.need (d :: rest) 2
      pass start rest (p.passBreak 1)
    else pass start rest (p.pass d)

def range : Nat := 512

def closeHead (s : CommentSearch) (stop : Nat) : CommentSearch :=
  match s.start with
  | none => s
  | some start =>
    { s with
      found := { kind := .head, gap := s.gap, token := start, start, stop } :: s.found
      start := none }

def run : (fuel : Nat) → Sight → Except SyntaxError (Cursor × CommentSearch)
  | 0, sight => .ok (sight.cursor, sight.search)
  | fuel + 1, sight => do
    let c := sight.cursor
    if sight.isComment then
      let c ← pass (c.mark.index + sight.distance) c.rest c.place
      let s := { sight.search with column := 0, line := c.mark.line }
      run fuel (← look c (range - 1) (c.rest.head?.any (·.utf8Size != 1)) (c.rest.drop 1) 1 s)
    else return (c, sight.search.closeHead (c.mark.index + sight.distance - 1))

end CommentSearch

end TreeScript.Yaml
