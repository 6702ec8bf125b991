import TreeScript.Yaml.Comment
import TreeScript.Yaml.Token.Queue

/-!
# Keys and indentation

A key needs no sign in front of it, so a token that may be one is remembered until its `:` comes or
until it is too far away: on another line, or more than 1024 characters back. When the `:` comes,
the tokens that make it a key are put in front of it. Deeper indentation opens block collections,
and less indentation closes them.
-/

namespace TreeScript.Yaml

structure PendingKey where
  /-- The number of the token. -/
  number : Nat
  mark : Mark
  /-- Whether nothing but a key can stand here. -/
  required : Bool

namespace PendingKey

def isStale (k : PendingKey) (m : Mark) : Bool :=
  decide (k.mark.line < m.line) || decide (k.mark.index + 1024 < m.index)

/-- Whether a pending key may still be one at a place. A key that is required may not be missed. -/
def isOpen (k : PendingKey) (m : Mark) : Except SyntaxError Bool :=
  if !k.isStale m then .ok true
  else if k.required then k.mark.error .missingColon
  else .ok false

end PendingKey

/-- The inside of a flow collection, or what is outside of all of them. -/
structure Level where
  /-- The number of the token that was the last pending key here, or else of the token that opened
  the collection. -/
  number : Nat := 0
  key : Option PendingKey := none

structure Scanner where
  cursor : Cursor
  queue : Queue := {}
  /-- The tokens that have been handed out, last one first. -/
  handed : List Token := []
  /-- The comments that have not been given up yet. -/
  comments : List Comment := []
  /-- The column of the innermost block collection, `-1` outside of all of them. -/
  indent : Int := -1
  /-- The columns around that one, innermost first. -/
  indents : List Int := []
  /-- How many columns there are around that one. -/
  blockDepth : Nat := 0
  /-- Whether a key may start here. -/
  keyAllowed : Bool := true
  level : Level := {}
  /-- The levels around that one, innermost first. -/
  enclosing : List Level := []
  /-- The numbers of the tokens that wait as long as there is a pending key in a level, with the
  flow depth of that level. -/
  undecided : List (Nat × Nat) := []
  /-- The number of open flow collections. -/
  flowDepth : Nat := 0
  /-- The number of characters of the text. -/
  textLength : Nat

namespace Scanner

def maxOpen : Nat := 10000

def inFlow (s : Scanner) : Bool := s.flowDepth != 0

def mark (s : Scanner) : Mark := s.cursor.mark

def push (s : Scanner) (lexeme : Lexeme) (start stop : Mark) : Scanner :=
  { s with queue := s.queue.push { lexeme, start, stop } }

def insert (s : Scanner) (n : Nat) (lexeme : Lexeme) (mark : Mark) : Scanner :=
  { s with queue := s.queue.insert n { lexeme, start := mark, stop := mark } }

/-- Adds the token that starts at the cursor and ends at another one. -/
def pushTo (s : Scanner) (lexeme : Lexeme) (next : Cursor) : Scanner :=
  { s.push lexeme s.mark next.mark with cursor := next }

def take (s : Scanner) (lexeme : Lexeme) (width : Nat) : Scanner :=
  s.pushTo lexeme (s.cursor.advance width)

def release (s : Scanner) (number : Nat) : Scanner :=
  { s with undecided := s.undecided.filter (·.1 != number) }

/-- Forgets the pending key. Its token goes on waiting. -/
def clearKey (s : Scanner) : Scanner := { s with level := { s.level with key := none } }

def dropKey (s : Scanner) : Except SyntaxError Scanner :=
  match s.level.key with
  | some k =>
    if k.required then k.mark.error .missingColon else .ok (s.clearKey.release k.number)
  | none => .ok s

def saveKey (s : Scanner) : Except SyntaxError Scanner := do
  if s.keyAllowed then
    let number := s.queue.count
    let required := !s.inFlow && s.indent == s.mark.column
    let s' ← s.dropKey
    return { s' with
      level := ⟨number, some { number, mark := s.mark, required }⟩
      undecided := (number, s.flowDepth) :: s'.undecided }
  else return s

/-- Whether the next token has to wait: the level that it belongs to has a pending key. A key that
turns out to be too far away is forgotten. -/
def holdsNext (s : Scanner) : Except SyntaxError (Bool × Scanner) := do
  match s.undecided.lookup s.queue.handed with
  | none => return (false, s)
  | some depth =>
    let outward := s.flowDepth - depth
    let levels := s.level :: s.enclosing
    match levels[outward]?.bind (·.key) with
    | none => return (false, s)
    | some k =>
      if ← k.isOpen s.mark then return (true, s)
      else if outward = 0 then return (false, s.clearKey)
      else
        let enclosing := s.enclosing.modify (outward - 1) fun level => { level with key := none }
        return (false, { s with enclosing })

/-- Opens a block collection at a column, unless one is open there. Its token gets the number
`number`, or comes last. -/
def roll (s : Scanner) (column : Nat) (number : Option Nat) (lexeme : Lexeme) (mark : Mark) :
    Except SyntaxError Scanner :=
  if !s.inFlow && decide (s.indent < column) then
    if maxOpen ≤ s.blockDepth then mark.error .tooManyLevels
    else
      let s' := { s with
        indents := s.indent :: s.indents
        indent := column
        blockDepth := s.blockDepth + 1 }
      match number with
      | some n => .ok (s'.insert n lexeme mark)
      | none => .ok (s'.push lexeme mark mark)
  else .ok s

/-- Closes the block collections to the right of a column. They end at `m`, or before it at
comments. -/
def unroll (column : Int) (m : Mark) (s : Scanner) : List Int → Scanner
  | [] => s
  | outer :: rest =>
    if column < s.indent then
      let m := Comment.endOfBlock s.indent s.comments.reverse m.index m
      unroll column m
        { s.push .blockEnd m m with
          indent := outer
          indents := rest
          blockDepth := s.blockDepth - 1 } rest
    else s

/-- Closes the block collections to the right of a column, after a gap that starts at `m`. Flow
collections ignore columns. -/
def unrollTo (s : Scanner) (column : Int) (m : Mark) : Scanner :=
  if s.inFlow then s else unroll column { m with index := m.index - 1 } s s.indents

def endBlocks (s : Scanner) : Except SyntaxError Scanner := do
  let s ← (s.unrollTo (-1) s.mark).dropKey
  return { s with keyAllowed := false }

end Scanner

end TreeScript.Yaml
