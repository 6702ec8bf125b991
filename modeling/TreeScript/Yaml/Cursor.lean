import TreeScript.Yaml.Encoding

/-!
# Reading a text from its front

A text is loaded in pieces, each of them when one of its characters is asked for. A piece with
something wrong in it is an error, but only once it is loaded: nobody asks for what lies far behind
a document.
-/

namespace TreeScript.Yaml

def Mark.error (m : Mark) (problem : Problem) : Except SyntaxError α := .error ⟨m.line + 1, problem⟩

/-- A piece of a text: the index behind its last character, and what is wrong with it. -/
structure Piece where
  stop : Nat
  flaw : Option Problem := none
deriving DecidableEq, Repr

namespace Piece

def size : Nat := 512

/-- Cuts a text into pieces. `index` is the number of characters before it, and `room` the number of
bytes that the first piece has left. What does not fit belongs to the next piece, and so does what
shows only at the end of the bytes. -/
def cut : List Spelled → (index room : Nat) → List Piece
  | [], index, _ => [{ stop := index }]
  | .char width _ :: rest, index, room =>
    if width ≤ room then cut rest (index + 1) (room - width)
    else { stop := index } :: cut rest (index + 1) (size - width)
  | .flaw width problem :: _, index, room =>
    if width ≤ room then [⟨index, problem⟩] else [{ stop := index }, ⟨index, problem⟩]
  | .cutShort problem :: _, index, _ => [{ stop := index }, ⟨index, problem⟩]

end Piece

/-- A place in a text, with what has been loaded there. -/
structure Place where
  mark : Mark := {}
  /-- The line breaks since the last character that is no blank. -/
  newLines : Nat := 0
  /-- The index behind the last character that has been loaded. -/
  loaded : Nat := 0
  /-- The pieces that have not been loaded. -/
  pieces : List Piece := []
  /-- Whether reading was at a byte order mark when something was loaded last. -/
  loadedAtMark : Bool := false

namespace Place

/-- Loads pieces until there are characters up to the index `goal`. At the end of the text every
attempt makes one more character of it, which stands for the end. -/
def loadTo (m : Mark) (goal : Nat) : List Piece → Nat → Except SyntaxError (Nat × List Piece)
  | [], loaded => .ok (if goal ≤ loaded then loaded else loaded + 1, [])
  | piece :: later, loaded =>
    if goal ≤ loaded then .ok (loaded, piece :: later)
    else
      match piece.flaw with
      | none => loadTo m goal later piece.stop
      | some problem => m.error problem

def need (p : Place) (rest : List Char) (n : Nat) : Except SyntaxError Place :=
  if p.mark.index + n ≤ p.loaded then .ok p
  else do
    let (loaded, pieces) ← loadTo p.mark (p.mark.index + n) p.pieces p.loaded
    return { p with loaded, pieces, loadedAtMark := rest.head? == some byteOrderMark }

/-- The place behind a character that is taken for part of a line. -/
def pass (p : Place) (c : Char) : Place :=
  { p with mark := p.mark.advance 1, newLines := if isBlank c then p.newLines else 0 }

def passBreak (p : Place) (width : Nat) : Place :=
  { p with mark := p.mark.newLine width, newLines := p.newLines + 1 }

def cross (p : Place) (c : Char) (rest : List Char) (n : Nat) : Except SyntaxError Place :=
  (p.pass c).need rest n

/-- Passes a line break of `width` characters at the start of `text`, and asks for the next
character behind it. -/
def crossBreak (p : Place) (text : List Char) (width : Nat) : Except SyntaxError Place := do
  let p ← p.need text 2
  (p.passBreak width).need (text.drop width) 1

end Place

structure Cursor where
  rest : List Char
  place : Place

namespace Cursor

/-- The start of a text. A byte order mark there belongs to the first piece, but not to the text,
and an empty text reads like an empty line. -/
def ofText (text : RawText) : Cursor :=
  let text : RawText := if text.bytes.isEmpty then "\n" else text
  let (encoding, width, bytes) := Encoding.detect text.bytes
  let spelled := encoding.spell bytes 0
  ⟨spelled.filterMap Spelled.char?, { pieces := Piece.cut spelled 0 (Piece.size - width) }⟩

def mark (c : Cursor) : Mark := c.place.mark

def need (c : Cursor) (n : Nat) : Except SyntaxError Cursor := do
  return { c with place := ← c.place.need c.rest n }

/-- The cursor behind the next character, whatever it is. The end of the text can be passed like a
character. -/
def next (c : Cursor) : Cursor :=
  match c.rest with
  | [] => ⟨[], c.place.pass (Char.ofNat 0)⟩
  | d :: rest => ⟨rest, c.place.pass d⟩

def advance (c : Cursor) : Nat → Cursor
  | 0 => c
  | n + 1 => c.next.advance n

/-- Passes characters of a text as long as they satisfy `f`, and asks for the next character behind
each of them. `taken` are the characters before, last one first. -/
def takeFrom (f : Char → Bool) :
    List Char → Place → List Char → Except SyntaxError (List Char × Cursor)
  | [], p, taken => .ok (taken.reverse, ⟨[], p⟩)
  | d :: rest, p, taken =>
    if f d then do takeFrom f rest (← p.cross d rest 1) (d :: taken)
    else .ok (taken.reverse, ⟨d :: rest, p⟩)

def takeWhile (c : Cursor) (f : Char → Bool) : Except SyntaxError (List Char × Cursor) :=
  takeFrom f c.rest c.place []

def dropWhile (c : Cursor) (f : Char → Bool) : Except SyntaxError Cursor := do
  return (← c.takeWhile f).2

def skipBreak (c : Cursor) : Except SyntaxError Cursor := do
  if (c.rest.head?.any isBreak) then
    let c ← c.need 2
    match c.rest with
    | '\r' :: '\n' :: rest => return ⟨rest, c.place.passBreak 2⟩
    | _ :: rest => return ⟨rest, c.place.passBreak 1⟩
    | [] => return c
  else return c

/-- The cursor behind the blanks, the comment and the line break that may end a line. Nothing else
may stand there. -/
def endLine (c : Cursor) (problem : Problem) : Except SyntaxError Cursor := do
  let c ← c.dropWhile isBlank
  let c ← if c.rest.head? == some '#' then c.dropWhile (!isBreak ·) else pure c
  if !atBreak c.rest then c.mark.error problem
  c.skipBreak

end Cursor

end TreeScript.Yaml
