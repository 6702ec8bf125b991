import TreeScript.Yaml.Token

/-!
# The queue of tokens

Tokens wait in a row of slots until they are handed out. When the row is full, the tokens that still
wait move to its front, and take the slots of tokens that have been handed out. When all of them
wait, a longer row takes its place.
-/

namespace TreeScript.Yaml

/-- Where the token that was handed out last stood: in a slot, or in a row that is no longer used,
in which the token with the given start has stayed. -/
inductive Slot where
  | inRow (index : Nat)
  | left (start : Mark)
deriving DecidableEq, Repr

/-- A queue of tokens. The waiting ones stand in the slots from `head` to `stop`. -/
structure Queue where
  slots : Array Token := #[]
  head : Nat := 0
  stop : Nat := 0
  /-- The number of slots of the row. -/
  length : Nat := 0
  /-- The number of tokens that have been handed out. -/
  handed : Nat := 0
  lastSlot : Slot := .left {}

namespace Queue

def lengths : List Nat :=
  [1, 2, 4, 8, 16, 33, 67, 142, 284, 568, 910, 1365, 1934, 2616, 3470, 4551, 5916, 7623, 9728,
    12401, 15701, 19854, 25031, 31516, 39594, 49720, 62350]

def waiting (q : Queue) : Nat := q.stop - q.head

def count (q : Queue) : Nat := q.handed + q.waiting

def fromEnd? (q : Queue) (n : Nat) : Option Token :=
  if n < q.stop then q.slots[q.stop - 1 - n]? else none

/-- The start of the token that stands where the last one handed out stood. -/
def successor (q : Queue) : Mark :=
  match q.lastSlot with
  | .inRow i => (q.slots[i]?.map (·.start)).getD {}
  | .left start => start

def makeRoom (q : Queue) : Queue :=
  if q.stop < q.length then q
  else if 0 < q.head then
    { q with
      slots := q.slots.extract q.head q.stop ++ q.slots.extract q.waiting q.slots.size
      head := 0
      stop := q.waiting }
  else
    { q with
      length := (lengths.find? (q.length < ·)).getD (2 * q.length)
      lastSlot := .left q.successor }

def push (q : Queue) (t : Token) : Queue :=
  let q := q.makeRoom
  { q with
    slots := if q.stop < q.slots.size then q.slots.setIfInBounds q.stop t else q.slots.push t
    stop := q.stop + 1 }

/-- Adds a token so that it has the number `n`. It comes last if the tokens up to that number have
been handed out. -/
def insert (q : Queue) (n : Nat) (t : Token) : Queue :=
  let q' := q.push t
  if n < q.handed then q'
  else
    let i := q'.head + (n - q.handed)
    { q' with
      slots := (q'.slots.extract 0 i).push t ++ q'.slots.extract i (q'.stop - 1) ++
        q'.slots.extract q'.stop q'.slots.size }

def next? (q : Queue) : Option (Token × Queue) :=
  if q.head < q.stop then
    (q.slots[q.head]?).map fun t =>
      (t, { q with head := q.head + 1, handed := q.handed + 1, lastSlot := .inRow q.head })
  else none

end Queue

end TreeScript.Yaml
