import TreeScript.Yaml.Event
import TreeScript.Yaml.Scalar

/-!
# Documents as trees

A node is a scalar, a sequence, a mapping, or an alias of another node. Every node says where it
stands and what its tag is, in short form. `Node.ofText` reads the first document of a text.

A collection may contain an alias of itself. As a tree it has no end then, and what is kept of it is
the beginning: `Node.unroll` repeats the collection so often that every way down comes through one
of its aliases twice, and puts `Node.endless` behind the last ones.
-/

namespace TreeScript.Yaml

structure Position where
  line : Nat
  column : Nat
deriving DecidableEq, Repr

def Mark.position (m : Mark) : Position := ⟨m.line + 1, m.column + 1⟩

structure Label where
  position : Position
  tag : String
  anchor : Option String := none
deriving DecidableEq, Repr

/-- A node of a document. An alias carries the node that it stands for. -/
inductive Node where
  | scalar (label : Label) (text : String)
  | sequence (label : Label) (items : List Node)
  | mapping (label : Label) (entries : List (Node × Node))
  | alias (position : Position) (name : String) (target : Node)
  /-- The collection that starts at a position, inside itself. -/
  | endless (position : Position)

namespace Node

def position : Node → Position
  | .scalar label _ => label.position
  | .sequence label _ => label.position
  | .mapping label _ => label.position
  | .alias position _ _ => position
  | .endless position => position

def text : Node → String
  | .scalar _ text => text
  | .sequence _ _ => ""
  | .mapping _ _ => ""
  | .alias _ name _ => name
  | .endless _ => ""

/-- The node that an alias stands for in the end, and any other node itself. -/
def deref : Node → Node
  | .alias _ _ target => target.deref
  | .scalar label text => .scalar label text
  | .sequence label items => .sequence label items
  | .mapping label entries => .mapping label entries
  | .endless position => .endless position

/-! ## Collections inside themselves -/

mutual

/-- The node with another one in the place of a collection inside itself. -/
def replace (start : Position) (new : Node) : Node → Node
  | .scalar label text => .scalar label text
  | .sequence label items => .sequence label (replaceItems start new items)
  | .mapping label entries => .mapping label (replaceEntries start new entries)
  | .alias position name target => .alias position name (replace start new target)
  | .endless position => if position = start then new else .endless position

def replaceItems (start : Position) (new : Node) : List Node → List Node
  | [] => []
  | item :: rest => replace start new item :: replaceItems start new rest

def replaceEntries (start : Position) (new : Node) : List (Node × Node) → List (Node × Node)
  | [] => []
  | (key, value) :: rest =>
    (replace start new key, replace start new value) :: replaceEntries start new rest

end

def unroll (start : Position) (n : Node) : Nat → Node
  | 0 => .endless start
  | times + 1 => replace start (unroll start n times) n

/-! ## Tags -/

def standardTags : String := "tag:yaml.org,2002:"

def shortTag (tag : String) : String :=
  if standardTags.isPrefixOf tag then "!!" ++ (tag.drop standardTags.length).toString else tag

def tagOr (tag default : String) : String :=
  if tag.isEmpty || tag == "!" then default else shortTag tag

def scalarTag (tag text : String) (plain : Bool) : String :=
  tagOr tag
    (if !plain then "!!str" else if text == "<<" then "!!merge" else (Scalar.resolve true text).tag)

/-- A collection whose end has not come yet. Its items, or entries, are kept last one first, and
its anchor by number. -/
inductive Partial where
  | sequence (label : Label) (anchor : Option Nat) (items : List Node)
  | mapping (label : Label) (anchor : Option Nat) (entries : List (Node × Node))
  | keyed (label : Label) (anchor : Option Nat) (entries : List (Node × Node)) (key : Node)

/-- What has been read of a document: the open collections, innermost first, the anchors in the
order of the text with their nodes, the starts of the open collections for which there have been
aliases, once for each, and the root. -/
structure Builder where
  stack : List Partial := []
  anchors : Array (String × Node) := #[]
  inside : List Position := []
  root : Option Node := none

namespace Builder

def place (b : Builder) (n : Node) : Builder :=
  match b.stack with
  | [] => { b with root := some n }
  | .sequence label anchor items :: rest =>
    { b with stack := .sequence label anchor (n :: items) :: rest }
  | .mapping label anchor entries :: rest =>
    { b with stack := .keyed label anchor entries n :: rest }
  | .keyed label anchor entries key :: rest =>
    { b with stack := .mapping label anchor ((key, n) :: entries) :: rest }

/-- Remembers an anchor; a later one with the same name comes first when a name is looked up. -/
def name (b : Builder) (anchor : Option String) (n : Node) : Builder × Option Nat :=
  match anchor with
  | some name => ({ b with anchors := b.anchors.push (name, n) }, some b.anchors.size)
  | none => (b, none)

def complete (b : Builder) (anchor : Option Nat) (n : Node) : Builder :=
  match anchor with
  | some i => { b with anchors := b.anchors.modify i fun (name, _) => (name, n) }
  | none => b

def label (p : Properties) (tag : String) : Label := ⟨p.mark.position, tag, p.anchor⟩

def placeAlias (b : Builder) (position : Position) (name : String) (target : Node) : Builder :=
  match target with
  | .endless start =>
    { b with inside := start :: b.inside }.place (.alias position name (.endless start))
  | _ => b.place (.alias position name target)

def close (b : Builder) (label : Label) (anchor : Option Nat) (n : Node) : Builder :=
  let times := b.inside.count label.position
  let n := if times = 0 then n else unroll label.position n (times + 2)
  (b.complete anchor n).place n

def step (b : Builder) : Event → Except SyntaxError Builder
  | .scalar p text plain =>
    let n := Node.scalar (label p (scalarTag p.tag text plain)) text
    .ok ((b.name p.anchor n).1.place n)
  | .alias mark name =>
    match b.anchors.findRev? (·.1 == name) with
    | some (_, target) => .ok (b.placeAlias mark.position name target)
    | none => mark.error (.unknownAnchor name)
  | .sequenceStart p =>
    let (b, anchor) := b.name p.anchor (.endless p.mark.position)
    .ok { b with stack := .sequence (label p (tagOr p.tag "!!seq")) anchor [] :: b.stack }
  | .mappingStart p =>
    let (b, anchor) := b.name p.anchor (.endless p.mark.position)
    .ok { b with stack := .mapping (label p (tagOr p.tag "!!map")) anchor [] :: b.stack }
  | .collectionEnd =>
    match b.stack with
    | .sequence label anchor items :: rest =>
      .ok ({ b with stack := rest }.close label anchor (.sequence label items.reverse))
    | .mapping label anchor entries :: rest =>
      .ok ({ b with stack := rest }.close label anchor (.mapping label entries.reverse))
    | _ => .error ⟨1, .endOfTokens⟩

end Builder

def ofEvents (events : List Event) : Except SyntaxError Node := do
  let b ← events.foldlM Builder.step {}
  match b.root with
  | some n => return n
  | none => .error ⟨1, .endOfTokens⟩

def ofText (text : RawText) : Except SyntaxError (Option Node) := do
  match ← events text with
  | some events => return some (← ofEvents events)
  | none => return none

end Node

end TreeScript.Yaml
