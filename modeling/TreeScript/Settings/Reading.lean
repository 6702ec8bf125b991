import TreeScript.Settings.SettingsError
import TreeScript.Text.Base64
import TreeScript.Yaml.Node

/-!
# Reading values

A settings document is read node by node. Values of wrong kinds are complained about, and reading
goes on; a few things stop it. One of them is a document of which far too much is read through
aliases: aliases of nodes with aliases in them can make a short document very long.
-/

namespace TreeScript.Settings

open Yaml (Node Position Scalar SyntaxError)

/-- How many nodes have been read, and how many of them through aliases. -/
structure Effort where
  nodes : Nat := 0
  aliased : Nat := 0
deriving DecidableEq, Repr

namespace Effort

def add (e : Effort) (aliased : Bool) : Effort :=
  ⟨e.nodes + 1, if aliased then e.aliased + 1 else e.aliased⟩

/-- How many of 360 million nodes may be read through aliases: 99 percent in a small document and 10
percent in a large one. -/
def allowance (nodes : Nat) : Nat :=
  if nodes ≤ 400000 then 356400000
  else if nodes < 4000000 then 356400000 - 89 * (nodes - 400000)
  else 36000000

def isExcessive (e : Effort) : Bool :=
  decide (100 < e.aliased) && decide (1000 < e.nodes) &&
    decide (e.nodes * allowance e.nodes < e.aliased * 360000000)

end Effort

inductive Content where
  | scalar (meaning : Scalar) (text : String)
  | collection (c : Collection)

def Content.same : Content → Content → Bool
  | .scalar .null _, .scalar .null _ => true
  | .scalar (.bool a) _, .scalar (.bool b) _ => a == b
  | .scalar (.int a) _, .scalar (.int b) _ => a == b
  | .scalar (.float a) _, .scalar (.float b) _ => a == b
  | .scalar .timestamp a, .scalar .timestamp b => a == b
  | .scalar .text a, .scalar .text b => a == b
  | _, _ => false

structure Draft where
  settings : Settings := {}
  /-- While entries are merged in: the keys that are taken already. -/
  taken : Option (List Content) := none
  /-- What was wrong, last complaint first. -/
  complaints : List Complaint := []
  effort : Effort := {}

inductive Halt where
  | broken (e : SyntaxError)
  | incomparable (key : Collection)

def Halt.toError (path : String) : Halt → SettingsError
  | .broken e => .notDocument path e
  | .incomparable key => .incomparableKey key

abbrev Reading := StateT Draft (Except Halt)

def stopAt (line : Nat) (problem : Yaml.Problem) : Reading α := throw (.broken ⟨line, problem⟩)

def complain (cs : List Complaint) : Reading Unit :=
  modify fun d => { d with complaints := cs.reverse ++ d.complaints }

/-- Counts a node before it is read, inside the aliases at the given positions. -/
def count (opened : List Position) (n : Node) : Reading Unit := do
  let effort := (← get).effort.add !opened.isEmpty
  if effort.isExcessive then stopAt n.position.line .excessiveAliasing
  modify fun d => { d with effort }

/-- Enters an alias, unless that is where reading has come from. -/
def enter (opened : List Position) (position : Position) (name : String) :
    Reading (List Position) :=
  if opened.contains position then stopAt position.line (.anchorInsideItself name)
  else return position :: opened

def tagOf : Node → String
  | .scalar label _ => label.tag
  | .sequence label _ => label.tag
  | .mapping label _ => label.tag
  | .alias _ _ target => tagOf target
  | .endless _ => ""

/-- Whether two keys are the same: scalars with one text, aliases of one anchor, and any two
sequences or mappings. -/
def sameKey : Node → Node → Bool
  | .scalar _ s, .scalar _ t => s == t
  | .sequence _ _, .sequence _ _ => true
  | .mapping _ _, .mapping _ _ => true
  | .alias _ s _, .alias _ t _ => s == t
  | _, _ => false

def duplicates : List (Node × Node) → List Complaint
  | [] => []
  | (key, _) :: rest =>
    (rest.filter fun entry => sameKey key entry.1).map
        (fun entry => .duplicateKey entry.1.position.line entry.1.text key.position.line) ++
      duplicates rest

/-- The complaints about a node that is not what it should be. A mapping with duplicate keys is
blamed for those alone. -/
def refusal (n : Node) (target : Target) : List Complaint :=
  let mismatch := Complaint.mismatch n.position.line (tagOf n) n.text target
  match n with
  | .mapping _ entries => if (duplicates entries).isEmpty then [mismatch] else duplicates entries
  | _ => [mismatch]

/-- What a scalar stands for, with its text. The text of a binary scalar is what it encodes. -/
def meaning (label : Yaml.Label) (text : String) : Except SyntaxError (Scalar × String) :=
  if label.tag == "!!binary" then
    match Text.Base64.decode? text with
    | some decoded => .ok (.text, decoded)
    | none => .error ⟨label.position.line, .badBase64⟩
  else
    match Scalar.ofTag label.tag text with
    | some meaning => .ok (meaning, text)
    | none =>
      .error ⟨label.position.line, .undecodable (Scalar.resolve false text).tag text label.tag⟩

def readScalar (label : Yaml.Label) (text : String) : Reading (Scalar × String) :=
  match meaning label text with
  | .ok r => pure r
  | .error e => throw (.broken e)

/-- Reads a value: null leaves it open, `pick` says which scalars fit, and there are complaints
about everything else. -/
def readValue (target : Target) (pick : Scalar → String → Option α) (opened : List Position) :
    Node → Reading (Option α)
  | .alias position name node => do
    count opened (.alias position name node)
    readValue target pick (← enter opened position name) node
  | .scalar label text => do
    count opened (.scalar label text)
    match ← readScalar label text with
    | (.null, _) => return none
    | (meaning, content) =>
      match pick meaning content with
      | some a => return some a
      | none =>
        complain (refusal (.scalar label text) target)
        return none
  | .sequence label items => do
    count opened (.sequence label items)
    complain (refusal (.sequence label items) target)
    return none
  | .mapping label entries => do
    count opened (.mapping label entries)
    complain (refusal (.mapping label entries) target)
    return none
  -- Reading stops at the alias before it, which it has come through already.
  | .endless position => stopAt position.line .excessiveAliasing

def pickText (_ : Scalar) (text : String) : Option String := some text

def pickInteger (meaning : Scalar) (_ : String) : Option Int := meaning.integer?

def pickTruth (meaning : Scalar) (text : String) : Option Bool :=
  match meaning with
  | .bool b => some b
  | .text =>
    if ["y", "Y", "yes", "Yes", "YES", "on", "On", "ON"].contains text then some true
    else if ["n", "N", "no", "No", "NO", "off", "Off", "OFF"].contains text then some false
    else none
  | _ => none

def fieldNames : List String := ["color", "max_depth", "trace"]

def readField (opened : List Position) (name : String) (value : Node) : Reading Unit := do
  if name == "color" then
    if let some color ← readValue .text pickText opened value then
      modify fun d => { d with settings := { d.settings with color } }
  else if name == "max_depth" then
    if let some maxDepth ← readValue .integer pickInteger opened value then
      modify fun d => { d with settings := { d.settings with maxDepth } }
  else if name == "trace" then
    if let some trace ← readValue .truth pickTruth opened value then
      modify fun d => { d with settings := { d.settings with trace } }

end TreeScript.Settings
