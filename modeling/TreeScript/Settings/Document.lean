import TreeScript.Settings.Reading

/-!
# Settings documents

A settings document is a mapping with the keys `color`, `max_depth` and `trace`. Other keys are
passed over, and null leaves a setting open. The key `<<` brings in the entries of other mappings:
a key that is taken already keeps its value. `Settings.parse` reads, checks and completes the
settings in a text.

To know which keys are taken, all keys of a mapping with `<<` are read once more, whatever they
are. A collection cannot be compared with other keys.
-/

namespace TreeScript.Settings

open Yaml (Node Position Scalar SyntaxError)

/-- What the entries of a mapping are read as: settings, or anything under keys that are texts or of
any kind. -/
inductive Shape where
  | settings
  | map (textual : Bool)
deriving DecidableEq, Repr

def isMerge : Node → Bool
  | .scalar label text => text == "<<" && label.tag == "!!merge"
  | _ => false

def mergeValue? (entries : List (Node × Node)) : Option Node :=
  (entries.find? (isMerge ·.1)).map (·.2)

theorem sizeOf_of_mergeValue? {entries : List (Node × Node)} {n : Node}
    (h : mergeValue? entries = some n) : sizeOf n < sizeOf entries := by
  obtain ⟨entry, he, rfl⟩ := Option.map_eq_some_iff.1 h
  have := List.sizeOf_lt_of_mem (List.mem_of_find?_eq_some he)
  obtain ⟨key, value⟩ := entry
  simp only [Prod.mk.sizeOf_spec] at this
  simp only
  omega

def isTextual (entries : List (Node × Node)) : Bool :=
  entries.all fun entry => tagOf entry.1 == "!!str" || tagOf entry.1 == "!!merge"

/-- Takes a key, unless it is taken already: then there are no keys to go on with. If no entries are
merged in, every key counts. -/
def take (key : Node) (content : Content) :
    Option (List Content) → Reading (Option (Option (List Content)))
  | none =>
    match content with
    | .collection _ => stopAt key.position.line .collectionKey
    | .scalar _ _ => return some none
  | some taken =>
    match content with
    | .collection c => throw (.incomparable c)
    | .scalar _ _ =>
      return if taken.any content.same then none else some (some (content :: taken))

def readTextKey (opened : List Position) (key : Node) : Reading (Option Content) := do
  return (← readValue .text pickText opened key).map (.scalar .text)

mutual

def readAny (opened : List Position) : Node → Reading (Option Content)
  | .scalar label text => do
    count opened (.scalar label text)
    let (meaning, content) ← readScalar label text
    return some (.scalar meaning content)
  | .sequence label items => do
    count opened (.sequence label items)
    readItems opened items
    return some (.collection .sequence)
  | .mapping label entries => do
    count opened (.mapping label entries)
    let textual := isTextual entries
    if ← readMapping opened (.map textual) entries then
      return some (.collection (.mapping textual))
    else return none
  | .alias position name node => do
    count opened (.alias position name node)
    readAny (← enter opened position name) node
  -- Reading stops at the alias before it, which it has come through already.
  | .endless position => stopAt position.line .excessiveAliasing
termination_by n => (sizeOf n, 0)

def readItems (opened : List Position) : List Node → Reading Unit
  | [] => return
  | n :: rest => do
    let _ ← readAny opened n
    readItems opened rest
termination_by items => (sizeOf items, 0)

/-- Reads the entries of a mapping, and then those that it merges in. A mapping with duplicate keys
is not read. -/
def readMapping (opened : List Position) (shape : Shape) (entries : List (Node × Node)) :
    Reading Bool := do
  if !(duplicates entries).isEmpty then
    complain (duplicates entries)
    return false
  let taken := (← get).taken
  modify fun d => { d with taken := none }
  let taken ← readEntries opened shape [] taken entries
  modify fun d => { d with taken }
  match h : mergeValue? entries with
  | none => return true
  | some value =>
    have := sizeOf_of_mergeValue? h
    if taken.isNone then
      modify fun d => { d with taken := some [] }
      readKeys opened entries
    readSources opened shape value
    if taken.isNone then modify fun d => { d with taken := none }
    return true
termination_by (sizeOf entries, 2)

/-- Reads entries. `done` are the settings that have been given in this mapping; none of them may be
given again. Gives back the keys that are taken. -/
def readEntries (opened : List Position) (shape : Shape) (done : List String)
    (taken : Option (List Content)) :
    List (Node × Node) → Reading (Option (List Content))
  | [] => return taken
  | (key, value) :: rest => do
    if isMerge key then readEntries opened shape done taken rest
    else
      let content? ← if shape = .map false then readAny opened key else readTextKey opened key
      match content? with
      | none => readEntries opened shape done taken rest
      | some content =>
        match ← take key content taken with
        | none => readEntries opened shape done taken rest
        | some taken =>
          match shape, content with
          | .settings, .scalar _ name =>
            if done.contains name then
              complain [.repeatedField key.position.line name]
              readEntries opened shape done taken rest
            else if fieldNames.contains name then
              readField opened name value
              readEntries opened shape (name :: done) taken rest
            else readEntries opened shape done taken rest
          | _, _ =>
            let _ ← readAny opened value
            readEntries opened shape done taken rest
termination_by entries => (sizeOf entries, 1)

def readKeys (opened : List Position) : List (Node × Node) → Reading Unit
  | [] => return
  | (key, _) :: rest => do
    match ← readAny opened key with
    | none => readKeys opened rest
    | some (.collection c) => throw (.incomparable c)
    | some (.scalar meaning text) =>
      modify fun d => { d with taken := d.taken.map (.scalar meaning text :: ·) }
      readKeys opened rest
termination_by entries => (sizeOf entries, 1)

def readSources (opened : List Position) (shape : Shape) : Node → Reading Unit
  | .sequence _ items => readSourceItems opened shape items
  | n => readSource opened shape n
termination_by n => (sizeOf n, 1)

def readSourceItems (opened : List Position) (shape : Shape) : List Node → Reading Unit
  | [] => return
  | n :: rest => do
    readSource opened shape n
    readSourceItems opened shape rest
termination_by items => (sizeOf items, 0)

def readSource (opened : List Position) (shape : Shape) : Node → Reading Unit
  | .mapping label entries => do
    count opened (.mapping label entries)
    let _ ← readMapping opened shape entries
  | .alias position name (.mapping label entries) => do
    count opened (.alias position name (.mapping label entries))
    let opened ← enter opened position name
    count opened (.mapping label entries)
    let _ ← readMapping opened shape entries
  | n => stopAt n.position.line .badMerge
termination_by n => (sizeOf n, 0)

end

/-- Reads the root of a document. The document counts as a node as well. -/
def readRoot (n : Node) : Reading Unit := do
  count [] n
  match n with
  | .mapping label entries =>
    count [] (.mapping label entries)
    let _ ← readMapping [] .settings entries
  | other =>
    let _ ← readValue .settings (fun _ _ => (none : Option Unit)) [] other

/-- The settings as they are written in a text; a text without a document leaves all of them
open. -/
def written (text : RawText) (path : String) : Except SettingsError Settings := do
  match ← (Node.ofText text).mapError (.notDocument path) with
  | none => return {}
  | some root =>
    let (_, d) ← ((readRoot root).run {}).mapError (Halt.toError path)
    if d.complaints.isEmpty then return d.settings
    else .error (.unfit path d.complaints.reverse)

def check (path : String) (s : Settings) : Except SettingsError Unit :=
  if !knowsColor s.color then .error (.unknownColor path s.color)
  else if s.maxDepth < 0 then .error (.negativeDepth path s.maxDepth)
  else .ok ()

def parse (text : RawText) (path : String) : Except SettingsError Settings := do
  let s ← written text path
  check path s
  return s.complete

end TreeScript.Settings
