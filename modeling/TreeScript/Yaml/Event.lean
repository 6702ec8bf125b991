import TreeScript.Yaml.Token.Stream

/-!
# The structure of a document

The nodes of a document in the order of the text, with the starts and ends of its collections. A
stack of goals says what is expected next; each goal looks at the next token or two. Only the first
document of a text is read.
-/

namespace TreeScript.Yaml

/-- Where a node starts, its anchor and its tag. The tag is empty if there is none. -/
structure Properties where
  mark : Mark
  anchor : Option String := none
  tag : String := ""
deriving DecidableEq, Repr

inductive Event where
  | scalar (properties : Properties) (text : String) (plain : Bool)
  | alias (mark : Mark) (name : String)
  | sequenceStart (properties : Properties)
  | mappingStart (properties : Properties)
  | collectionEnd
deriving DecidableEq, Repr

namespace Event

def missing (m : Mark) : Event := .scalar { mark := m } "" true

/-- What is expected next. -/
inductive Goal where
  /-- A node. Block collections are allowed only outside of flow collections, and a sequence without
  indentation only inside of a block mapping. -/
  | node (block indentless : Bool)
  /-- The next entry of a block sequence, or its end. -/
  | blockEntry
  /-- The next entry of a sequence without indentation, or its end. -/
  | indentlessEntry
  /-- The next key of a block mapping, or its end. -/
  | blockKey
  | blockValue
  /-- The next entry of a flow sequence, or its end. -/
  | flowEntry (first : Bool)
  /-- A key, value and end of a mapping that is one entry of a flow sequence. -/
  | pairKey
  | pairValue
  | pairEnd
  /-- The next key of a flow mapping, or its end. -/
  | flowKey (first : Bool)
  | flowValue
  /-- The value of a key without `:`. -/
  | flowNoValue

/-- What a goal turns into: events, goals that come first from now on, and the tokens left. -/
structure Step where
  events : List Event
  goals : List Goal
  tokens : List Token

def outOfTokens : Except SyntaxError α := .error ⟨1, .endOfTokens⟩

def resolveTag (shorthands : List (String × String)) (m : Mark) (handle suffix : String) :
    Except SyntaxError String :=
  if handle.isEmpty then .ok suffix
  else
    match shorthands.lookup handle with
    | some uri => .ok (uri ++ suffix)
    | none => m.error .undefinedTagHandle

def readProperties (shorthands : List (String × String)) :
    List Token → Except SyntaxError (Properties × List Token)
  | [] => outOfTokens
  | t :: rest => do
    match t.lexeme with
    | .anchor anchor =>
      match rest with
      | [] => outOfTokens
      | u :: rest' =>
        match u.lexeme with
        | .tag handle suffix =>
          return (⟨t.start, some anchor, ← resolveTag shorthands t.start handle suffix⟩, rest')
        | _ => return (⟨t.start, some anchor, ""⟩, rest)
    | .tag handle suffix =>
      match rest with
      | [] => outOfTokens
      | u :: rest' =>
        match u.lexeme with
        | .anchor anchor =>
          return (⟨t.start, some anchor, ← resolveTag shorthands t.start handle suffix⟩, rest')
        | _ => return (⟨t.start, none, ← resolveTag shorthands t.start handle suffix⟩, rest)
    | _ => return (⟨t.start, none, ""⟩, t :: rest)

def readNode (shorthands : List (String × String)) (block indentless : Bool) :
    List Token → Except SyntaxError Step
  | [] => outOfTokens
  | t :: rest =>
    match t.lexeme with
    | .alias name => .ok ⟨[.alias t.start name], [], rest⟩
    | _ => do
      let (properties, tokens) ← readProperties shorthands (t :: rest)
      let without : Except SyntaxError Step :=
        if properties.anchor.isSome || !properties.tag.isEmpty then
          .ok ⟨[.scalar properties "" true], [], tokens⟩
        else t.start.error .missingContent
      match tokens with
      | [] => outOfTokens
      | u :: rest =>
        match u.lexeme with
        | .scalar text plain => return ⟨[.scalar properties text plain], [], rest⟩
        | .flowSequenceStart => return ⟨[.sequenceStart properties], [.flowEntry true], rest⟩
        | .flowMappingStart => return ⟨[.mappingStart properties], [.flowKey true], rest⟩
        | .blockEntry =>
          if indentless then return ⟨[.sequenceStart properties], [.indentlessEntry], u :: rest⟩
          else without
        | .blockSequenceStart =>
          if block then return ⟨[.sequenceStart properties], [.blockEntry], rest⟩ else without
        | .blockMappingStart =>
          if block then return ⟨[.mappingStart properties], [.blockKey], rest⟩ else without
        | _ => without

/-- Expects a node, unless the next token is one of `ends`; then the node is missing at `m`. -/
def nodeUnless (ends : List Lexeme) (m : Mark) (node after : Goal) :
    List Token → Except SyntaxError Step
  | [] => outOfTokens
  | t :: rest =>
    if ends.contains t.lexeme then .ok ⟨[missing m], [after], t :: rest⟩
    else .ok ⟨[], [node, after], t :: rest⟩

def readFlowEntry : List Token → Except SyntaxError Step
  | [] => outOfTokens
  | t :: rest =>
    match t.lexeme with
    | .key => .ok ⟨[.mappingStart { mark := t.start }], [.pairKey, .flowEntry false], rest⟩
    | .flowSequenceEnd => .ok ⟨[.collectionEnd], [], rest⟩
    | _ => .ok ⟨[], [.node false false, .flowEntry false], t :: rest⟩

def readFlowKey : List Token → Except SyntaxError Step
  | [] => outOfTokens
  | t :: rest =>
    match t.lexeme with
    | .key =>
      match rest with
      | [] => outOfTokens
      | u :: _ =>
        nodeUnless [.value, .flowEntry, .flowMappingEnd] u.start (.node false false) .flowValue rest
    | .flowMappingEnd => .ok ⟨[.collectionEnd], [], rest⟩
    | _ => .ok ⟨[], [.node false false, .flowNoValue], t :: rest⟩

def step (shorthands : List (String × String)) : Goal → List Token → Except SyntaxError Step
  | _, [] => outOfTokens
  | .node block indentless, t :: rest => readNode shorthands block indentless (t :: rest)
  | .blockEntry, t :: rest =>
    match t.lexeme with
    | .blockEntry =>
      nodeUnless [.blockEntry, .blockEnd] t.stop (.node true false) .blockEntry rest
    | .blockEnd => .ok ⟨[.collectionEnd], [], rest⟩
    | _ => t.start.error .missingEntry
  | .indentlessEntry, t :: rest =>
    match t.lexeme with
    | .blockEntry =>
      nodeUnless [.blockEntry, .key, .value, .blockEnd] t.stop (.node true false) .indentlessEntry
        rest
    | _ => .ok ⟨[.collectionEnd], [], t :: rest⟩
  | .blockKey, t :: rest =>
    match t.lexeme with
    | .key => nodeUnless [.key, .value, .blockEnd] t.stop (.node true true) .blockValue rest
    | .blockEnd => .ok ⟨[.collectionEnd], [], rest⟩
    | _ => t.start.error .missingKey
  | .blockValue, t :: rest =>
    match t.lexeme with
    | .value => nodeUnless [.key, .value, .blockEnd] t.stop (.node true true) .blockKey rest
    | _ => .ok ⟨[missing t.start], [.blockKey], t :: rest⟩
  | .flowEntry first, t :: rest =>
    if first || t.lexeme == .flowSequenceEnd then readFlowEntry (t :: rest)
    else if t.lexeme == .flowEntry then readFlowEntry rest
    else t.start.error .missingSequenceEnd
  | .pairKey, t :: rest =>
    match t.lexeme with
    | .value | .flowEntry | .flowSequenceEnd => .ok ⟨[missing t.stop], [.pairValue], rest⟩
    | _ => .ok ⟨[], [.node false false, .pairValue], t :: rest⟩
  | .pairValue, t :: rest =>
    match t.lexeme with
    | .value =>
      nodeUnless [.flowEntry, .flowSequenceEnd] t.successor (.node false false) .pairEnd rest
    | _ => .ok ⟨[missing t.start], [.pairEnd], t :: rest⟩
  | .pairEnd, t :: rest => .ok ⟨[.collectionEnd], [], t :: rest⟩
  | .flowKey first, t :: rest =>
    if first || t.lexeme == .flowMappingEnd then readFlowKey (t :: rest)
    else if t.lexeme == .flowEntry then readFlowKey rest
    else t.start.error .missingMappingEnd
  | .flowValue, t :: rest =>
    match t.lexeme with
    | .value =>
      match rest with
      | [] => outOfTokens
      | u :: _ =>
        nodeUnless [.flowEntry, .flowMappingEnd] u.start (.node false false) (.flowKey false) rest
    | _ => .ok ⟨[missing t.start], [.flowKey false], t :: rest⟩
  | .flowNoValue, t :: rest => .ok ⟨[missing t.start], [.flowKey false], t :: rest⟩

/-- Reaches the goals one after the other. `events` are the events so far, last one first. -/
def run (shorthands : List (String × String)) :
    Nat → List Goal → List Token → List Event → Except SyntaxError (List Event)
  | _, [], [], _ => outOfTokens
  | _, [], _ :: _, events => .ok events.reverse
  | 0, _ :: _, _, _ => outOfTokens
  | fuel + 1, goal :: goals, tokens, events => do
    let s ← step shorthands goal tokens
    run shorthands fuel (s.goals ++ goals) s.tokens (s.events.reverse ++ events)

def defaultShorthands : List (String × String) := [("!", "!"), ("!!", "tag:yaml.org,2002:")]

def readDirectives (versioned : Bool) (shorthands : List (String × String)) :
    List Token → Except SyntaxError (List (String × String) × List Token)
  | [] => outOfTokens
  | t :: rest =>
    match t.lexeme with
    | .version major minor =>
      if versioned then t.start.error .duplicateVersion
      else if major != 1 || minor != 1 then t.start.error .incompatibleVersion
      else readDirectives true shorthands rest
    | .tagShorthand handle uri =>
      if (shorthands.lookup handle).isSome then t.start.error .duplicateTagHandle
      else readDirectives versioned (shorthands ++ [(handle, uri)]) rest
    | _ => .ok (shorthands ++ defaultShorthands, t :: rest)

def endsDocument : Lexeme → Bool
  | .version _ _ | .tagShorthand _ _ | .documentStart | .documentEnd | .streamEnd => true
  | _ => false

def readRoot (shorthands : List (String × String)) (tokens : List Token) :
    Except SyntaxError (List Event) :=
  run shorthands (4 * tokens.length + 4) [.node true false] tokens []

def ofTokens (tokens : List Token) : Except SyntaxError (Option (List Event)) := do
  match tokens with
  | [] | [_] => outOfTokens
  | _ :: t :: rest =>
    match t.lexeme with
    | .streamEnd => return none
    | .version _ _ | .tagShorthand _ _ | .documentStart =>
      let (shorthands, tokens) ← readDirectives false [] (t :: rest)
      match tokens with
      | [] => outOfTokens
      | start :: tokens =>
        if start.lexeme != .documentStart then start.start.error .missingDocumentStart
        match tokens with
        | [] => outOfTokens
        | first :: _ =>
          if endsDocument first.lexeme then return some [missing first.start]
          return some (← readRoot shorthands tokens)
    | _ => return some (← readRoot defaultShorthands (t :: rest))

end Event

/-- The events of the first document of a text. The error of the text counts where the tokens
before it do not suffice. -/
def events (text : RawText) : Except SyntaxError (Option (List Event)) :=
  let stream := scan text
  match Event.ofTokens stream.tokens, stream.error with
  | .ok events, _ => .ok events
  | .error _, some e => .error e
  | .error e, none => .error e

end TreeScript.Yaml
