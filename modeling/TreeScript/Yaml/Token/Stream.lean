import TreeScript.Yaml.Token.BlockScalar
import TreeScript.Yaml.Token.Directive
import TreeScript.Yaml.Token.Gap
import TreeScript.Yaml.Token.PlainScalar
import TreeScript.Yaml.Token.QuotedScalar

/-!
# The tokens of a text

A token is handed out when two more tokens are known behind it, and when it is known whether it is a
key. An error further on in the text does not matter to a document that ends before it, so `scan`
also gives the tokens that have been handed out before an error.
-/

namespace TreeScript.Yaml

namespace Scanner

def fetchEnd (s : Scanner) : Except SyntaxError Scanner := do
  let m := s.mark
  let m := if m.column == 0 then m else { m with line := m.line + 1, column := 0 }
  let place := { s.cursor.place with mark := m }
  let s ← { s with cursor := { s.cursor with place } }.endBlocks
  return s.push .streamEnd m m

def fetchDirective (s : Scanner) : Except SyntaxError Scanner := do
  let s ← s.endBlocks
  let (lexeme, stop, next) ← Directive.read s.cursor
  return { s.push lexeme s.mark stop with cursor := next }

def fetchDocument (s : Scanner) (lexeme : Lexeme) : Except SyntaxError Scanner := do
  let s ← s.endBlocks
  return s.take lexeme 3

def fetchFlowStart (s : Scanner) (lexeme : Lexeme) : Except SyntaxError Scanner := do
  let s ← s.saveKey
  if maxOpen ≤ s.flowDepth then s.mark.error .tooManyLevels
  return { s.take lexeme 1 with
    level := { number := s.queue.count }
    enclosing := s.level :: s.enclosing
    flowDepth := s.flowDepth + 1
    keyAllowed := true }

def fetchFlowEnd (s : Scanner) (lexeme : Lexeme) : Except SyntaxError Scanner := do
  let s ← s.dropKey
  let s := match s.enclosing with
    | [] => s
    | outer :: rest =>
      { s.release s.level.number with
        level := outer, enclosing := rest, flowDepth := s.flowDepth - 1 }
  return { s.take lexeme 1 with keyAllowed := false }

def fetchFlowEntry (s : Scanner) : Except SyntaxError Scanner := do
  let s ← s.dropKey
  return { s.take .flowEntry 1 with keyAllowed := true }

def fetchBlockEntry (s : Scanner) : Except SyntaxError Scanner := do
  let m := s.mark
  if !s.inFlow && !s.keyAllowed then m.error .misplacedEntry
  let s ← s.roll m.column none .blockSequenceStart m
  let s ← s.dropKey
  return { s.take .blockEntry 1 with keyAllowed := true }

def fetchKey (s : Scanner) : Except SyntaxError Scanner := do
  let m := s.mark
  if !s.inFlow && !s.keyAllowed then m.error .misplacedKey
  let s ← s.roll m.column none .blockMappingStart m
  let s ← s.dropKey
  return { s.take .key 1 with keyAllowed := !s.inFlow }

def fetchValue (s : Scanner) : Except SyntaxError Scanner := do
  match s.level.key with
  | some k =>
    if ← k.isOpen s.mark then
      let s := (s.insert k.number .key k.mark).clearKey.release k.number
      let s ← s.roll k.mark.column (some k.number) .blockMappingStart k.mark
      return { s.take .value 1 with keyAllowed := false }
    else afterSign s.clearKey
  | none => afterSign s
where
  /-- The key has a sign of its own, or is missing. -/
  afterSign (s : Scanner) : Except SyntaxError Scanner := do
    if !s.inFlow && !s.keyAllowed then s.mark.error .misplacedValue
    let s ← s.roll s.mark.column none .blockMappingStart s.mark
    return { s.take .value 1 with keyAllowed := !s.inFlow }

def fetchAnchor (s : Scanner) (lexeme : String → Lexeme) : Except SyntaxError Scanner := do
  let s ← s.saveKey
  let (name, next) ← Property.readAnchor s.cursor
  return { s.pushTo (lexeme name) next with keyAllowed := false }

def fetchTag (s : Scanner) : Except SyntaxError Scanner := do
  let s ← s.saveKey
  let (handle, suffix, next) ← Property.readTag s.cursor
  return { s.pushTo (.tag handle suffix) next with keyAllowed := false }

def fetchBlockScalar (s : Scanner) (literal : Bool) : Except SyntaxError Scanner := do
  let s ← s.dropKey
  let (text, next) ← BlockScalar.read literal s.indent s.cursor
  return { s.pushTo (.scalar text false) next with keyAllowed := true }

def fetchQuoted (s : Scanner) (single : Bool) : Except SyntaxError Scanner := do
  let s ← s.saveKey
  let (text, next) ← QuotedScalar.read single s.cursor
  return { s.pushTo (.scalar text false) next with keyAllowed := false }

def fetchPlain (s : Scanner) : Except SyntaxError Scanner := do
  let s ← s.saveKey
  let r ← PlainScalar.read s.inFlow (s.indent + 1) s.cursor
  return { s.push (.scalar r.text true) s.mark r.stop with
    cursor := r.next, keyAllowed := r.passedBreak }

def fetchAt (s : Scanner) (c : Char) (rest : List Char) : Except SyntaxError Scanner :=
  match c with
  | '[' => s.fetchFlowStart .flowSequenceStart
  | '\x7b' => s.fetchFlowStart .flowMappingStart
  | ']' => s.fetchFlowEnd .flowSequenceEnd
  | '\x7d' => s.fetchFlowEnd .flowMappingEnd
  | ',' => s.fetchFlowEntry
  | '-' => if atGap rest then s.fetchBlockEntry else s.fetchPlain
  | '?' => if s.inFlow || atGap rest then s.fetchKey else s.fetchPlain
  | ':' => if s.inFlow || atGap rest then s.fetchValue else s.fetchPlain
  | '*' => s.fetchAnchor .alias
  | '&' => s.fetchAnchor .anchor
  | '!' => s.fetchTag
  | '|' => if s.inFlow then s.mark.error .badStart else s.fetchBlockScalar true
  | '>' => if s.inFlow then s.mark.error .badStart else s.fetchBlockScalar false
  | '\'' => s.fetchQuoted true
  | '"' => s.fetchQuoted false
  | _ =>
    if isBlank c || ['#', '%', '@', Char.ofNat 0x60].contains c then
      s.mark.error .badStart
    else s.fetchPlain

/-- The next token, with the tokens that indentation asks for before it. A comment on the same line
belongs to the token; behind `:` in a block and `,` in a flow collection it belongs to the token
before. -/
def fetch (s : Scanner) : Except SyntaxError Scanner := do
  let s := { s with cursor := ← s.cursor.need 1 }
  let gap := s.mark
  let s ← skipGap gap (s.textLength + 1) s
  let s := s.unrollTo s.mark.column gap
  let s := { s with cursor := ← s.cursor.need 4 }
  match s.cursor.rest with
  | [] => s.fetchEnd
  | c :: rest =>
    if s.mark.column == 0 && c == '%' then s.fetchDirective
    else if s.mark.column == 0 && atDocumentIndicator (c :: rest) then
      s.fetchDocument (if c == '-' then .documentStart else .documentEnd)
    else
      let owner :=
        if (if s.inFlow then c == ',' else c == ':') then
          ((s.queue.fromEnd? 0).map (·.start)).getD s.mark
        else s.mark
      let s ← s.fetchAt c rest
      if (s.queue.fromEnd? 0).any (·.lexeme == .blockEntry) then return s
      s.readLineComment owner

/-- Hands out a token. The comments before it are given up. -/
def handOut (s : Scanner) (t : Token) (queue : Queue) : Scanner :=
  let earlier := match s.handed with
    | last :: earlier => { last with successor := s.queue.successor } :: earlier
    | [] => []
  { s.release s.queue.handed with
    queue, handed := t :: earlier, comments := Comment.dropUpTo s.comments t }

/-- Hands out a token if that is possible, and else reads one. -/
def step (s : Scanner) : Except SyntaxError Scanner := do
  if s.queue.waiting ≤ 2 then s.fetch
  else
    let (waits, s) ← s.holdsNext
    if waits then s.fetch
    else
      match s.queue.next? with
      | some (t, queue) => return s.handOut t queue
      | none => s.fetch

def isFinished (s : Scanner) : Bool :=
  match s.handed with
  | t :: _ => t.lexeme == .streamEnd
  | [] => false

def run : Nat → Scanner → Scanner × Option SyntaxError
  | 0, s => (s, none)
  | fuel + 1, s =>
    if s.isFinished then (s, none)
    else
      match s.step with
      | .ok next => run fuel next
      | .error e => (s, some e)

def start (c : Cursor) : Except SyntaxError Scanner := do
  let c ← c.need 1
  let s : Scanner := { cursor := c, textLength := c.rest.length }
  return s.push .streamStart c.mark c.mark

end Scanner

/-- The tokens of a text: all of them, or those before an error. -/
structure TokenStream where
  tokens : List Token
  error : Option SyntaxError

/-- Reads the tokens of a text. Every character makes at most one step that reads, and four
tokens. -/
def scan (text : RawText) : TokenStream :=
  match Scanner.start (.ofText text) with
  | .error e => ⟨[], some e⟩
  | .ok s =>
    let (s, error) := Scanner.run (5 * s.textLength + 20) s
    ⟨s.handed.reverse, error⟩

end TreeScript.Yaml
