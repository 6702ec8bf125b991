import TreeScript.Yaml.Cursor

/-!
# Tokens of a YAML text

The pieces a text is made of. Besides the signs that stand in the text there are tokens for what
indentation means: where a block collection starts and where it ends.
-/

namespace TreeScript.Yaml

inductive Lexeme where
  | streamStart
  | streamEnd
  | version (major minor : Nat)
  | tagShorthand (handle uri : String)
  | documentStart
  | documentEnd
  | blockSequenceStart
  | blockMappingStart
  | blockEnd
  | flowSequenceStart
  | flowSequenceEnd
  | flowMappingStart
  | flowMappingEnd
  | blockEntry
  | flowEntry
  | key
  | value
  | alias (name : String)
  | anchor (name : String)
  | tag (handle suffix : String)
  | scalar (text : String) (plain : Bool)
deriving DecidableEq, Repr

structure Token where
  lexeme : Lexeme
  start : Mark
  stop : Mark
  /-- The start of the token that stands in the same slot of the queue once the next token has been
  handed out. -/
  successor : Mark := start
deriving DecidableEq, Repr

end TreeScript.Yaml
