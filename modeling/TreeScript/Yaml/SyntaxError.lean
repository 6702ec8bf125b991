/-!
# Errors in a YAML text

What is wrong with a text that holds no document, and on which line it was found.
-/

namespace TreeScript.Yaml

inductive Problem where
  | badLeadingByte
  | badTrailingByte
  | endOfBytes
  | badLength
  | badCharacter
  | endOfUnit
  | unexpectedLow
  | missingLow
  | endOfPair
  | controlCharacter
  | badStart
  | missingColon
  | misplacedValue
  | misplacedKey
  | misplacedEntry
  | tooManyLevels
  | tabInIndentation
  | documentIndicatorInScalar
  | endOfScalar
  | badEscape
  | badHexadecimal
  | badCodePoint
  | zeroIndentation
  | badHeaderEnd
  | badAnchorName
  | badTagEnd
  | missingTagUri
  | missingTagHandle
  | badTagEscape
  | badDirectiveName
  | unknownDirective
  | badDirectiveEnd
  | badVersion
  | incompatibleVersion
  | duplicateVersion
  | duplicateTagHandle
  | undefinedTagHandle
  | missingDocumentStart
  | missingContent
  | missingEntry
  | missingKey
  | missingSequenceEnd
  | missingMappingEnd
  | endOfTokens
  | unknownAnchor (name : String)
  | anchorInsideItself (name : String)
  | undecodable (tag text target : String)
  | badBase64
  | badMerge
  | collectionKey
  | excessiveAliasing
deriving DecidableEq, Repr

def Problem.text : Problem → String
  | badLeadingByte => "invalid leading UTF-8 octet"
  | badTrailingByte => "invalid trailing UTF-8 octet"
  | endOfBytes => "incomplete UTF-8 octet sequence"
  | badLength => "invalid length of a UTF-8 sequence"
  | badCharacter => "invalid Unicode character"
  | endOfUnit => "incomplete UTF-16 character"
  | unexpectedLow => "unexpected low surrogate area"
  | missingLow => "expected low surrogate area"
  | endOfPair => "incomplete UTF-16 surrogate pair"
  | controlCharacter => "control characters are not allowed"
  | badStart => "found character that cannot start any token"
  | missingColon => "could not find expected ':'"
  | misplacedValue => "mapping values are not allowed in this context"
  | misplacedKey => "mapping keys are not allowed in this context"
  | misplacedEntry => "block sequence entries are not allowed in this context"
  | tooManyLevels => "exceeded max depth of 10000"
  | tabInIndentation => "found a tab character that violates indentation"
  | documentIndicatorInScalar => "found unexpected document indicator"
  | endOfScalar => "found unexpected end of stream"
  | badEscape => "found unknown escape character"
  | badHexadecimal => "did not find expected hexdecimal number"
  | badCodePoint => "found invalid Unicode character escape code"
  | zeroIndentation => "found an indentation indicator equal to 0"
  | badHeaderEnd => "did not find expected comment or line break"
  | badAnchorName => "did not find expected alphabetic or numeric character"
  | badTagEnd => "did not find expected whitespace or line break"
  | missingTagUri => "did not find expected tag URI"
  | missingTagHandle => "did not find expected '!'"
  | badTagEscape => "did not find URI escaped octet"
  | badDirectiveName => "could not find expected directive name"
  | unknownDirective => "found unknown directive name"
  | badDirectiveEnd => "did not find expected comment or line break"
  | badVersion => "did not find expected version number"
  | incompatibleVersion => "found incompatible YAML document"
  | duplicateVersion => "found duplicate %YAML directive"
  | duplicateTagHandle => "found duplicate %TAG directive"
  | undefinedTagHandle => "found undefined tag handle"
  | missingDocumentStart => "did not find expected <document start>"
  | missingContent => "did not find expected node content"
  | missingEntry => "did not find expected '-' indicator"
  | missingKey => "did not find expected key"
  | missingSequenceEnd => "did not find expected ',' or ']'"
  | missingMappingEnd => "did not find expected ',' or '\x7d'"
  | endOfTokens => "found unexpected end of stream"
  | unknownAnchor name => "unknown anchor '" ++ name ++ "' referenced"
  | anchorInsideItself name => "anchor '" ++ name ++ "' value contains itself"
  | undecodable tag text target =>
    "cannot decode " ++ tag ++ " `" ++ text ++ "` as a " ++ target
  | badBase64 => "!!binary value contains invalid base64 data"
  | badMerge => "map merge requires map or sequence of maps as the value"
  | collectionKey => "invalid map key"
  | excessiveAliasing => "document contains excessive aliasing"

structure SyntaxError where
  line : Nat
  problem : Problem
deriving DecidableEq, Repr

def SyntaxError.message (e : SyntaxError) : String :=
  "line " ++ toString e.line ++ ": " ++ e.problem.text

end TreeScript.Yaml
