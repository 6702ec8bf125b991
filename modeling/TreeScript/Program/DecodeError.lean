import TreeScript.Text.Quoted
import TreeScript.Yaml.Node

/-!
# Errors in a program document

What can be wrong with a document that should hold a program, and where in the document it is.
-/

namespace TreeScript.Program

inductive Complaint where
  | notStatements
  | notVariant
  | notMapping
  | unknownField (name : String) (allowed : List String)
  | duplicateField (name : String)
  | missingField (name : String)
  | badLine
  | noText (what : String)
  | reserved (what name : String)
  | unknownStatement (kind : String)
  | unknownExpression (kind : String)
  | literalNotScalar
  | badNumber (text : String)
  | badBoolean (text : String)
  | unsupportedTag (tag : String)
  | unsupportedOperator (text : String)
  | emptyExpression
  /-- The node is inside itself, and there is no end to reading it. -/
  | endless
deriving DecidableEq, Repr

/-- The complaint in words. Field names are listed in alphabetical order. -/
def Complaint.message : Complaint → String
  | notStatements => "expected a sequence of statements"
  | notVariant => "expected a mapping with exactly one key naming the node kind"
  | notMapping => "expected a mapping"
  | unknownField name allowed =>
    "unknown field " ++ Text.quoted name ++ " (allowed: " ++
      String.intercalate ", " (allowed.mergeSort fun a b => decide (a ≤ b)) ++ ")"
  | duplicateField name => "duplicate field " ++ Text.quoted name
  | missingField name => "missing field " ++ Text.quoted name
  | badLine => "line must be a positive integer"
  | noText what => what ++ " must be a non-empty string"
  | reserved what name => what ++ " " ++ Text.quoted name ++ " is a reserved word"
  | unknownStatement kind => "unknown statement kind " ++ Text.quoted kind
  | unknownExpression kind => "unknown expression kind " ++ Text.quoted kind
  | literalNotScalar => "literal must be a scalar"
  | badNumber text => "invalid number " ++ Text.quoted text
  | badBoolean text => "invalid boolean " ++ Text.quoted text
  | unsupportedTag tag => "unsupported literal tag " ++ tag
  | unsupportedOperator text => "unsupported operator " ++ Text.quoted text
  | emptyExpression => "empty expression"
  | endless => "stack overflow"

structure DecodeError where
  position : Yaml.Position
  complaint : Complaint
deriving DecidableEq, Repr

def DecodeError.message (e : DecodeError) : String :=
  "line " ++ toString e.position.line ++ ":" ++ toString e.position.column ++ ": " ++
    e.complaint.message

def complain (n : Yaml.Node) (complaint : Complaint) : Except DecodeError α :=
  .error ⟨n.position, complaint⟩

/-- The complaint about a node of the wrong shape. A node inside itself has no shape: there is no
end to looking for it. -/
def Complaint.about (complaint : Complaint) : Yaml.Node → Complaint
  | .endless _ => .endless
  | _ => complaint

def refuse (n : Yaml.Node) (complaint : Complaint) : Except DecodeError α :=
  complain n (complaint.about n)

end TreeScript.Program
