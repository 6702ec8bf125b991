import TreeScript.Tree

/-!
# Values

What expressions evaluate to: nothing, truth values, numbers and texts.
-/

namespace TreeScript

inductive Value where
  | nil
  | bool (b : Bool)
  | number (x : Double)
  | text (s : String)
deriving DecidableEq

namespace Value

def ofLiteral : Literal → Option Value
  | .nil => some .nil
  | .bool b => some (.bool b)
  | .number x => some (.number x)
  | .integer i => some (.number (Number.ofInt i))
  | .text s => some (.text s)
  | .foreign _ => none

def kindName : Value → String
  | nil => "NIL"
  | bool _ => "BOOLEAN"
  | number _ => "NUMBER"
  | text _ => "STRING"

def display : Value → String
  | nil => "nil"
  | bool b => if b then "true" else "false"
  | number x => Number.display x
  | text s => s

/-- Whether a condition holds: `nil` and `false` do not, everything else does. -/
def isTruthy : Value → Bool
  | nil => false
  | bool b => b
  | _ => true

/-- Equality of values. Values of different kinds are never equal. -/
def equals : Value → Value → Bool
  | nil, nil => true
  | bool a, bool b => a == b
  | number x, number y => Number.same x y
  | text s, text t => s == t
  | _, _ => false

end Value

end TreeScript
