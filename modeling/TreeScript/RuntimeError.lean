import TreeScript.Tree

/-!
# Runtime errors

What stops a run: the kind of the error, the token it points at and a message.
-/

namespace TreeScript

/-- The kinds of runtime errors. A number without a meaning is a kind of its own. -/
inductive ErrorKind where
  | typeError
  | divisionByZero
  | undefinedVariable
  | cancelled
  | depthExceeded
  | other (code : Int)
deriving DecidableEq, Repr

namespace ErrorKind

def all : List ErrorKind :=
  [typeError, divisionByZero, undefinedVariable, cancelled, depthExceeded]

/-- The kind with a number; the first one has the number one. -/
def ofCode : Int → ErrorKind
  | 1 => typeError
  | 2 => divisionByZero
  | 3 => undefinedVariable
  | 4 => cancelled
  | 5 => depthExceeded
  | n => other n

def name : ErrorKind → String
  | typeError => "TypeError"
  | divisionByZero => "DivisionByZero"
  | undefinedVariable => "UndefinedVariable"
  | cancelled => "Cancelled"
  | depthExceeded => "DepthExceeded"
  | other code => "ErrorKind(" ++ toString code ++ ")"

end ErrorKind

structure RuntimeError where
  kind : ErrorKind
  token : Token
  message : String
deriving DecidableEq

namespace RuntimeError

def report (e : RuntimeError) : String :=
  e.message ++ "\n[line " ++ toString e.token.line ++ "]"

def undefined (name : Token) : RuntimeError :=
  ⟨.undefinedVariable, name, "Undefined variable '" ++ name.lexeme ++ "'."⟩

def badOperands (op : Token) (message : String) : RuntimeError := ⟨.typeError, op, message⟩

def zeroDivisor (op : Token) : RuntimeError := ⟨.divisionByZero, op, "Division by zero."⟩

def unsupported (token : Token) (typeName : String) : RuntimeError :=
  ⟨.typeError, token, "Unsupported literal of type " ++ typeName ++ "."⟩

def tooDeep (token : Token) (limit : Int) : RuntimeError :=
  ⟨.depthExceeded, token, "Maximum nesting depth of " ++ toString limit ++ " exceeded."⟩

end RuntimeError

end TreeScript
