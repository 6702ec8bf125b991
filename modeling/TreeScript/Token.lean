import TreeScript.Number

/-!
# Tokens

A token names a construct of a program and says on which line it stands. The kinds are the words
and signs of the language; any other spelling is a kind of its own.
-/

namespace TreeScript

/-- A constant. `foreign` stands for data of a type that is no constant of the language. -/
inductive Literal where
  | nil
  | bool (b : Bool)
  | number (x : Double)
  | integer (i : Int)
  | text (s : String)
  | foreign (typeName : String)
deriving DecidableEq

def Literal.general : Literal → String
  | .nil => "<nil>"
  | .bool b => if b then "true" else "false"
  | .number x => Number.general x
  | .integer i => toString i
  | .text s => s
  | .foreign typeName => typeName

namespace Token

inductive Kind where
  | illegal | endOfFile
  | identifier | string | number
  | minus | plus | slash | star
  | bang | bangEqual | equal | equalEqual
  | greater | greaterEqual | less | lessEqual
  | leftParen | rightParen | leftBrace | rightBrace | semicolon
  | andWord | orWord | trueWord | falseWord | nilWord
  | varWord | printWord | ifWord | elseWord
  | other (spelling : String)
deriving DecidableEq, Repr

namespace Kind

def text : Kind → String
  | illegal => "ILLEGAL"
  | endOfFile => "EOF"
  | identifier => "IDENTIFIER"
  | string => "STRING"
  | number => "NUMBER"
  | minus => "-"
  | plus => "+"
  | slash => "/"
  | star => "*"
  | bang => "!"
  | bangEqual => "!="
  | equal => "="
  | equalEqual => "=="
  | greater => ">"
  | greaterEqual => ">="
  | less => "<"
  | lessEqual => "<="
  | leftParen => "("
  | rightParen => ")"
  | leftBrace => "\x7b"
  | rightBrace => "\x7d"
  | semicolon => ";"
  | andWord => "and"
  | orWord => "or"
  | trueWord => "true"
  | falseWord => "false"
  | nilWord => "nil"
  | varWord => "var"
  | printWord => "print"
  | ifWord => "if"
  | elseWord => "else"
  | other spelling => spelling

def operators : List Kind :=
  [minus, plus, slash, star, bang, bangEqual, equal, equalEqual, greater, greaterEqual, less,
    lessEqual, andWord, orWord]

def keywords : List Kind :=
  [andWord, orWord, trueWord, falseWord, nilWord, varWord, printWord, ifWord, elseWord]

def named : List Kind :=
  [illegal, endOfFile, identifier, string, number, minus, plus, slash, star, bang, bangEqual, equal,
    equalEqual, greater, greaterEqual, less, lessEqual, leftParen, rightParen, leftBrace,
    rightBrace, semicolon, andWord, orWord, trueWord, falseWord, nilWord, varWord, printWord,
    ifWord, elseWord]

def ofText (s : String) : Kind := (named.find? (·.text == s)).getD (other s)

def operator? (s : String) : Option Kind := operators.find? (·.text == s)

def ofWord (s : String) : Kind := (keywords.find? (·.text == s)).getD identifier

end Kind

end Token

/-- A token. Lines count from one; the column is zero where it is unknown. -/
structure Token where
  kind : Token.Kind
  lexeme : String
  literal : Literal := .nil
  line : Int
  column : Nat := 0
deriving DecidableEq

namespace Token

def ofKind (kind : Kind) (line : Int) : Token := ⟨kind, kind.text, .nil, line, 0⟩

def ofName (name : String) (line : Int) : Token := ⟨.identifier, name, .nil, line, 0⟩

def describe (t : Token) : String := t.kind.text ++ " " ++ t.lexeme ++ " " ++ t.literal.general

end Token

end TreeScript
