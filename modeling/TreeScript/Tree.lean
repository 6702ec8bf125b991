import TreeScript.Token

/-!
# Programs as trees

Expressions and statements. Every node has a token, which is what error messages point at.
-/

namespace TreeScript

/-- Expressions. An assignment changes an existing variable and has the assigned value. -/
inductive Expr where
  | literal (token : Token) (value : Literal)
  | grouping (token : Token) (inner : Expr)
  | unary (op : Token) (right : Expr)
  | binary (left : Expr) (op : Token) (right : Expr)
  | logical (left : Expr) (op : Token) (right : Expr)
  | variable (name : Token)
  | assign (name : Token) (value : Expr)
deriving DecidableEq

def Expr.token : Expr → Token
  | .literal token _ => token
  | .grouping token _ => token
  | .unary op _ => op
  | .binary _ op _ => op
  | .logical _ op _ => op
  | .variable name => name
  | .assign name _ => name

/-- Statements. A block has a scope of its own; a declaration binds in the scope it stands in. -/
inductive Stmt where
  | expression (token : Token) (expr : Expr)
  | print (token : Token) (expr : Expr)
  | var (name : Token) (init : Option Expr)
  | ite (token : Token) (condition : Expr) (yes : Stmt) (no : Option Stmt)
  | block (token : Token) (body : List Stmt)

def Stmt.token : Stmt → Token
  | .expression token _ => token
  | .print token _ => token
  | .var name _ => name
  | .ite token _ _ _ => token
  | .block token _ => token

structure Program where
  file : String
  statements : List Stmt

def Program.firstLexeme (p : Program) : String :=
  match p.statements with
  | [] => ""
  | s :: _ => s.token.lexeme

end TreeScript
