import TreeScript.Program.Layer

/-!
# From documents to programs

A document is a sequence of statements. `decode` reads a program and `decodeExpression` a single
expression from the text of a document; an empty text is an empty program.
-/

namespace TreeScript.Program

open Yaml (Node)

def decodeExpr (n : Node) : Except DecodeError Expr :=
  match _h : exprLayer n with
  | .error e => .error e
  | .ok (.literal token value) => .ok (.literal token value)
  | .ok (.grouping token inner) => do
    return .grouping token (← decodeExpr inner)
  | .ok (.unary op right) => do
    return .unary op (← decodeExpr right)
  | .ok (.binary left op right) => do
    let l ← decodeExpr left
    let r ← decodeExpr right
    return .binary l op r
  | .ok (.logical left op right) => do
    let l ← decodeExpr left
    let r ← decodeExpr right
    return .logical l op r
  | .ok (.variable name) => .ok (.variable name)
  | .ok (.assign name value) => do
    return .assign name (← decodeExpr value)
termination_by sizeOf n
decreasing_by all_goals exact sizeOf_exprLayer _h (by simp [ExprLayer.children])

mutual

def decodeStmt (n : Node) : Except DecodeError Stmt :=
  match _h : stmtLayer n with
  | .error e => .error e
  | .ok (.expression expr) => do
    let e ← decodeExpr expr
    return .expression e.token e
  | .ok (.print token expr) => do
    return .print token (← decodeExpr expr)
  | .ok (.var name none) => .ok (.var name none)
  | .ok (.var name (some init)) => do
    return .var name (some (← decodeExpr init))
  | .ok (.ite token condition yes none) => do
    let c ← decodeExpr condition
    let y ← decodeStmt yes
    return .ite token c y none
  | .ok (.ite token condition yes (some no)) => do
    let c ← decodeExpr condition
    let y ← decodeStmt yes
    let n ← decodeStmt no
    return .ite token c y (some n)
  | .ok (.block token body) => do
    return .block token (← decodeStmts body)
termination_by sizeOf n
decreasing_by all_goals exact sizeOf_stmtLayer _h (by simp [StmtLayer.children])

def decodeStmts (n : Node) : Except DecodeError (List Stmt) :=
  match _h : n.deref with
  | .sequence _ items => decodeItems items
  | other => refuse other .notStatements
termination_by sizeOf n
decreasing_by
  have := sizeOf_deref_le n
  rw [_h] at this
  simp only [Node.sequence.sizeOf_spec] at this
  omega

def decodeItems (items : List Node) : Except DecodeError (List Stmt) :=
  match items with
  | [] => .ok []
  | item :: rest => do
    let s ← decodeStmt item
    let ss ← decodeItems rest
    return s :: ss
termination_by sizeOf items

end

inductive ReadError where
  /-- The text is no document. -/
  | notDocument (what : String) (e : Yaml.SyntaxError)
  /-- The document is no program. -/
  | notProgram (e : DecodeError)

def ReadError.message : ReadError → String
  | .notDocument what e => "parsing " ++ what ++ ": yaml: " ++ e.message
  | .notProgram e => e.message

def ReadError.isEndless : ReadError → Bool
  | .notDocument _ _ => false
  | .notProgram e => e.complaint == .endless

def readRoot (what : String) (text : RawText) : Except ReadError (Option Node) :=
  (Node.ofText text).mapError (.notDocument what)

def decode? (text : RawText) : Except ReadError (Option (List Stmt)) := do
  match ← readRoot "program" text with
  | none => return none
  | some root => return some (← (decodeStmts root).mapError .notProgram)

def decode (text : RawText) : Except ReadError (List Stmt) := do
  return (← decode? text).getD []

def decodeExpression (text : RawText) : Except ReadError Expr := do
  match ← readRoot "expression" text with
  | none => .error (.notProgram ⟨⟨1, 1⟩, .emptyExpression⟩)
  | some root => (decodeExpr root).mapError .notProgram

end TreeScript.Program
