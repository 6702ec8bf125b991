import TreeScript.Proofs.Format
import TreeScript.Proofs.Spelling
import TreeScript.Proofs.WellFormed

/-!
# Canonical documents

`encode` writes a program as a document, by recursion on its tree and in the words of the format.
All trees of the language whose tokens are those of their nodes are `Expressible`. The `outline` of
a tree is what a document says about it: columns, the lexemes of literals and the bits of a NaN are
left out.
-/

namespace TreeScript

open Program (Format.Table Format.reservedWords)

/-! ## What a document says about a tree -/

def Token.Kind.isConstant : Token.Kind → Bool
  | .number | .string | .trueWord | .falseWord | .nilWord => true
  | _ => false

def Literal.outline : Literal → Literal
  | .number x => .number (Yaml.Scalar.representative x)
  | value => value

/-- The token without its column, and without its lexeme if it stands for a constant. -/
def Token.outline (t : Token) : Token :=
  { t with
    lexeme := if t.kind.isConstant then "" else t.lexeme
    literal := t.literal.outline
    column := 0 }

def Expr.outline : Expr → Expr
  | .literal token value => .literal token.outline value.outline
  | .grouping token inner => .grouping token.outline inner.outline
  | .unary op right => .unary op.outline right.outline
  | .binary left op right => .binary left.outline op.outline right.outline
  | .logical left op right => .logical left.outline op.outline right.outline
  | .variable name => .variable name.outline
  | .assign name value => .assign name.outline value.outline

mutual

def Stmt.outline : Stmt → Stmt
  | .expression token expr => .expression token.outline expr.outline
  | .print token expr => .print token.outline expr.outline
  | .var name none => .var name.outline none
  | .var name (some init) => .var name.outline (some init.outline)
  | .ite token condition yes none => .ite token.outline condition.outline (Stmt.outline yes) none
  | .ite token condition yes (some no) =>
    .ite token.outline condition.outline (Stmt.outline yes) (some (Stmt.outline no))
  | .block token body => .block token.outline (Stmt.outlines body)

def Stmt.outlines : List Stmt → List Stmt
  | [] => []
  | stmt :: rest => Stmt.outline stmt :: Stmt.outlines rest

end

theorem Expr.token_outline (e : Expr) : e.outline.token = e.token.outline := by
  cases e <;> rfl

/-! ## Trees that documents can hold -/

def IsLine (line : Int) : Prop := 1 ≤ line ∧ line ≤ Yaml.Scalar.maxInt

instance (line : Int) : Decidable (IsLine line) :=
  inferInstanceAs (Decidable (1 ≤ line ∧ line ≤ Yaml.Scalar.maxInt))

structure Token.Marks (mark : Token.Kind) (t : Token) : Prop where
  kind : t.kind = mark
  lexeme : t.lexeme = mark.text
  literal : t.literal = .nil
  line : IsLine t.line

structure Token.IsListed (table : Format.Table) (t : Token) : Prop where
  listed : (t.lexeme, t.kind) ∈ table
  literal : t.literal = .nil
  line : IsLine t.line

structure Token.IsIdentifier (t : Token) : Prop where
  kind : t.kind = .identifier
  nonempty : t.lexeme ≠ ""
  unreserved : t.lexeme ∉ Format.reservedWords
  literal : t.literal = .nil
  line : IsLine t.line

structure Token.IsConstant (value : Literal) (t : Token) : Prop where
  shown : value.ShownBy t.kind
  literal : t.literal = value
  line : IsLine t.line

open Program.Format (unaryTable binaryTable logicalTable)

def Expr.Expressible : Expr → Prop
  | .literal token value => token.IsConstant value
  | .grouping token inner => token.Marks .leftParen ∧ inner.Expressible
  | .unary op right => op.IsListed unaryTable ∧ right.Expressible
  | .binary left op right => op.IsListed binaryTable ∧ left.Expressible ∧ right.Expressible
  | .logical left op right => op.IsListed logicalTable ∧ left.Expressible ∧ right.Expressible
  | .variable name => name.IsIdentifier
  | .assign name value => name.IsIdentifier ∧ value.Expressible

mutual

/-- Whether the tokens of a statement are those of its nodes. The token of an expression that stands
as a statement is the one of the expression. -/
def Stmt.Expressible : Stmt → Prop
  | .expression token expr => token = expr.token ∧ expr.Expressible
  | .print token expr => token.Marks .printWord ∧ expr.Expressible
  | .var name none => name.IsIdentifier
  | .var name (some init) => name.IsIdentifier ∧ init.Expressible
  | .ite token condition yes none =>
    token.Marks .ifWord ∧ condition.Expressible ∧ Stmt.Expressible yes
  | .ite token condition yes (some no) =>
    token.Marks .ifWord ∧ condition.Expressible ∧ Stmt.Expressible yes ∧ Stmt.Expressible no
  | .block token body => token.Marks .leftBrace ∧ Stmt.AllExpressible body

def Stmt.AllExpressible : List Stmt → Prop
  | [] => True
  | stmt :: rest => Stmt.Expressible stmt ∧ Stmt.AllExpressible rest

end

/-! ## Documents -/

namespace Program.Canonical

open Yaml (Label Node Scalar)

def label (line : Nat) (tag : String) : Label := ⟨⟨line, 1⟩, tag, none⟩

def scalar (tag text : String) : Node := .scalar (label 1 tag) text

def kindKey (line : Int) (kind : String) : Node := .scalar (label line.toNat "!!str") kind

def node (line : Int) (kind : String) (body : Node) : Node :=
  .mapping (label 1 "!!map") [(kindKey line kind, body)]

abbrev Fields : Type := List (String × Node)

def entries (line : Int) (fields : Fields) : List (Node × Node) :=
  let digits := String.ofList (Decimal.digitsOf line.toNat)
  (("line", scalar "!!int" digits) :: fields).map fun field => (scalar "!!str" field.1, field.2)

def fieldsBody (line : Int) (fields : Fields) : Node :=
  .mapping (label 1 "!!map") (entries line fields)

def record (line : Int) (kind : String) (fields : Fields) : Node :=
  node 1 kind (fieldsBody line fields)

def constant : Literal → Node
  | .nil | .integer _ | .foreign _ => scalar "!!null" "null"
  | .bool b => scalar "!!bool" (if b then "true" else "false")
  | .number x => scalar "!!float" (Scalar.spelling x)
  | .text s => scalar "!!str" s

def encodeExpr : Expr → Node
  | .literal token value => node token.line "literal" (constant value)
  | .grouping token inner => node token.line "grouping" (encodeExpr inner)
  | .unary op right =>
    record op.line "unary" [("op", scalar "!!str" op.lexeme), ("right", encodeExpr right)]
  | .binary left op right =>
    record op.line "binary"
      [("op", scalar "!!str" op.lexeme), ("left", encodeExpr left), ("right", encodeExpr right)]
  | .logical left op right =>
    record op.line "logical"
      [("op", scalar "!!str" op.lexeme), ("left", encodeExpr left), ("right", encodeExpr right)]
  | .variable name => record name.line "variable" [("name", scalar "!!str" name.lexeme)]
  | .assign name value =>
    record name.line "assign"
      [("name", scalar "!!str" name.lexeme), ("value", encodeExpr value)]

mutual

def encodeStmt : Stmt → Node
  | .expression _ expr => node 1 "expression" (encodeExpr expr)
  | .print token expr => node token.line "print" (encodeExpr expr)
  | .var name none => record name.line "var" [("name", scalar "!!str" name.lexeme)]
  | .var name (some init) =>
    record name.line "var" [("name", scalar "!!str" name.lexeme), ("init", encodeExpr init)]
  | .ite token condition yes none =>
    record token.line "if" [("condition", encodeExpr condition), ("then", encodeStmt yes)]
  | .ite token condition yes (some no) =>
    record token.line "if"
      [("condition", encodeExpr condition), ("then", encodeStmt yes), ("else", encodeStmt no)]
  | .block token body => node token.line "block" (.sequence (label 1 "!!seq") (encodeStmts body))

def encodeStmts : List Stmt → List Node
  | [] => []
  | stmt :: rest => encodeStmt stmt :: encodeStmts rest

end

/-- The canonical document of a program. -/
def encode (program : List Stmt) : Node := .sequence (label 1 "!!seq") (encodeStmts program)

end Program.Canonical

end TreeScript
