import TreeScript.Tree
import TreeScript.Yaml.Node

/-!
# The format of program documents

Which documents stand for a program, and for which one, told without an algorithm: `IsExpr`,
`IsStmt` and `IsProgram` relate documents without aliases to trees. Which scalars make a literal is
a parameter of the relations.
-/

namespace TreeScript.Program

open Yaml (Node Scalar)

namespace Format

/-! ## Fields -/

abbrev Entries : Type := List (Node × Node)

/-- A mapping with one key, which names a kind. -/
def Variant (n : Node) (kind : String) (key body : Node) : Prop :=
  key.text = kind ∧ ∃ label, n = .mapping label [(key, body)]

/-- A mapping whose keys are allowed names, each of them once at most. -/
structure Record (body : Node) (allowed : List String) (entries : Entries) : Prop where
  mapping : ∃ label, body = .mapping label entries
  known : ∀ entry ∈ entries, entry.1.text ∈ allowed
  distinct : entries.Pairwise fun a b => a.1.text ≠ b.1.text

def Field (entries : Entries) (name : String) (value : Node) : Prop :=
  ∃ key, (key, value) ∈ entries ∧ key.text = name

def Absent (entries : Entries) (name : String) : Prop := ∀ entry ∈ entries, entry.1.text ≠ name

/-- The line of a token: a positive integer in the field `line`, or else the line of the kind. -/
inductive Line (entries : Entries) (key : Node) : Int → Prop where
  | given {label text meaning line} : Field entries "line" (.scalar label text) →
    Scalar.ofTag label.tag text = some meaning → meaning.integer? = some line → 1 ≤ line →
    Line entries key line
  | default : Absent entries "line" → Line entries key key.position.line

/-! ## Words and signs -/

def reservedWords : List String :=
  ["and", "or", "true", "false", "nil", "var", "print", "if", "else"]

inductive Name : Node → String → Prop where
  | text {label name} : label.tag = "!!str" → name ≠ "" → name ∉ reservedWords →
    Name (.scalar label name) name

abbrev Table : Type := List (String × Token.Kind)

def unaryTable : Table := [("-", .minus), ("!", .bang)]

def logicalTable : Table := [("and", .andWord), ("or", .orWord)]

def binaryTable : Table :=
  [("-", .minus), ("+", .plus), ("/", .slash), ("*", .star), ("!=", .bangEqual),
    ("==", .equalEqual), (">", .greater), (">=", .greaterEqual), ("<", .less), ("<=", .lessEqual)]

inductive Operator (table : Table) (entries : Entries) (line : Int) : Token → Prop where
  | field {label text kind} : Field entries "op" (.scalar label text) → (text, kind) ∈ table →
    Operator table entries line ⟨kind, text, .nil, line, label.position.column⟩

/-! ## Literals -/

/-- Which literals scalars make: the tag, the text, and the kind, the lexeme and the constant of the
literal. -/
abbrev Literals : Type := String → String → Token.Kind → String → Literal → Prop

/-- Numbers and truth values are converted, texts stand for themselves, and the tag alone makes a
null. -/
inductive Tagged (tag text : String) : Token.Kind → String → Literal → Prop where
  | number {meaning x} : tag = "!!int" ∨ tag = "!!float" → Scalar.ofTag tag text = some meaning →
    meaning.number? = some x → Tagged tag text .number text (.number x)
  | text : tag = "!!str" → Tagged tag text .string text (.text text)
  | yes : tag = "!!bool" → Scalar.ofTag tag text = some (.bool true) →
    Tagged tag text .trueWord text (.bool true)
  | no : tag = "!!bool" → Scalar.ofTag tag text = some (.bool false) →
    Tagged tag text .falseWord text (.bool false)
  | null : tag = "!!null" → Tagged tag text .nilWord "nil" .nil

/-- The same, but the text has to be one that its tag allows, for a null too. -/
def Converted (tag text : String) (kind : Token.Kind) (lexeme : String) (value : Literal) : Prop :=
  Tagged tag text kind lexeme value ∧ ∃ meaning, Scalar.ofTag tag text = some meaning

/-! ## Trees -/

inductive IsExpr (literals : Literals) : Node → Expr → Prop where
  | literal {n key label text kind lexeme value} : Variant n "literal" key (.scalar label text) →
    literals label.tag text kind lexeme value →
    IsExpr literals n
      (.literal ⟨kind, lexeme, value, key.position.line, label.position.column⟩ value)
  | grouping {n key body inner} : Variant n "grouping" key body → IsExpr literals body inner →
    IsExpr literals n (.grouping (.ofKind .leftParen key.position.line) inner)
  | unary {n key body entries line op right r} : Variant n "unary" key body →
    Record body ["op", "line", "right"] entries → Line entries key line →
    Operator unaryTable entries line op → Field entries "right" right → IsExpr literals right r →
    IsExpr literals n (.unary op r)
  | binary {n key body entries line op left right l r} : Variant n "binary" key body →
    Record body ["op", "line", "left", "right"] entries → Line entries key line →
    Operator binaryTable entries line op → Field entries "left" left →
    Field entries "right" right → IsExpr literals left l → IsExpr literals right r →
    IsExpr literals n (.binary l op r)
  | logical {n key body entries line op left right l r} : Variant n "logical" key body →
    Record body ["op", "line", "left", "right"] entries → Line entries key line →
    Operator logicalTable entries line op → Field entries "left" left →
    Field entries "right" right → IsExpr literals left l → IsExpr literals right r →
    IsExpr literals n (.logical l op r)
  | name {n key body name} : Variant n "variable" key body → Name body name →
    IsExpr literals n (.variable (.ofName name key.position.line))
  | variable {n key body entries named name line} : Variant n "variable" key body →
    Record body ["name", "line"] entries → Field entries "name" named → Name named name →
    Line entries key line → IsExpr literals n (.variable (.ofName name line))
  | assign {n key body entries named name line value v} : Variant n "assign" key body →
    Record body ["name", "line", "value"] entries → Field entries "name" named →
    Name named name → Line entries key line → Field entries "value" value →
    IsExpr literals value v → IsExpr literals n (.assign (.ofName name line) v)

mutual

inductive IsStmt (literals : Literals) : Node → Stmt → Prop where
  | expression {n key body e} : Variant n "expression" key body → IsExpr literals body e →
    IsStmt literals n (.expression e.token e)
  | print {n key body e} : Variant n "print" key body → IsExpr literals body e →
    IsStmt literals n (.print (.ofKind .printWord key.position.line) e)
  | varNil {n key body entries named name line} : Variant n "var" key body →
    Record body ["name", "line", "init"] entries → Field entries "name" named →
    Name named name → Line entries key line → Absent entries "init" →
    IsStmt literals n (.var (.ofName name line) none)
  | varInit {n key body entries named name line init e} : Variant n "var" key body →
    Record body ["name", "line", "init"] entries → Field entries "name" named →
    Name named name → Line entries key line → Field entries "init" init →
    IsExpr literals init e → IsStmt literals n (.var (.ofName name line) (some e))
  | iteNone {n key body entries line condition yes c y} : Variant n "if" key body →
    Record body ["condition", "then", "else", "line"] entries → Line entries key line →
    Field entries "condition" condition → Field entries "then" yes → Absent entries "else" →
    IsExpr literals condition c → IsStmt literals yes y →
    IsStmt literals n (.ite (.ofKind .ifWord line) c y none)
  | iteSome {n key body entries line condition yes no c y m} : Variant n "if" key body →
    Record body ["condition", "then", "else", "line"] entries → Line entries key line →
    Field entries "condition" condition → Field entries "then" yes → Field entries "else" no →
    IsExpr literals condition c → IsStmt literals yes y → IsStmt literals no m →
    IsStmt literals n (.ite (.ofKind .ifWord line) c y (some m))
  | block {n key body program} : Variant n "block" key body → IsProgram literals body program →
    IsStmt literals n (.block (.ofKind .leftBrace key.position.line) program)

/-- The document of a program: a sequence of statements. -/
inductive IsProgram (literals : Literals) : Node → List Stmt → Prop where
  | sequence {label items program} : AreStmts literals items program →
    IsProgram literals (.sequence label items) program

inductive AreStmts (literals : Literals) : List Node → List Stmt → Prop where
  | nil : AreStmts literals [] []
  | cons {item rest stmt program} : IsStmt literals item stmt → AreStmts literals rest program →
    AreStmts literals (item :: rest) (stmt :: program)

end

end Format

end TreeScript.Program
