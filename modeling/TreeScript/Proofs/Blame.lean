import TreeScript.Proofs.Nesting

/-!
# What errors point at

Every runtime error is about one node of the tree that was run: its token is the token of that node,
its kind is one that such a node can fail with, and its message is a fixed wording for the kind of
error and the kind of node (`ErrorKind.wording`). Neither what the operands were nor where the node
stands in the tree has an influence on the error.
-/

namespace TreeScript

/-! ## Errors of a node -/

/-- The kinds of nodes, as far as errors tell them apart. A constant shows the type of its data if
that is foreign. -/
inductive Form where
  | constant (foreign : Option String)
  | grouping
  | unary
  | binary
  | logical
  | variable
  | assign
  | statement

def Construct.form : Construct → Form
  | .expression (.literal _ (.foreign typeName)) => .constant (some typeName)
  | .expression (.literal _ _) => .constant none
  | .expression (.grouping _ _) => .grouping
  | .expression (.unary _ _) => .unary
  | .expression (.binary _ _ _) => .binary
  | .expression (.logical _ _ _) => .logical
  | .expression (.variable _) => .variable
  | .expression (.assign _ _) => .assign
  | .statement _ => .statement

/-- The kinds of errors that a node itself can fail with. -/
def Construct.FailsWith : Construct → ErrorKind → Prop
  | .expression (.variable _), .undefinedVariable => True
  | .expression (.assign _ _), .undefinedVariable => True
  | .expression (.binary _ op _), .divisionByZero => op.kind = .slash
  | .expression (.unary op _), .typeError => op.kind = .minus
  | .expression (.binary _ op _), .typeError => op.kind ≠ .equalEqual ∧ op.kind ≠ .bangEqual
  | .expression (.literal _ value), .typeError => Value.ofLiteral value = none
  | .statement _, .cancelled => True
  | _, .depthExceeded => True
  | _, _ => False

/-- The message of an error of a node: the nesting limit is shown by the errors about the nesting,
and why the interpreter has been asked to stop by the errors about that. -/
def ErrorKind.wording (limit : Int) (asked : Option Cause) (token : Token) :
    ErrorKind → Form → Option String
  | .undefinedVariable, _ => some ("Undefined variable '" ++ token.lexeme ++ "'.")
  | .divisionByZero, _ => some "Division by zero."
  | .typeError, .unary => some "Operand must be a number."
  | .typeError, .binary =>
    if token.kind = .plus then some "Operands must be two numbers or two strings."
    else some "Operands must be numbers."
  | .typeError, .constant (some typeName) =>
    some ("Unsupported literal of type " ++ typeName ++ ".")
  | .cancelled, _ => asked.map fun cause => "Execution cancelled: " ++ cause.text ++ "."
  | .depthExceeded, _ => some ("Maximum nesting depth of " ++ toString limit ++ " exceeded.")
  | _, _ => none

/-- The error is about the node. -/
structure Construct.Explains (limit : Int) (asked : Option Cause) (node : Construct)
    (err : RuntimeError) : Prop where
  token : err.token = node.token
  kind : node.FailsWith err.kind
  message : err.kind.wording limit asked node.token node.form = some err.message

theorem explains_tooDeep {limit : Int} {asked : Option Cause} (node : Construct) :
    node.Explains limit asked (.tooDeep node.token limit) := by
  refine ⟨rfl, ?_, rfl⟩
  rcases node with ⟨⟨⟩⟩ | stmt <;> trivial

theorem Construct.Raises.explains {limit : Int} {asked : Option Cause} {node : Construct}
    {err : RuntimeError} (h : node.Raises limit asked err) : node.Explains limit asked err := by
  cases h with
  | tooDeep _ => exact explains_tooDeep node
  | stopped hasked => exact ⟨rfl, trivial, by rw [hasked]; rfl⟩
  | unsupported => exact ⟨rfl, rfl, rfl⟩
  | undefinedRead => exact ⟨rfl, trivial, rfl⟩
  | undefinedWrite => exact ⟨rfl, trivial, rfl⟩
  | badOperand hkind => exact ⟨rfl, hkind, rfl⟩
  | badAddends hkind =>
      refine ⟨rfl, ?_, if_pos hkind⟩
      change _ ≠ _ ∧ _ ≠ _
      rw [hkind]
      exact ⟨Token.Kind.noConfusion, Token.Kind.noConfusion⟩
  | badOperands heq hne hplus => exact ⟨rfl, ⟨heq, hne⟩, if_neg hplus⟩
  | zeroDivisor hkind => exact ⟨rfl, hkind, rfl⟩

namespace Interpreter

/-- An error that a list of statements or an expression ends in is about one of its nodes: it
carries the token of that node and is of a kind that the node can fail with, and its message follows
from the two kinds and the token, together with the nesting limit for an error about the nesting and
with the signal for an error about being asked to stop. -/
theorem error_explained [Machine] (s : Interpreter) (err : RuntimeError) :
    (∀ program : List Stmt, (execute program s).1 = .error err →
      ∃ node ∈ Stmt.listNodes program,
        node.Explains s.maxDepth (execute program s).2.signal.cause? err) ∧
    ∀ e : Expr, (evaluate e s).1 = .error err →
      ∃ node ∈ e.nodes, node.Explains s.maxDepth (evaluate e s).2.signal.cause? err := by
  constructor
  · intro program herr
    have hraises := (ends_execute program s rfl).2
    rw [herr] at hraises
    obtain ⟨node, hmem, hnode⟩ := hraises
    exact ⟨node, hmem, hnode.explains⟩
  · intro e herr
    have hraises := (ends_eval e s rfl).2
    change (eval e s).1 = _ at herr
    rw [herr] at hraises
    obtain ⟨node, hmem, hnode⟩ := hraises
    exact ⟨node, hmem, hnode.explains⟩

/-- The program `print true; { print (x); }` for an interpreter that is asked to stop during its
first write. -/
def interrupted : List Stmt :=
  [.print (.ofKind .printWord 1) (.literal (.ofKind .trueWord 1) (.bool true)),
    .block (.ofKind .leftBrace 2) parenthesized]

theorem error_explained_interrupted :
    (execute interrupted { new with signal := .afterWrites 0 }).1 =
        .error (.stopped (.ofKind .leftBrace 2) .cancelled) ∧
      ∃ node ∈ Stmt.listNodes interrupted,
        node.Explains defaultMaxDepth (some .cancelled)
          (.stopped (.ofKind .leftBrace 2) .cancelled) := by
  have herr : (execute interrupted { new with signal := .afterWrites 0 }).1 =
      .error (.stopped (.ofKind .leftBrace 2) .cancelled) := by rfl
  exact ⟨herr, (error_explained { new with signal := .afterWrites 0 } _).1 interrupted herr⟩

end Interpreter

end TreeScript
