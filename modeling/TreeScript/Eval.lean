import TreeScript.Interpreter
import TreeScript.Text.Quoted
import TreeScript.Text.Units

/-!
# Evaluation

Operands are evaluated from left to right, `and` and `or` skip the right operand when the left one
decides, and the first error ends the run. `execute` runs a list of statements, `interpret` also
reports the error that ended them, and `evaluate` gives the value of one expression.
-/

namespace TreeScript

def Fault.message : Fault → String
  | .unary lexeme => "evaluator: unknown unary operator " ++ Text.quoted lexeme
  | .logical lexeme => "evaluator: unknown logical operator " ++ Text.quoted lexeme
  | .binary lexeme => "evaluator: unknown binary operator " ++ Text.quoted lexeme

namespace Interpreter

variable [Machine]

def unitSum (s : String) : Double := Number.sum (Text.units s)

/-- Adds numbers and joins texts. A text beside a number counts as the sum of its code units. -/
def add (op : Token) : Value → Value → Run Value
  | .number x, .number y => .pure (.number (x + y))
  | .number x, .text t => .pure (.number (unitSum t + x))
  | .text s, .text t => .pure (.text (s ++ t))
  | .text s, .number y => .pure (.number (unitSum s + y))
  | _, _ => .fail (.badOperands op "Operands must be two numbers or two strings.")

def applyUnary (op : Token) (right : Value) : Run Value :=
  match op.kind with
  | .bang => .pure (.bool !right.isTruthy)
  | .minus =>
    match right with
    | .number x => .pure (.number (-x))
    | _ => .fail (.badOperands op "Operand must be a number.")
  | _ => .crash (.unary op.lexeme)

def applyNumeric (op : Token) (x y : Double) : Run Value :=
  match op.kind with
  | .greater => .pure (.bool (decide (y < x)))
  | .greaterEqual => .pure (.bool (decide (y ≤ x)))
  | .less => .pure (.bool (decide (x < y)))
  | .lessEqual => .pure (.bool (decide (x ≤ y)))
  | .minus => .pure (.number (x - y))
  | .star => .pure (.number (x * y))
  | .slash => if Number.isZero y then .fail (.zeroDivisor op) else .pure (.number (x / y))
  | _ => .crash (.binary op.lexeme)

def applyBinary (op : Token) (left right : Value) : Run Value :=
  match op.kind with
  | .equalEqual => .pure (.bool (left.equals right))
  | .bangEqual => .pure (.bool !left.equals right)
  | .plus => add op left right
  | _ =>
    match left, right with
    | .number x, .number y => applyNumeric op x y
    | _, _ => .fail (.badOperands op "Operands must be numbers.")

def decides (op : Token) (left : Value) : Run Bool :=
  match op.kind with
  | .orWord => .pure left.isTruthy
  | .andWord => .pure !left.isTruthy
  | _ => .crash (.logical op.lexeme)

def constant (token : Token) (l : Literal) : Run Value :=
  match l, Value.ofLiteral l with
  | _, some v => .pure v
  | .foreign typeName, none => .fail (.unsupported token typeName)
  | _, none => .pure .nil

def eval : Expr → Run Value
  | .literal token value => nested token (constant token value)
  | .grouping token inner => nested token (eval inner)
  | .unary op right => nested op do applyUnary op (← eval right)
  | .binary left op right => nested op do
    let l ← eval left
    let r ← eval right
    applyBinary op l r
  | .logical left op right => nested op do
    let l ← eval left
    if ← decides op l then pure l else eval right
  | .variable name => nested name (read name)
  | .assign name value => nested name do write name (← eval value)

@[inline] def statement (token : Token) (body : Run Unit) : Run Unit :=
  nested token do
    checkSignal token
    body

mutual

def exec : Stmt → Run Unit
  | .expression token expr => statement token do
    let _ ← eval expr
  | .print token expr => statement token do
    let v ← eval expr
    printLine v.display
  | .var name none => statement name (declare name .nil)
  | .var name (some init) => statement name do
    let v ← eval init
    declare name v
  | .ite token condition yes none => statement token do
    let c ← eval condition
    if c.isTruthy then exec yes
  | .ite token condition yes (some no) => statement token do
    let c ← eval condition
    if c.isTruthy then exec yes else exec no
  | .block token body => statement token (inScope (execute body))

def execute : List Stmt → Run Unit
  | [] => pure ()
  | s :: rest => do
    exec s
    execute rest

end

def evaluate (e : Expr) : Run Value := eval e

def interpret (program : List Stmt) : Run Unit := fun s =>
  match execute program s with
  | (.error e, s) => (.value (), { s with reported := e.report :: s.reported })
  | result => result

def defaultMaxDepth : Int := 10000

def new : Interpreter := { chain := .ofGlobal .empty, maxDepth := defaultMaxDepth }

def defineGlobal (s : Interpreter) (name : String) (value : Value) : Interpreter :=
  { s with chain := s.chain.defineGlobal name value }

end Interpreter

end TreeScript
