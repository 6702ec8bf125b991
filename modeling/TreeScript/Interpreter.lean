import TreeScript.RuntimeError
import TreeScript.Scope.Chain

/-!
# The state of an interpreter

An interpreter holds its environments, the number of nodes it is inside of, a limit on that
number, a signal that may ask it to stop, and what it has written. `Run` is a computation on that
state which ends in a value, in a runtime error, or in a fault of the program tree itself. The state
is kept in all three cases.
-/

namespace TreeScript

inductive Cause where
  | cancelled
  | deadline
deriving DecidableEq, Repr

def Cause.text : Cause → String
  | .cancelled => "context canceled"
  | .deadline => "context deadline exceeded"

def RuntimeError.stopped (token : Token) (cause : Cause) : RuntimeError :=
  ⟨.cancelled, token, "Execution cancelled: " ++ cause.text ++ "."⟩

inductive Signal where
  /-- Nobody can ask it to stop. -/
  | absent
  /-- Nobody has asked it to stop. -/
  | live
  /-- It has been asked to stop. -/
  | ended (cause : Cause)
  /-- It will be asked to stop during the write that follows `n` more writes. -/
  | afterWrites (n : Nat)
  /-- It will be asked to stop after the look that follows `n` more looks at the signal. -/
  | afterLooks (n : Nat) (cause : Cause)
deriving DecidableEq, Repr

namespace Signal

def cause? : Signal → Option Cause
  | .ended cause => some cause
  | _ => none

def written : Signal → Signal
  | .afterWrites 0 => .ended .cancelled
  | .afterWrites (n + 1) => .afterWrites n
  | s => s

def looked : Signal → Signal
  | .afterLooks 0 cause => .ended cause
  | .afterLooks (n + 1) cause => .afterLooks n cause
  | s => s

end Signal

/-- A node with an operator that its kind of node does not know. -/
inductive Fault where
  | unary (lexeme : String)
  | logical (lexeme : String)
  | binary (lexeme : String)
deriving DecidableEq, Repr

inductive Outcome (α : Type) where
  | value (a : α)
  | error (e : RuntimeError)
  | fault (f : Fault)

structure Interpreter where
  chain : Chain
  /-- The number of statements and expressions that are being run. -/
  level : Nat := 0
  /-- The largest level, without limit if it is not positive. -/
  maxDepth : Int
  signal : Signal := .absent
  /-- The printed lines, last one first. -/
  printed : List String := []
  /-- The reported errors, last one first. -/
  reported : List String := []

abbrev Run (α : Type) : Type := Interpreter → Outcome α × Interpreter

namespace Run

@[inline] def pure (a : α) : Run α := fun s => (.value a, s)

/-- Goes on with `next` if `run` ends in a value. -/
@[inline] def bind (run : Run α) (next : α → Run β) : Run β := fun s =>
  match run s with
  | (.value a, s) => next a s
  | (.error e, s) => (.error e, s)
  | (.fault f, s) => (.fault f, s)

@[inline] def fail (e : RuntimeError) : Run α := fun s => (.error e, s)

@[inline] def crash (f : Fault) : Run α := fun s => (.fault f, s)

end Run

instance : Monad Run where
  pure := Run.pure
  bind := Run.bind

namespace Interpreter

def descend (s : Interpreter) : Interpreter := { s with level := s.level + 1 }

def ascend (s : Interpreter) : Interpreter := { s with level := s.level - 1 }

def tooDeep (s : Interpreter) : Bool := decide (0 < s.maxDepth) && decide (s.maxDepth < s.level)

/-- Runs the body of a node one level deeper, unless that is too deep. The level is left again
however the body ends. -/
@[inline] def nested (token : Token) (body : Run α) : Run α := fun s =>
  let s := s.descend
  if s.tooDeep then (.error (.tooDeep token s.maxDepth), s.ascend)
  else
    match body s with
    | (outcome, s) => (outcome, s.ascend)

/-- Runs `body` in a new scope. The environment before it is the current one again however the body
ends. -/
@[inline] def inScope (body : Run α) : Run α := fun s =>
  let previous := s.chain.current
  match body { s with chain := s.chain.enter } with
  | (outcome, s) => (outcome, { s with chain := s.chain.leave previous })

def checkSignal (token : Token) : Run Unit := fun s =>
  match s.signal.cause? with
  | some cause => (.error (.stopped token cause), s)
  | none => (.value (), { s with signal := s.signal.looked })

def read (name : Token) : Run Value := fun s =>
  match s.chain.read name with
  | .ok v => (.value v, s)
  | .error e => (.error e, s)

def write (name : Token) (value : Value) : Run Value := fun s =>
  match s.chain.assign name value with
  | .ok chain => (.value value, { s with chain })
  | .error e => (.error e, s)

def declare (name : Token) (value : Value) : Run Unit := fun s =>
  (.value (), { s with chain := s.chain.define name.lexeme value })

def printLine (line : String) : Run Unit := fun s =>
  (.value (), { s with printed := line :: s.printed, signal := s.signal.written })

def output (s : Interpreter) : String := String.join (s.printed.reverse.map (· ++ "\n"))

def errors (s : Interpreter) : String := String.join (s.reported.reverse.map (· ++ "\n"))

end Interpreter

end TreeScript
