import TreeScript.Scope
import TreeScript.RuntimeError

/-!
# Environments that share what is around them

A forest holds environments, numbered in the order in which they were made. An environment is a
scope and, unless it is a root, the number of an older environment around it. Several environments
may stand inside the same one and see each other's changes to it.
-/

namespace TreeScript

/-- A scope and the number of the environment around it. -/
structure Environment where
  scope : Scope
  outer : Option Nat

/-- The environments made so far, by number. Links lead to older environments. -/
structure Forest where
  members : Array Environment
  older : ∀ (i : Nat) (e : Environment) (o : Nat), members[i]? = some e → e.outer = some o → o < i

namespace Forest

def empty : Forest := ⟨#[], by simp⟩

def ofScope (scope : Scope) : Forest where
  members := #[⟨scope, none⟩]
  older := by
    intro i e o hi ho
    cases i with
    | zero => cases hi; cases ho
    | succ i => simp at hi

def size (f : Forest) : Nat := f.members.size

def get? (f : Forest) (i : Nat) : Option Environment := f.members[i]?

def scope (f : Forest) (i : Nat) : Scope := ((f.get? i).map (·.scope)).getD .empty

def addRoot (f : Forest) : Forest where
  members := f.members.push ⟨Scope.empty, none⟩
  older := by
    intro i e o hi ho
    rw [Array.getElem?_push] at hi
    split at hi
    · cases hi; cases ho
    · exact f.older i e o hi ho

/-- Adds an environment inside number `outer`; there is no such environment if the number is not
in use yet, and then a root is added. -/
def enclose (f : Forest) (outer : Nat) : Forest where
  members := f.members.push ⟨Scope.empty, if outer < f.members.size then some outer else none⟩
  older := by
    intro i e o hi ho
    rw [Array.getElem?_push] at hi
    split at hi
    · rename_i h
      cases hi
      simp only at ho
      split at ho
      · cases ho; omega
      · cases ho
    · exact f.older i e o hi ho

def path (f : Forest) (i : Nat) : List Nat :=
  match _hi : f.members[i]? with
  | none => []
  | some e =>
    match _ho : e.outer with
    | none => [i]
    | some o => i :: path f o
termination_by i
decreasing_by exact f.older _ _ _ _hi _ho

def depth (f : Forest) (i : Nat) : Nat := (f.path i).length

def binds (f : Forest) (name : String) (i : Nat) : Bool :=
  match f.get? i with
  | some e => (e.scope.find? name).isSome
  | none => false

/-- The nearest environment from `i` outwards whose scope binds a name. -/
def resolve? (f : Forest) (i : Nat) (name : String) : Option Nat := (f.path i).find? (f.binds name)

def define (f : Forest) (i : Nat) (name : String) (value : Value) : Forest where
  members := f.members.modify i fun e => { e with scope := e.scope.define name value }
  older := by
    intro j e o hj ho
    rw [Array.getElem?_modify] at hj
    split at hj
    · obtain ⟨e', he', rfl⟩ := Option.map_eq_some_iff.1 hj
      exact f.older j e' o he' ho
    · exact f.older j e o hj ho

def read (f : Forest) (i : Nat) (name : Token) : Except RuntimeError Value :=
  match (f.resolve? i name.lexeme).bind fun j =>
      (f.get? j).bind fun e => e.scope.find? name.lexeme with
  | some v => .ok v
  | none => .error (.undefined name)

/-- Changes the binding of a name seen from number `i`; it never makes one. -/
def assign (f : Forest) (i : Nat) (name : Token) (value : Value) : Except RuntimeError Forest :=
  match f.resolve? i name.lexeme with
  | some j => .ok (f.define j name.lexeme value)
  | none => .error (.undefined name)

def names (f : Forest) (i : Nat) : List String :=
  match f.get? i with
  | some e => e.scope.names
  | none => []

def outer? (f : Forest) (i : Nat) : Option Nat := (f.get? i).bind (·.outer)

end Forest

end TreeScript
