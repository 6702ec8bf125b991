import TreeScript.Scope.Forest

/-!
# The environments of a run

A run works on one forest of environments. It knows the global environment and the current one; the
scopes that are visible at a point of a program are those from the current environment outwards. A
block makes a new environment inside the current one and goes back to the one before when it ends.
-/

namespace TreeScript

/-- The environments made so far, with the numbers of the global and of the current one. -/
structure Chain where
  forest : Forest
  root : Nat
  current : Nat

namespace Chain

def ofGlobal (scope : Scope) : Chain := ⟨.ofScope scope, 0, 0⟩

def globals (c : Chain) : Scope := c.forest.scope c.root

def depth (c : Chain) : Nat := c.forest.depth c.current

def atGlobals (c : Chain) : Bool := c.current == c.root

def read (c : Chain) (name : Token) : Except RuntimeError Value := c.forest.read c.current name

def assign (c : Chain) (name : Token) (value : Value) : Except RuntimeError Chain :=
  (c.forest.assign c.current name value).map fun forest => { c with forest }

def define (c : Chain) (name : String) (value : Value) : Chain :=
  { c with forest := c.forest.define c.current name value }

def defineGlobal (c : Chain) (name : String) (value : Value) : Chain :=
  { c with forest := c.forest.define c.root name value }

def enter (c : Chain) : Chain :=
  { c with forest := c.forest.enclose c.current, current := c.forest.size }

def leave (c : Chain) (previous : Nat) : Chain := { c with current := previous }

end Chain

end TreeScript
