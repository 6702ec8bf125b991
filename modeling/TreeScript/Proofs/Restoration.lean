import TreeScript.Proofs.Forest
import TreeScript.Proofs.Account

/-!
# Scope and level are given back

However a run ends, the current environment and the level are those before it, and no environment
has lost its link or a name. An interpreter that is between two calls is therefore always in its
global environment and inside of no node, whatever was done with it before.
-/

namespace TreeScript

/-- What a run keeps of the state it starts in. -/
structure Interpreter.Restores (s t : Interpreter) : Prop where
  current : t.chain.current = s.chain.current
  root : t.chain.root = s.chain.root
  level : t.level = s.level
  forest : s.chain.forest.Extends t.chain.forest

/-- What a run keeps beside that. Nobody can ask the interpreter to stop who could not before. -/
structure Interpreter.Keeps (s t : Interpreter) : Prop extends s.Restores t where
  maxDepth : t.maxDepth = s.maxDepth
  signal : s.signal = .absent → t.signal = .absent
  reported : t.reported = s.reported

theorem Chain.assign_eq {c c' : Chain} {name : Token} {value : Value}
    (h : c.assign name value = .ok c') :
    ∃ forest, c.forest.assign c.current name value = .ok forest ∧ c' = { c with forest } := by
  unfold assign at h
  cases hassign : c.forest.assign c.current name value with
  | error e => rw [hassign] at h; cases h
  | ok forest => rw [hassign] at h; cases h; exact ⟨forest, rfl, rfl⟩

namespace Interpreter

theorem Keeps.stepClosed : StepClosed Keeps where
  refl s := ⟨⟨rfl, rfl, rfl, .refl _⟩, rfl, id, rfl⟩
  trans hst htu := by
    refine ⟨⟨htu.current.trans hst.current, htu.root.trans hst.root, htu.level.trans hst.level,
      hst.forest.trans htu.forest⟩, htu.maxDepth.trans hst.maxDepth, ?_,
      htu.reported.trans hst.reported⟩
    exact fun h => htu.signal (hst.signal h)
  nested {s t} h := by
    have hlevel : t.level = s.level + 1 := h.level
    exact ⟨⟨h.current, h.root, by simp [ascend, hlevel], h.forest⟩, h.maxDepth, h.signal,
      h.reported⟩
  inScope {s t} h :=
    ⟨⟨rfl, h.root, h.level, (Forest.extends_enclose _ _).trans h.forest⟩, h.maxDepth, h.signal,
      h.reported⟩
  look s := ⟨⟨rfl, rfl, rfl, .refl _⟩, rfl, fun h => by simp only [h, Signal.looked], rfl⟩
  write {s name value chain} h := by
    obtain ⟨forest, hassign, rfl⟩ := Chain.assign_eq h
    exact ⟨⟨rfl, rfl, rfl, Forest.extends_assign hassign⟩, rfl, id, rfl⟩
  declare s name value := ⟨⟨rfl, rfl, rfl, Forest.extends_define _ _ _ _⟩, rfl, id, rfl⟩
  printLine s line :=
    ⟨⟨rfl, rfl, rfl, .refl _⟩, rfl, fun h => by simp only [h, Signal.written], rfl⟩

theorem keeps_decides (op : Token) (l : Value) : Run.Respects Keeps (decides op l) :=
  Keeps.stepClosed.static_respects (static_decides op l)

theorem Restores.names_globals {s t : Interpreter} (h : s.Restores t) :
    s.chain.globals.names ⊆ t.chain.globals.names := by
  intro name hname
  rw [Scope.mem_names, Chain.globals] at hname ⊢
  rw [h.root]
  exact h.forest.isSome_find? hname

variable [Machine]

theorem keeps_eval (e : Expr) (s : Interpreter) : s.Keeps (eval e s).2 := Keeps.stepClosed.eval e s

theorem keeps_exec (stmt : Stmt) (s : Interpreter) : s.Keeps (exec stmt s).2 :=
  Keeps.stepClosed.exec stmt s

theorem keeps_execute (program : List Stmt) (s : Interpreter) : s.Keeps (execute program s).2 :=
  Keeps.stepClosed.execute program s

theorem keeps_part {S : Type} {A : Account S} {α : Type} {run : Run α} {told : S}
    (h : A.Part run told) : run.Respects Keeps := by
  cases h with
  | eval e => exact keeps_eval e
  | decides op l => exact keeps_decides op l
  | look token => exact Keeps.stepClosed.checkSignal_respects token

end Interpreter

/-! ## Interpreters between two calls -/

/-- The interpreter is in its global environment, which is inside of no other, and in no node. -/
structure Interpreter.AtRest (s : Interpreter) : Prop where
  current : s.chain.current = s.chain.root
  level : s.level = 0
  outermost : ∃ e, s.chain.forest.get? s.chain.root = some e ∧ e.outer = none

namespace Interpreter.AtRest

theorem of_restores {s t : Interpreter} (h : s.AtRest) (hst : s.Restores t) : t.AtRest := by
  obtain ⟨e, he, ho⟩ := h.outermost
  obtain ⟨e', he', ho', -⟩ := hst.forest _ e he
  refine ⟨?_, hst.level.trans h.level, e', ?_, ho'.trans ho⟩
  · rw [hst.current, hst.root, h.current]
  · rw [hst.root, he']

theorem scopes_eq {s : Interpreter} (h : s.AtRest) :
    s.chain.forest.scopes s.chain.current = [s.chain.globals] := by
  obtain ⟨e, he, ho⟩ := h.outermost
  rw [h.current, Forest.scopes_root he ho, Chain.globals, Forest.scope_of_get? he]

theorem depth_eq_one {s : Interpreter} (h : s.AtRest) : s.chain.depth = 1 := by
  rw [Chain.depth, ← Forest.length_scopes, h.scopes_eq]
  rfl

theorem atGlobals {s : Interpreter} (h : s.AtRest) : s.chain.atGlobals = true := by
  simp [Chain.atGlobals, h.current]

theorem new : Interpreter.new.AtRest := ⟨rfl, rfl, _, rfl, rfl⟩

end Interpreter.AtRest

/-! ## Sessions -/

namespace Session

/-- What can be done with an interpreter: the three kinds of calls, and the changes that are allowed
between them. -/
inductive Action where
  | interpret (program : List Stmt)
  | execute (program : List Stmt)
  | evaluate (expr : Expr)
  | setMaxDepth (maxDepth : Int)
  | setSignal (signal : Signal)
  | define (name : String) (value : Value)

variable [Machine]

def Action.apply (s : Interpreter) : Action → Interpreter
  | .interpret program => (Interpreter.interpret program s).2
  | .execute program => (Interpreter.execute program s).2
  | .evaluate expr => (Interpreter.evaluate expr s).2
  | .setMaxDepth maxDepth => { s with maxDepth }
  | .setSignal signal => { s with signal }
  | .define name value => s.defineGlobal name value

def after (actions : List Action) : Interpreter := actions.foldl Action.apply .new

theorem restores_interpret (program : List Stmt) (s : Interpreter) :
    s.Restores (Interpreter.interpret program s).2 := by
  have h := (Interpreter.keeps_execute program s).toRestores
  unfold Interpreter.interpret
  split
  next e t heq => rw [heq] at h; exact ⟨h.current, h.root, h.level, h.forest⟩
  next => exact h

theorem restores_apply (s : Interpreter) (action : Action) : s.Restores (action.apply s) := by
  cases action with
  | interpret program => exact restores_interpret program s
  | execute program => exact (Interpreter.keeps_execute program s).toRestores
  | evaluate expr => exact (Interpreter.keeps_eval expr s).toRestores
  | setMaxDepth maxDepth => exact ⟨rfl, rfl, rfl, .refl _⟩
  | setSignal signal => exact ⟨rfl, rfl, rfl, .refl _⟩
  | define name value => exact ⟨rfl, rfl, rfl, Forest.extends_define _ _ _ _⟩

theorem root_after (actions : List Action) : (after actions).chain.root = 0 := by
  have hfold : ∀ s : Interpreter,
      (actions.foldl Action.apply s).chain.root = s.chain.root := by
    intro s
    induction actions generalizing s with
    | nil => rfl
    | cons action rest ih => exact (ih _).trans (restores_apply s action).root
  exact hfold .new

theorem atRest_foldl (actions : List Action) {s : Interpreter} (h : s.AtRest) :
    (actions.foldl Action.apply s).AtRest := by
  induction actions generalizing s with
  | nil => exact h
  | cons action rest ih => exact ih (h.of_restores (restores_apply s action))

/-- Every interpreter of a session is at rest after each action. -/
theorem atRest_after (actions : List Action) : (after actions).AtRest :=
  atRest_foldl actions .new

/-- After every action of every session the current environment is the global one of the new
interpreter, no node is open, and no global name has been lost. The same is kept by every single
expression and statement, whatever the state it is run in and however it ends. -/
theorem scope_and_level_restored :
    (∀ (actions : List Action) (action : Action),
      let s := after actions
      s.chain.current = Interpreter.new.chain.root ∧
        s.chain.root = Interpreter.new.chain.root ∧ s.chain.atGlobals = true ∧
        s.chain.depth = 1 ∧ s.level = 0 ∧
        s.chain.globals.names ⊆ (action.apply s).chain.globals.names) ∧
    (∀ (e : Expr) (s : Interpreter),
      (Interpreter.eval e s).2.chain.current = s.chain.current ∧
        (Interpreter.eval e s).2.level = s.level) ∧
    (∀ (stmt : Stmt) (s : Interpreter),
      (Interpreter.exec stmt s).2.chain.current = s.chain.current ∧
        (Interpreter.exec stmt s).2.level = s.level) ∧
    ∀ (program : List Stmt) (s : Interpreter),
      (Interpreter.execute program s).2.chain.current = s.chain.current ∧
        (Interpreter.execute program s).2.level = s.level := by
  refine ⟨fun actions action => ?_, fun e s => ?_, fun stmt s => ?_, fun program s => ?_⟩
  · have hrest := atRest_after actions
    have hroot : (after actions).chain.root = Interpreter.new.chain.root := root_after actions
    exact ⟨hrest.current.trans hroot, hroot, hrest.atGlobals, hrest.depth_eq_one, hrest.level,
      (restores_apply _ action).names_globals⟩
  · have h := Interpreter.keeps_eval e s
    exact ⟨h.current, h.level⟩
  · have h := Interpreter.keeps_exec stmt s
    exact ⟨h.current, h.level⟩
  · have h := Interpreter.keeps_execute program s
    exact ⟨h.current, h.level⟩

end Session

end TreeScript
