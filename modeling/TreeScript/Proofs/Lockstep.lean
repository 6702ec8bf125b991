import TreeScript.Proofs.Comparison

/-!
# Runs from the same environments

Two runs from states that differ only in what the runs do not look at. Expressions look at the
environments and the nesting alone; statements look at the signal too. What has been written so far
makes no difference to either of them.
-/

namespace TreeScript

theorem Chain.read_cases (c : Chain) (name : Token) :
    (∃ v, c.read name = .ok v) ∨ c.read name = .error (.undefined name) := by
  unfold read Forest.read
  split
  next v _ => exact .inl ⟨v, rfl⟩
  next => exact .inr rfl

theorem Chain.assign_cases (c : Chain) (name : Token) (value : Value) :
    (∃ c', c.assign name value = .ok c') ∨
      c.assign name value = .error (.undefined name) := by
  unfold assign Forest.assign
  cases c.forest.resolve? c.current name.lexeme with
  | some i => exact .inl ⟨_, rfl⟩
  | none => exact .inr rfl

namespace Comparison

variable {C : Comparison} {α β : Type} {place : C.Place}

structure SharesChain (C : Comparison) : Prop where
  value : C.value = Eq
  error : C.error = Eq
  name : C.name = Eq
  scope : C.scope = id
  chain : ∀ {place s t}, C.state place s t → t.chain = s.chain
  setChain : ∀ {place s t}, C.state place s t → ∀ chain,
    C.state place { s with chain } { t with chain }

namespace SharesChain

variable (h : C.SharesChain) {s t : Interpreter} {name name' : Token} {v w : Value}

include h

theorem congruence [Machine] : Value.Congruence C.value := h.value ▸ Value.congruence_eq

theorem error_of_tokens {token token' : Token} (htoken : C.Tokens token token')
    (kind : ErrorKind) (message : String) :
    C.error ⟨kind, token, message⟩ ⟨kind, token', message⟩ := by
  rw [Tokens, h.name] at htoken
  rw [h.error]
  obtain rfl | rfl := htoken
  · rfl
  · rfl

theorem undefined (hname : C.name name name') : C.error (.undefined name) (.undefined name') := by
  rw [h.name] at hname
  rw [h.error, hname]

theorem lookup (hst : C.state place s t) (hname : C.name name name') :
    (∃ v w, s.chain.read name = .ok v ∧ t.chain.read name' = .ok w ∧ C.value v w) ∨
      s.chain.read name = .error (.undefined name) ∧
        t.chain.read name' = .error (.undefined name') := by
  rw [h.name] at hname
  rw [h.chain hst, ← hname, h.value]
  exact (s.chain.read_cases name).imp (fun ⟨v, hv⟩ => ⟨v, v, hv, hv, rfl⟩) fun he => ⟨he, he⟩

theorem assign (hst : C.state place s t) (hname : C.name name name') (hvw : C.value v w) :
    (∃ chain chain', s.chain.assign name v = .ok chain ∧ t.chain.assign name' w = .ok chain' ∧
        C.state place { s with chain } { t with chain := chain' }) ∨
      s.chain.assign name v = .error (.undefined name) ∧
        t.chain.assign name' w = .error (.undefined name') := by
  rw [h.name] at hname
  rw [h.value] at hvw
  rw [h.chain hst, ← hname, ← hvw]
  exact (s.chain.assign_cases name v).imp
    (fun ⟨chain, hchain⟩ => ⟨chain, chain, hchain, hchain, h.setChain hst chain⟩)
    fun he => ⟨he, he⟩

theorem define (hst : C.state place s t) (hname : C.name name name') (hvw : C.value v w) :
    C.state place { s with chain := s.chain.define name.lexeme v }
      { t with chain := t.chain.define name'.lexeme w } := by
  rw [h.name] at hname
  rw [h.value] at hvw
  rw [h.chain hst, ← hname, ← hvw]
  exact h.setChain hst _

theorem enter (hst : C.state place s t) :
    C.state (C.scope place) { s with chain := s.chain.enter }
      { t with chain := t.chain.enter } := by
  rw [h.scope, h.chain hst]
  exact h.setChain hst _

theorem leave {s' t' : Interpreter} (hst : C.state place s t)
    (hafter : C.state (C.scope place) s' t') :
    C.state place { s' with chain := s'.chain.leave s.chain.current }
      { t' with chain := t'.chain.leave t.chain.current } := by
  rw [h.scope] at hafter
  rw [h.chain hafter, h.chain hst]
  exact h.setChain hafter _

end SharesChain

end Comparison

variable {R : Interpreter → Interpreter → Prop} {α : Type}

def Comparison.lockstep (R : Interpreter → Interpreter → Prop) : Comparison where
  Place := Unit
  state _ := R

/-- A relation between states that are the same for expressions. -/
structure Lockstep (R : Interpreter → Interpreter → Prop) : Prop where
  chain : ∀ {s t}, R s t → t.chain = s.chain
  level : ∀ {s t}, R s t → t.level = s.level
  maxDepth : ∀ {s t}, R s t → t.maxDepth = s.maxDepth
  setChain : ∀ {s t}, R s t → ∀ chain, R { s with chain } { t with chain }
  setLevel : ∀ {s t}, R s t → ∀ level, R { s with level } { t with level }

structure StatementLockstep (R : Interpreter → Interpreter → Prop) : Prop extends Lockstep R where
  cause : ∀ {s t}, R s t → t.signal.cause? = s.signal.cause?
  look : ∀ {s t}, R s t →
    R { s with signal := s.signal.looked } { t with signal := t.signal.looked }
  printLine : ∀ {s t}, R s t → ∀ line,
    R { s with printed := line :: s.printed, signal := s.signal.written }
      { t with printed := line :: t.printed, signal := t.signal.written }

open Comparison (lockstep)

/-- From two states that `R` relates, the computation ends in the same way, and again in two states
that `R` relates. -/
def Run.Agrees (R : Interpreter → Interpreter → Prop) (run : Run α) : Prop :=
  ∀ s t, R s t → (run t).1 = (run s).1 ∧ R (run s).2 (run t).2

theorem Comparison.Compares.agrees {run : Run α} (h : (lockstep R).Compares () Eq run run) :
    run.Agrees R :=
  fun s t hst => (h s t hst).eq rfl fun _ _ => id

theorem Lockstep.sharesChain (h : Lockstep R) : (lockstep R).SharesChain :=
  ⟨rfl, rfl, rfl, rfl, h.chain, h.setChain⟩

theorem Lockstep.tooDeep_descend (h : Lockstep R) {s t : Interpreter} (hst : R s t) :
    t.descend.tooDeep = s.descend.tooDeep := by
  unfold Interpreter.tooDeep Interpreter.descend
  rw [h.level hst, h.maxDepth hst]

variable [Machine]

theorem Lockstep.onExpressions (h : Lockstep R) : (lockstep R).OnExpressions where
  descend {_ s t} hst := by
    change R { s with level := s.level + 1 } { t with level := t.level + 1 }
    rw [h.level hst]
    exact h.setLevel hst _
  ascend {_ s t} hst := by
    change R { s with level := s.level - 1 } { t with level := t.level - 1 }
    rw [h.level hst]
    exact h.setLevel hst _
  tooDeep hst hdeep := .inr ⟨(h.tooDeep_descend hst).trans hdeep, h.maxDepth hst⟩
  opens hst hopen := (h.tooDeep_descend hst).trans hopen
  ungroup := False.elim
  congruence := h.sharesChain.congruence
  error htoken _ := h.sharesChain.error_of_tokens htoken _ _
  undefined := h.sharesChain.undefined
  lookup := h.sharesChain.lookup
  assign := h.sharesChain.assign

theorem StatementLockstep.onStatements (h : StatementLockstep R) : (lockstep R).OnStatements where
  toOnExpressions := h.toLockstep.onExpressions
  cause := h.cause
  look := h.look
  enter := h.toLockstep.sharesChain.enter
  leave hst hafter _ _ := h.toLockstep.sharesChain.leave hst hafter
  define hst _ := h.toLockstep.sharesChain.define hst
  print := h.printLine
  declares_node _ := trivial
  declares_scope _ := trivial

/-! ## Runs -/

theorem Lockstep.compares_eval (h : Lockstep R) (e : Expr) :
    (lockstep R).Compares () Eq (Interpreter.eval e) (Interpreter.eval e) :=
  h.onExpressions.eval (.refl (fun _ => rfl) e) ()

theorem Lockstep.eval (h : Lockstep R) (e : Expr) : Run.Agrees R (Interpreter.eval e) :=
  (h.compares_eval e).agrees

theorem StatementLockstep.exec (h : StatementLockstep R) (stmt : Stmt) :
    Run.Agrees R (Interpreter.exec stmt) :=
  (h.onStatements.exec_self (fun _ => rfl) stmt () (.inl trivial)).agrees

theorem StatementLockstep.execute (h : StatementLockstep R) (program : List Stmt) :
    Run.Agrees R (Interpreter.execute program) :=
  (h.onStatements.execute_self (fun _ => rfl) program () (.inl trivial)).agrees

end TreeScript
