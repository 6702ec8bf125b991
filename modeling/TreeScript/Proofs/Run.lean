import TreeScript.Eval

/-!
# Computations

What a computation does that is put together from two, and what can be said of those that just end:
operators and constants do not even look at the state (`Run.Static`), and they do not complain about
a name (`Run.Plain`). `Stmt.induction` is induction over statements and lists of statements at once.
-/

namespace TreeScript

theorem Stmt.induction {P : Stmt → Prop} {Q : List Stmt → Prop}
    (expression : ∀ token expr, P (.expression token expr))
    (print : ∀ token expr, P (.print token expr))
    (varNil : ∀ name, P (.var name none))
    (varInit : ∀ name init, P (.var name (some init)))
    (iteNone : ∀ token condition yes, P yes → P (.ite token condition yes none))
    (iteSome : ∀ token condition yes no, P yes → P no → P (.ite token condition yes (some no)))
    (block : ∀ token body, Q body → P (.block token body))
    (nil : Q []) (cons : ∀ stmt rest, P stmt → Q rest → Q (stmt :: rest)) :
    (∀ stmt, P stmt) ∧ ∀ program, Q program :=
  Interpreter.exec.mutual_induct P Q expression print varNil varInit iteNone iteSome block nil cons

namespace Run

variable {α β : Type}

/-- The computation ends in the same way from every state, and leaves it as it is. -/
def Static (run : Run α) : Prop := ∃ outcome, ∀ s, run s = (outcome, s)

/-- The computation just ends, and does not complain about a name. -/
inductive Plain : Run α → Prop where
  | pure (a) : Plain (Run.pure a)
  | fail {e} : e.kind ≠ .undefinedVariable → Plain (Run.fail e)
  | crash (f) : Plain (Run.crash f)

theorem static_pure (a : α) : Static (Run.pure a) := ⟨.value a, fun _ => rfl⟩

theorem Plain.static {run : Run α} (h : run.Plain) : run.Static := by
  cases h with
  | pure a => exact static_pure a
  | fail _ => exact ⟨_, fun _ => rfl⟩
  | crash f => exact ⟨.fault f, fun _ => rfl⟩

theorem bind_of_value {run : Run α} {s t : Interpreter} {a : α} (h : run s = (.value a, t))
    (next : α → Run β) : (run >>= next) s = next a t := by
  change Run.bind run next s = _
  simp only [Run.bind, h]

theorem bind_of_error {run : Run α} {s t : Interpreter} {e : RuntimeError}
    (h : run s = (.error e, t)) (next : α → Run β) : (run >>= next) s = (.error e, t) := by
  change Run.bind run next s = _
  simp only [Run.bind, h]

theorem bind_of_fault {run : Run α} {s t : Interpreter} {f : Fault}
    (h : run s = (.fault f, t)) (next : α → Run β) : (run >>= next) s = (.fault f, t) := by
  change Run.bind run next s = _
  simp only [Run.bind, h]

def Respects (R : Interpreter → Interpreter → Prop) (run : Run α) : Prop :=
  ∀ s, R s (run s).2

end Run

namespace Interpreter

open Run (Plain Static)

theorem plain_constant (token : Token) (l : Literal) : Plain (constant token l) := by
  unfold constant
  split
  · exact .pure _
  · exact .fail nofun
  · exact .pure _

theorem plain_decides (op : Token) (left : Value) : Plain (decides op left) := by
  unfold decides
  split
  · exact .pure _
  · exact .pure _
  · exact .crash _

section

variable [Machine]

theorem plain_applyUnary (op : Token) (right : Value) : Plain (applyUnary op right) := by
  unfold applyUnary
  split
  · exact .pure _
  · split
    · exact .pure _
    · exact .fail nofun
  · exact .crash _

theorem plain_add (op : Token) (left right : Value) : Plain (add op left right) := by
  unfold add
  split <;> first | exact .pure _ | exact .fail nofun

theorem plain_applyNumeric (op : Token) (x y : Double) : Plain (applyNumeric op x y) := by
  unfold applyNumeric
  split
  case h_7 =>
    split
    · exact .fail nofun
    · exact .pure _
  all_goals first | exact .pure _ | exact .crash _

theorem plain_applyBinary (op : Token) (left right : Value) :
    Plain (applyBinary op left right) := by
  unfold applyBinary
  split
  · exact .pure _
  · exact .pure _
  · exact plain_add op left right
  · split
    · exact plain_applyNumeric op _ _
    · exact .fail nofun

theorem static_applyUnary (op : Token) (right : Value) : Static (applyUnary op right) :=
  (plain_applyUnary op right).static

theorem static_applyBinary (op : Token) (left right : Value) :
    Static (applyBinary op left right) :=
  (plain_applyBinary op left right).static

end

theorem static_constant (token : Token) (l : Literal) : Static (constant token l) :=
  (plain_constant token l).static

theorem static_decides (op : Token) (left : Value) : Static (decides op left) :=
  (plain_decides op left).static

theorem nested_of_nonpos {α : Type} {s : Interpreter} {token : Token} {body : Run α}
    (h : s.maxDepth ≤ 0) :
    nested token body s = ((body s.descend).1, (body s.descend).2.ascend) := by
  have hnot : ¬ 0 < s.maxDepth := by omega
  simp [nested, tooDeep, descend, hnot]

end Interpreter

end TreeScript
