import Mathlib
import TreeScript.Proofs.Lockstep
import TreeScript.Proofs.Nesting

/-!
# Programs without groupings

A grouping has the value of what it groups, and its token is shown by no error except the one about
the nesting. `Expr.ungroup` and `Stmt.ungroup` put in the place of every grouping what stands in it.
A run of the result is the run of the original program one or more levels higher up, so it is the
same run unless the original one comes to a node beyond the nesting limit.
-/

namespace TreeScript

/-- The expression with the inner expression in the place of every grouping. -/
def Expr.ungroup : Expr → Expr
  | .literal token value => .literal token value
  | .grouping _ inner => inner.ungroup
  | .unary op right => .unary op right.ungroup
  | .binary left op right => .binary left.ungroup op right.ungroup
  | .logical left op right => .logical left.ungroup op right.ungroup
  | .variable name => .variable name
  | .assign name value => .assign name value.ungroup

def Expr.groupings : Expr → Nat
  | .literal _ _ => 0
  | .grouping _ inner => inner.groupings + 1
  | .unary _ right => right.groupings
  | .binary left _ right => left.groupings + right.groupings
  | .logical left _ right => left.groupings + right.groupings
  | .variable _ => 0
  | .assign _ value => value.groupings

mutual

def Stmt.ungroup : Stmt → Stmt
  | .expression token expr => .expression token expr.ungroup
  | .print token expr => .print token expr.ungroup
  | .var name none => .var name none
  | .var name (some init) => .var name (some init.ungroup)
  | .ite token condition yes none => .ite token condition.ungroup yes.ungroup none
  | .ite token condition yes (some no) => .ite token condition.ungroup yes.ungroup (some no.ungroup)
  | .block token body => .block token (Stmt.ungroupAll body)

def Stmt.ungroupAll : List Stmt → List Stmt
  | [] => []
  | stmt :: rest => stmt.ungroup :: Stmt.ungroupAll rest

end

mutual

def Stmt.groupings : Stmt → Nat
  | .expression _ expr => expr.groupings
  | .print _ expr => expr.groupings
  | .var _ none => 0
  | .var _ (some init) => init.groupings
  | .ite _ condition yes none => condition.groupings + yes.groupings
  | .ite _ condition yes (some no) => condition.groupings + (yes.groupings + no.groupings)
  | .block _ body => Stmt.listGroupings body

def Stmt.listGroupings : List Stmt → Nat
  | [] => 0
  | stmt :: rest => stmt.groupings + Stmt.listGroupings rest

end

/-! ## No grouping is left -/

@[simp]
theorem Expr.groupings_ungroup (e : Expr) : e.ungroup.groupings = 0 := by
  induction e with
  | literal token value => rfl
  | grouping token inner ih => exact ih
  | unary op right ih => exact ih
  | binary left op right ihl ihr => simp only [ungroup, groupings, ihl, ihr]
  | logical left op right ihl ihr => simp only [ungroup, groupings, ihl, ihr]
  | «variable» name => rfl
  | assign name value ih => exact ih

theorem Stmt.groupings_ungroup_and_ungroupAll :
    (∀ stmt : Stmt, stmt.ungroup.groupings = 0) ∧
      ∀ program : List Stmt, Stmt.listGroupings (Stmt.ungroupAll program) = 0 := by
  apply Stmt.induction
  case expression =>
    intro token expr
    exact expr.groupings_ungroup
  case print =>
    intro token expr
    exact expr.groupings_ungroup
  case varNil =>
    intro name
    rfl
  case varInit =>
    intro name init
    exact init.groupings_ungroup
  case iteNone =>
    intro token condition yes hyes
    simp only [ungroup, groupings, Expr.groupings_ungroup, hyes]
  case iteSome =>
    intro token condition yes no hyes hno
    simp only [ungroup, groupings, Expr.groupings_ungroup, hyes, hno]
  case block =>
    intro token body hbody
    exact hbody
  case nil => rfl
  case cons =>
    intro stmt rest hstmt hrest
    simp only [ungroupAll, listGroupings, hstmt, hrest]

/-! ## Runs that are less deep -/

namespace Interpreter

def atLevel (s : Interpreter) (level : Nat) : Interpreter := { s with level }

theorem atLevel_of_level_eq {s : Interpreter} {level : Nat} (h : s.level = level) :
    s.atLevel level = s := by
  subst h
  rfl

theorem tooDeep_atLevel {s : Interpreter} {level : Nat} (hle : level ≤ s.level)
    (h : s.tooDeep = false) : (s.atLevel level).tooDeep = false := by
  simp only [tooDeep, Bool.and_eq_false_iff, decide_eq_false_iff_not] at h ⊢
  change ¬ 0 < s.maxDepth ∨ ¬ s.maxDepth < ((level : Nat) : Int)
  omega

end Interpreter

/-- The second run is at a level of its own, which is not deeper. Once the first one has nested too
deeply, nothing is said of the second one. -/
def Comparison.lifting : Comparison where
  Place := Nat × Nat
  node place := (place.1 + 1, place.2 + 1)
  state place s t := s.level = place.1 ∧ place.2 ≤ place.1 ∧ t = s.atLevel place.2
  excused e := e.kind = .depthExceeded
  ungroups := True

namespace Comparison

variable {place : Nat × Nat} {s t : Interpreter}

theorem sharesChain_lifting : lifting.SharesChain where
  value := rfl
  error := rfl
  name := rfl
  scope := rfl
  chain h := congrArg (·.chain) h.2.2
  setChain h chain := ⟨h.1, h.2.1, congrArg (fun t => { t with chain }) h.2.2⟩

theorem lifting_skip {α : Type} {rel : α → α → Prop} {token : Token} {run other : Run α}
    (h : lifting.Compares (place.1 + 1, place.2) rel run other) :
    lifting.Compares place rel (Interpreter.nested token run) other := by
  intro s t hst
  obtain ⟨hlevel, hle, ht⟩ := hst
  simp only [Interpreter.nested]
  split
  · exact .excused rfl
  · have hdown : lifting.state (place.1 + 1, place.2) s.descend t :=
      ⟨congrArg (· + 1) hlevel, Nat.le_succ_of_le hle, ht⟩
    exact (h s.descend t hdown).after (f := Interpreter.ascend) (g := id)
      fun hafter => ⟨congrArg (· - 1) hafter.1, hle, hafter.2.2⟩

theorem onStatements_lifting [Machine] : lifting.OnStatements where
  descend h := ⟨congrArg (· + 1) h.1, Nat.succ_le_succ h.2.1, congrArg (·.descend) h.2.2⟩
  ascend h :=
    ⟨congrArg (· - 1) h.1, Nat.le_of_succ_le_succ h.2.1, congrArg (·.ascend) h.2.2⟩
  tooDeep _ _ := .inl fun _ => rfl
  opens {place s _} h hopen := by
    obtain ⟨hlevel, hle, rfl⟩ := h
    have hdown : place.2 + 1 ≤ s.descend.level := Nat.succ_le_succ (hlevel ▸ hle)
    exact Interpreter.tooDeep_atLevel (s := s.descend) hdown hopen
  ungroup _ {_ _ _} h _ := lifting_skip (h _)
  congruence := sharesChain_lifting.congruence
  error htokens _ := sharesChain_lifting.error_of_tokens htokens _ _
  undefined := sharesChain_lifting.undefined
  lookup := sharesChain_lifting.lookup
  assign := sharesChain_lifting.assign
  cause h := congrArg (·.signal.cause?) h.2.2
  look h := ⟨h.1, h.2.1, congrArg (fun t => { t with signal := t.signal.looked }) h.2.2⟩
  enter := sharesChain_lifting.enter
  leave h hafter _ _ := sharesChain_lifting.leave h hafter
  define h _ := sharesChain_lifting.define h
  print h line := ⟨h.1, h.2.1, congrArg
    (fun t => { t with printed := line :: t.printed, signal := t.signal.written }) h.2.2⟩
  declares_node := id
  declares_scope _ := trivial

theorem Compares.eq_of_lifting {α : Type} {run other : Run α}
    (h : lifting.Compares (s.level, s.level) Eq run other) (hkeeps : s.Keeps (run s).2)
    (hdeep : ¬ (run s).1.IsTooDeep) : other s = run s := by
  have hexcuse : ∀ e, (run s).1 = .error e → ¬ e.kind = .depthExceeded := fun e he hkind =>
    hdeep (by rw [he]; exact hkind)
  obtain ⟨houtcome, -, -, hafter⟩ := (h s s ⟨rfl, Nat.le_refl _, rfl⟩).eq rfl hexcuse
  rw [Interpreter.atLevel_of_level_eq hkeeps.level] at hafter
  exact Prod.ext houtcome hafter

/-! ## Runs without groupings -/

theorem exprs_ungroup (e : Expr) : lifting.Exprs e e.ungroup := by
  induction e with
  | literal token value => exact .literal token value
  | grouping token inner ih => exact .ungroup trivial ih
  | unary op right ih => exact .unary ih
  | binary left op right ihl ihr => exact .binary ihl ihr
  | logical left op right ihl ihr => exact .logical ihl ihr
  | «variable» name => exact .variable rfl
  | assign name value ih => exact .assign rfl ih

theorem stmts_ungroup_and_ungroupAll :
    (∀ stmt : Stmt, lifting.Stmts lifting.Exprs True stmt stmt.ungroup) ∧
      ∀ program : List Stmt,
        List.Forall₂ (lifting.Stmts lifting.Exprs True) program (Stmt.ungroupAll program) := by
  apply Stmt.induction
  case expression => exact fun token expr => .expression (exprs_ungroup expr)
  case print => exact fun token expr => .print (exprs_ungroup expr)
  case varNil => exact fun name => .varNone trivial rfl
  case varInit => exact fun name init => .varSome trivial rfl (exprs_ungroup init)
  case iteNone => exact fun token condition yes hyes => .iteNone (exprs_ungroup condition) hyes
  case iteSome =>
    exact fun token condition yes no hyes hno => .iteSome (exprs_ungroup condition) hyes hno
  case block => exact fun token body hbody => .block hbody
  case nil => exact .nil
  case cons => exact fun stmt rest hstmt hrest => .cons hstmt hrest

end Comparison

namespace Interpreter

section

variable [Machine]

theorem not_isTooDeep_execute {s : Interpreter} (hfree : s.maxDepth ≤ 0) (program : List Stmt) :
    ¬ (execute program s).1.IsTooDeep :=
  (ends_execute program).not_isTooDeep hfree

/-- Groupings can be erased. What is left of a program has none, and it runs as the program does, to
the same outcome and the same state, whenever there is no nesting limit or the program does not end
because of it. -/
theorem execute_ungroupAll (program : List Stmt) :
    Stmt.listGroupings (Stmt.ungroupAll program) = 0 ∧
      ∀ s : Interpreter, s.maxDepth ≤ 0 ∨ ¬ (execute program s).1.IsTooDeep →
        execute (Stmt.ungroupAll program) s = execute program s := by
  refine ⟨Stmt.groupings_ungroup_and_ungroupAll.2 program, fun s h => ?_⟩
  have hdeep : ¬ (execute program s).1.IsTooDeep :=
    h.elim (fun hfree => not_isTooDeep_execute hfree program) id
  have hruns := Comparison.onStatements_lifting.execute
    (Comparison.stmts_ungroup_and_ungroupAll.2 program) (s.level, s.level) fun _ => trivial
  exact hruns.eq_of_lifting (keeps_execute program s) hdeep

end

/-- The program `{ var x = ("a"); if ((x)) print (x) + ((true)); }`, which ends in an error about
its sum. -/
def wrapped : List Stmt :=
  let group (e : Expr) : Expr := .grouping (.ofKind .leftParen 1) e
  let x : Token := .ofName "x" 1
  [.block (.ofKind .leftBrace 1)
    [.var x (some (group (.literal (.ofName "a" 1) (.text "a")))),
      .ite (.ofKind .ifWord 2) (group (group (.variable x)))
        (.print (.ofKind .printWord 2)
          (.binary (group (.variable x)) (.ofKind .plus 3)
            (group (group (.literal (.ofKind .trueWord 2) (.bool true))))))
        none]]

/-- The program needs seven levels, and five without its groupings. -/
theorem execute_ungroupAll_wrapped :
    ¬ (execute wrapped (new.limit 7)).1.IsTooDeep ∧
      (execute wrapped (new.limit 7)).1 = .error (.badOperands (.ofKind .plus 3)
        "Operands must be two numbers or two strings.") ∧
      execute (Stmt.ungroupAll wrapped) (new.limit 7) = execute wrapped (new.limit 7) := by
  have hend : (execute wrapped (new.limit 7)).1 = .error (.badOperands (.ofKind .plus 3)
      "Operands must be two numbers or two strings.") := by cbv
  have hdeep : ¬ (execute wrapped (new.limit 7)).1.IsTooDeep := by
    rw [hend]
    exact fun h => by cases h
  exact ⟨hdeep, hend, (execute_ungroupAll wrapped).2 (new.limit 7) (.inr hdeep)⟩

end Interpreter

end TreeScript
