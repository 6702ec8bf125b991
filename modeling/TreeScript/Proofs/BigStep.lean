import TreeScript.Proofs.Run
import TreeScript.Text.Units

/-!
# What programs mean

The rules of the language, without an interpreter. Scopes are a stack of finite maps. An expression
takes a stack to a result and a stack, a statement also to the lines it prints. There are no
environments that are linked to each other, no levels and no signals. Numbers are added, compared
and displayed by the functions on numbers.

The rules are deterministic: `execAll_deterministic`.
-/

namespace TreeScript.BigStep

/-- Scopes that stand in each other, innermost first. -/
abbrev Stack : Type := List Scope

namespace Stack

def find? (name : String) : Stack → Option Value
  | [] => none
  | scope :: outer => (scope.find? name).orElse fun _ => find? name outer

def assign? (name : String) (value : Value) : Stack → Option Stack
  | [] => none
  | scope :: outer =>
    if (scope.find? name).isSome then some (scope.define name value :: outer)
    else (assign? name value outer).map (scope :: ·)

end Stack

inductive Halt where
  | error (e : RuntimeError)
  | fault (f : Fault)

abbrev Result (α : Type) : Type := Except Halt α

/-! ## Values and operators -/

inductive Falsy : Value → Prop where
  | nil : Falsy .nil
  | no : Falsy (.bool false)

/-- Equal values: they are of one kind, and numbers are compared as numbers. -/
inductive Same : Value → Value → Prop where
  | nil : Same .nil .nil
  | bool {b} : Same (.bool b) (.bool b)
  | number {x y} : Number.same x y = true → Same (.number x) (.number y)
  | text {s} : Same (.text s) (.text s)

inductive IsNumber : Value → Prop where
  | number {x} : IsNumber (.number x)

inductive IsAddend : Value → Prop where
  | number {x} : IsAddend (.number x)
  | text {s} : IsAddend (.text s)

inductive Constant (token : Token) : Literal → Result Value → Prop where
  | nil : Constant token .nil (.ok .nil)
  | bool {b} : Constant token (.bool b) (.ok (.bool b))
  | number {x} : Constant token (.number x) (.ok (.number x))
  | integer {i} : Constant token (.integer i) (.ok (.number (Number.ofInt i)))
  | text {s} : Constant token (.text s) (.ok (.text s))
  | foreign {name} :
    Constant token (.foreign name) (.error (.error (.unsupported token name)))

/-- The left operand of `and` or `or` is the result already. -/
inductive Decides : Token.Kind → Value → Prop where
  | or {l} : ¬ Falsy l → Decides .orWord l
  | and {l} : Falsy l → Decides .andWord l

def lazy : List Token.Kind := [.orWord, .andWord]

theorem Decides.mem_lazy {kind : Token.Kind} {l : Value} (h : Decides kind l) : kind ∈ lazy := by
  cases h <;> decide

theorem constant_deterministic {token : Token} {l : Literal} {o o' : Result Value}
    (h : Constant token l o) (h' : Constant token l o') : o = o' := by
  cases h <;> cases h' <;> rfl

variable [Machine]

inductive Unary (op : Token) : Token.Kind → Value → Result Value → Prop where
  | not {v b} : (b = true ↔ Falsy v) → Unary op .bang v (.ok (.bool b))
  | negative {x} : Unary op .minus (.number x) (.ok (.number (-x)))
  | badOperand {v} : ¬ IsNumber v →
    Unary op .minus v (.error (.error (.badOperands op "Operand must be a number.")))
  | unknown {kind v} : kind ∉ ([.bang, .minus] : List Token.Kind) →
    Unary op kind v (.error (.fault (.unary op.lexeme)))

def numeric : List Token.Kind :=
  [.greater, .greaterEqual, .less, .lessEqual, .minus, .star, .slash]

inductive Numeric (op : Token) : Token.Kind → Double → Double → Result Value → Prop where
  | greater {x y} : Numeric op .greater x y (.ok (.bool (decide (y < x))))
  | greaterEqual {x y} : Numeric op .greaterEqual x y (.ok (.bool (decide (y ≤ x))))
  | less {x y} : Numeric op .less x y (.ok (.bool (decide (x < y))))
  | lessEqual {x y} : Numeric op .lessEqual x y (.ok (.bool (decide (x ≤ y))))
  | difference {x y} : Numeric op .minus x y (.ok (.number (x - y)))
  | product {x y} : Numeric op .star x y (.ok (.number (x * y)))
  | quotient {x y} : Number.isZero y = false → Numeric op .slash x y (.ok (.number (x / y)))
  | zeroDivisor {x y} : Number.isZero y = true →
    Numeric op .slash x y (.error (.error (.zeroDivisor op)))
  | unknown {kind x y} : kind ∉ numeric → Numeric op kind x y (.error (.fault (.binary op.lexeme)))

def liberal : List Token.Kind := [.equalEqual, .bangEqual, .plus]

/-- The result of a binary operator on two values. The kinds of the operands come first: only
numbers are compared or divided at all. -/
inductive Binary (op : Token) : Token.Kind → Value → Value → Result Value → Prop where
  | equal {l r b} : (b = true ↔ Same l r) → Binary op .equalEqual l r (.ok (.bool b))
  | different {l r b} : (b = true ↔ ¬ Same l r) → Binary op .bangEqual l r (.ok (.bool b))
  | sum {x y} : Binary op .plus (.number x) (.number y) (.ok (.number (x + y)))
  | join {s t} : Binary op .plus (.text s) (.text t) (.ok (.text (s ++ t)))
  | sumText {x t} : Binary op .plus (.number x) (.text t)
    (.ok (.number (Number.sum (Text.units t) + x)))
  | textSum {s y} : Binary op .plus (.text s) (.number y)
    (.ok (.number (Number.sum (Text.units s) + y)))
  | badAddends {l r} : ¬ (IsAddend l ∧ IsAddend r) → Binary op .plus l r
    (.error (.error (.badOperands op "Operands must be two numbers or two strings.")))
  | numbers {kind x y o} : kind ∉ liberal → Numeric op kind x y o →
    Binary op kind (.number x) (.number y) o
  | badOperands {kind l r} : kind ∉ liberal → ¬ (IsNumber l ∧ IsNumber r) →
    Binary op kind l r (.error (.error (.badOperands op "Operands must be numbers.")))

/-! ## Expressions -/

/-- From a stack, an expression has a result and leaves a stack. -/
inductive Eval : Stack → Expr → Result Value → Stack → Prop where
  | literal {σ token l o} : Constant token l o → Eval σ (.literal token l) o σ
  | grouping {σ token inner o σ'} : Eval σ inner o σ' → Eval σ (.grouping token inner) o σ'
  | variable {σ name v} : σ.find? name.lexeme = some v → Eval σ (.variable name) (.ok v) σ
  | unbound {σ name} : σ.find? name.lexeme = none →
    Eval σ (.variable name) (.error (.error (.undefined name))) σ
  | assign {σ name value v σ₁ σ₂} : Eval σ value (.ok v) σ₁ →
    σ₁.assign? name.lexeme v = some σ₂ → Eval σ (.assign name value) (.ok v) σ₂
  | assignUnbound {σ name value v σ₁} : Eval σ value (.ok v) σ₁ →
    σ₁.assign? name.lexeme v = none →
    Eval σ (.assign name value) (.error (.error (.undefined name))) σ₁
  | assignHalt {σ name value h σ₁} : Eval σ value (.error h) σ₁ →
    Eval σ (.assign name value) (.error h) σ₁
  | unary {σ op right r o σ₁} : Eval σ right (.ok r) σ₁ → Unary op op.kind r o →
    Eval σ (.unary op right) o σ₁
  | unaryHalt {σ op right h σ₁} : Eval σ right (.error h) σ₁ →
    Eval σ (.unary op right) (.error h) σ₁
  | binary {σ left op right l r o σ₁ σ₂} : Eval σ left (.ok l) σ₁ → Eval σ₁ right (.ok r) σ₂ →
    Binary op op.kind l r o → Eval σ (.binary left op right) o σ₂
  | binaryHaltLeft {σ left op right h σ₁} : Eval σ left (.error h) σ₁ →
    Eval σ (.binary left op right) (.error h) σ₁
  | binaryHaltRight {σ left op right l h σ₁ σ₂} : Eval σ left (.ok l) σ₁ →
    Eval σ₁ right (.error h) σ₂ → Eval σ (.binary left op right) (.error h) σ₂
  | logicalLeft {σ left op right l σ₁} : Eval σ left (.ok l) σ₁ → Decides op.kind l →
    Eval σ (.logical left op right) (.ok l) σ₁
  | logicalRight {σ left op right l o σ₁ σ₂} : Eval σ left (.ok l) σ₁ → op.kind ∈ lazy →
    ¬ Decides op.kind l → Eval σ₁ right o σ₂ → Eval σ (.logical left op right) o σ₂
  | logicalUnknown {σ left op right l σ₁} : Eval σ left (.ok l) σ₁ → op.kind ∉ lazy →
    Eval σ (.logical left op right) (.error (.fault (.logical op.lexeme))) σ₁
  | logicalHalt {σ left op right h σ₁} : Eval σ left (.error h) σ₁ →
    Eval σ (.logical left op right) (.error h) σ₁

/-! ## Statements -/

mutual

/-- From a stack, a statement has a result, prints lines and leaves a stack. -/
inductive Exec : Stack → Stmt → Result Unit → List String → Stack → Prop where
  | expression {σ token expr v σ₁} : Eval σ expr (.ok v) σ₁ →
    Exec σ (.expression token expr) (.ok ()) [] σ₁
  | expressionHalt {σ token expr h σ₁} : Eval σ expr (.error h) σ₁ →
    Exec σ (.expression token expr) (.error h) [] σ₁
  | print {σ token expr v σ₁} : Eval σ expr (.ok v) σ₁ →
    Exec σ (.print token expr) (.ok ()) [v.display] σ₁
  | printHalt {σ token expr h σ₁} : Eval σ expr (.error h) σ₁ →
    Exec σ (.print token expr) (.error h) [] σ₁
  | varNil {scope outer name} :
    Exec (scope :: outer) (.var name none) (.ok ()) [] (scope.define name.lexeme .nil :: outer)
  | var {σ name init v scope outer} : Eval σ init (.ok v) (scope :: outer) →
    Exec σ (.var name (some init)) (.ok ()) [] (scope.define name.lexeme v :: outer)
  | varHalt {σ name init h σ₁} : Eval σ init (.error h) σ₁ →
    Exec σ (.var name (some init)) (.error h) [] σ₁
  | yes {σ token condition yes no c o w σ₁ σ₂} : Eval σ condition (.ok c) σ₁ → ¬ Falsy c →
    Exec σ₁ yes o w σ₂ → Exec σ (.ite token condition yes no) o w σ₂
  | no {σ token condition yes no c o w σ₁ σ₂} : Eval σ condition (.ok c) σ₁ → Falsy c →
    Exec σ₁ no o w σ₂ → Exec σ (.ite token condition yes (some no)) o w σ₂
  | skip {σ token condition yes c σ₁} : Eval σ condition (.ok c) σ₁ → Falsy c →
    Exec σ (.ite token condition yes none) (.ok ()) [] σ₁
  | conditionHalt {σ token condition yes no h σ₁} : Eval σ condition (.error h) σ₁ →
    Exec σ (.ite token condition yes no) (.error h) [] σ₁
  | block {σ token body o w inner σ₁} : ExecAll (.empty :: σ) body o w (inner :: σ₁) →
    Exec σ (.block token body) o w σ₁

/-- From a stack, statements in order have a result, print lines and leave a stack. -/
inductive ExecAll : Stack → List Stmt → Result Unit → List String → Stack → Prop where
  | nil {σ} : ExecAll σ [] (.ok ()) [] σ
  | cons {σ stmt rest o w₁ w₂ σ₁ σ₂} : Exec σ stmt (.ok ()) w₁ σ₁ → ExecAll σ₁ rest o w₂ σ₂ →
    ExecAll σ (stmt :: rest) o (w₁ ++ w₂) σ₂
  | halt {σ stmt rest h w σ₁} : Exec σ stmt (.error h) w σ₁ →
    ExecAll σ (stmt :: rest) (.error h) w σ₁

end

/-! ## Determinism -/

theorem unary_deterministic {op : Token} {kind : Token.Kind} {v : Value} {o o' : Result Value}
    (h : Unary op kind v o) (h' : Unary op kind v o') : o = o' := by
  cases h with
  | not hv =>
      cases h' with
      | not hv' => rw [Bool.eq_iff_iff.2 (hv.trans hv'.symm)]
      | unknown hkind => exact absurd (by decide) hkind
  | negative =>
      cases h' with
      | negative => rfl
      | badOperand hv' => exact absurd .number hv'
      | unknown hkind => exact absurd (by decide) hkind
  | badOperand hv =>
      cases h' with
      | negative => exact absurd .number hv
      | badOperand => rfl
      | unknown hkind => exact absurd (by decide) hkind
  | unknown hkind =>
      cases h' with
      | unknown => rfl
      | _ => exact absurd (by decide) hkind

theorem numeric_deterministic {op : Token} {kind : Token.Kind} {x y : Double} {o o' : Result Value}
    (h : Numeric op kind x y o) (h' : Numeric op kind x y o') : o = o' := by
  cases h with
  | quotient hy =>
      cases h' with
      | quotient => rfl
      | zeroDivisor hy' => rw [hy] at hy'; cases hy'
      | unknown hkind => exact absurd (by decide) hkind
  | zeroDivisor hy =>
      cases h' with
      | quotient hy' => rw [hy] at hy'; cases hy'
      | zeroDivisor => rfl
      | unknown hkind => exact absurd (by decide) hkind
  | unknown hkind =>
      cases h' with
      | unknown => rfl
      | _ => exact absurd (by decide) hkind
  | _ =>
      cases h' with
      | unknown hkind => exact absurd (by decide) hkind
      | _ => rfl

theorem binary_deterministic {op : Token} {kind : Token.Kind} {l r : Value} {o o' : Result Value}
    (h : Binary op kind l r o) (h' : Binary op kind l r o') : o = o' := by
  cases h with
  | equal hsame =>
      cases h' with
      | equal hsame' => rw [Bool.eq_iff_iff.2 (hsame.trans hsame'.symm)]
      | numbers hkind | badOperands hkind => exact absurd (by decide) hkind
  | different hsame =>
      cases h' with
      | different hsame' => rw [Bool.eq_iff_iff.2 (hsame.trans hsame'.symm)]
      | numbers hkind | badOperands hkind => exact absurd (by decide) hkind
  | badAddends hadd =>
      cases h' with
      | sum => exact absurd ⟨.number, .number⟩ hadd
      | join => exact absurd ⟨.text, .text⟩ hadd
      | sumText => exact absurd ⟨.number, .text⟩ hadd
      | textSum => exact absurd ⟨.text, .number⟩ hadd
      | badAddends => rfl
      | numbers hkind | badOperands hkind => exact absurd (by decide) hkind
  | numbers hkind hop =>
      cases h' with
      | numbers _ hop' => exact numeric_deterministic hop hop'
      | badOperands _ hnumbers => exact absurd ⟨.number, .number⟩ hnumbers
      | _ => exact absurd (by decide) hkind
  | badOperands hkind hnumbers =>
      cases h' with
      | numbers => exact absurd ⟨.number, .number⟩ hnumbers
      | badOperands => rfl
      | _ => exact absurd (by decide) hkind
  | sum =>
      cases h' with
      | sum => rfl
      | badAddends hadd => exact absurd ⟨.number, .number⟩ hadd
      | numbers hkind | badOperands hkind => exact absurd (by decide) hkind
  | join =>
      cases h' with
      | join => rfl
      | badAddends hadd => exact absurd ⟨.text, .text⟩ hadd
      | badOperands hkind => exact absurd (by decide) hkind
  | sumText =>
      cases h' with
      | sumText => rfl
      | badAddends hadd => exact absurd ⟨.number, .text⟩ hadd
      | badOperands hkind => exact absurd (by decide) hkind
  | textSum =>
      cases h' with
      | textSum => rfl
      | badAddends hadd => exact absurd ⟨.text, .number⟩ hadd
      | badOperands hkind => exact absurd (by decide) hkind

theorem eval_deterministic {σ : Stack} {e : Expr} {o o' : Result Value} {σ₁ σ₁' : Stack}
    (h : Eval σ e o σ₁) (h' : Eval σ e o' σ₁') : o = o' ∧ σ₁ = σ₁' := by
  -- The rules for a node begin with the same operand: its two results agree, and they select one
  -- rule.
  induction h generalizing o' σ₁' with
  | literal hl =>
      cases h' with
      | literal hl' => exact ⟨constant_deterministic hl hl', rfl⟩
  | grouping _ ih =>
      cases h' with
      | grouping hinner' => exact ih hinner'
  | «variable» hv =>
      cases h' with
      | «variable» hv' => rw [hv] at hv'; cases hv'; exact ⟨rfl, rfl⟩
      | unbound hv' => rw [hv] at hv'; cases hv'
  | unbound hv =>
      cases h' with
      | «variable» hv' => rw [hv] at hv'; cases hv'
      | unbound => exact ⟨rfl, rfl⟩
  | assign _ hassign ih =>
      cases h' with
      | assign hvalue' hassign' =>
          obtain ⟨⟨⟩, rfl⟩ := ih hvalue'
          rw [hassign] at hassign'
          cases hassign'
          exact ⟨rfl, rfl⟩
      | assignUnbound hvalue' hassign' =>
          obtain ⟨⟨⟩, rfl⟩ := ih hvalue'
          rw [hassign] at hassign'
          cases hassign'
      | assignHalt hvalue' => cases (ih hvalue').1
  | assignUnbound _ hassign ih =>
      cases h' with
      | assign hvalue' hassign' =>
          obtain ⟨⟨⟩, rfl⟩ := ih hvalue'
          rw [hassign] at hassign'
          cases hassign'
      | assignUnbound hvalue' => exact ⟨rfl, (ih hvalue').2⟩
      | assignHalt hvalue' => cases (ih hvalue').1
  | assignHalt _ ih =>
      cases h' with
      | assign hvalue' | assignUnbound hvalue' => cases (ih hvalue').1
      | assignHalt hvalue' => exact ih hvalue'
  | unary _ hop ih =>
      cases h' with
      | unary hright' hop' =>
          obtain ⟨⟨⟩, rfl⟩ := ih hright'
          exact ⟨unary_deterministic hop hop', rfl⟩
      | unaryHalt hright' => cases (ih hright').1
  | unaryHalt _ ih =>
      cases h' with
      | unary hright' => cases (ih hright').1
      | unaryHalt hright' => exact ih hright'
  | binary _ _ hop ihl ihr =>
      cases h' with
      | binary hleft' hright' hop' =>
          obtain ⟨⟨⟩, rfl⟩ := ihl hleft'
          obtain ⟨⟨⟩, rfl⟩ := ihr hright'
          exact ⟨binary_deterministic hop hop', rfl⟩
      | binaryHaltLeft hleft' => cases (ihl hleft').1
      | binaryHaltRight hleft' hright' =>
          obtain ⟨⟨⟩, rfl⟩ := ihl hleft'
          cases (ihr hright').1
  | binaryHaltLeft _ ihl =>
      cases h' with
      | binary hleft' | binaryHaltRight hleft' => cases (ihl hleft').1
      | binaryHaltLeft hleft' => exact ihl hleft'
  | binaryHaltRight _ _ ihl ihr =>
      cases h' with
      | binary hleft' hright' =>
          obtain ⟨⟨⟩, rfl⟩ := ihl hleft'
          cases (ihr hright').1
      | binaryHaltLeft hleft' => cases (ihl hleft').1
      | binaryHaltRight hleft' hright' =>
          obtain ⟨⟨⟩, rfl⟩ := ihl hleft'
          exact ihr hright'
  | logicalLeft _ hdecides ihl =>
      cases h' with
      | logicalLeft hleft' => exact ihl hleft'
      | logicalRight hleft' _ hundecided =>
          obtain ⟨⟨⟩, rfl⟩ := ihl hleft'
          exact absurd hdecides hundecided
      | logicalUnknown _ hkind => exact absurd hdecides.mem_lazy hkind
      | logicalHalt hleft' => cases (ihl hleft').1
  | logicalRight _ hkind hundecided _ ihl ihr =>
      cases h' with
      | logicalLeft hleft' hdecides =>
          obtain ⟨⟨⟩, rfl⟩ := ihl hleft'
          exact absurd hdecides hundecided
      | logicalRight hleft' _ _ hright' =>
          obtain ⟨⟨⟩, rfl⟩ := ihl hleft'
          exact ihr hright'
      | logicalUnknown _ hkind' => exact absurd hkind hkind'
      | logicalHalt hleft' => cases (ihl hleft').1
  | logicalUnknown _ hkind ihl =>
      cases h' with
      | logicalLeft _ hdecides => exact absurd hdecides.mem_lazy hkind
      | logicalRight _ hkind' => exact absurd hkind' hkind
      | logicalUnknown hleft' => exact ⟨rfl, (ihl hleft').2⟩
      | logicalHalt hleft' => cases (ihl hleft').1
  | logicalHalt _ ihl =>
      cases h' with
      | logicalLeft hleft' | logicalRight hleft' | logicalUnknown hleft' => cases (ihl hleft').1
      | logicalHalt hleft' => exact ihl hleft'

def Deterministic (rel : Stack → Result Unit → List String → Stack → Prop) : Prop :=
  ∀ {σ o o' w w' σ₁ σ₁'}, rel σ o w σ₁ → rel σ o' w' σ₁' → o = o' ∧ w = w' ∧ σ₁ = σ₁'

theorem ite_deterministic {token : Token} {condition : Expr} {yes : Stmt} {no : Option Stmt}
    (hyes : Deterministic fun σ o w σ₁ => Exec σ yes o w σ₁)
    (hno : ∀ stmt ∈ no, Deterministic fun σ o w σ₁ => Exec σ stmt o w σ₁) :
    Deterministic fun σ o w σ₁ => Exec σ (.ite token condition yes no) o w σ₁ := by
  intro σ o o' w w' σ₁ σ₁' h h'
  cases h with
  | yes hc htruthy he =>
      cases h' with
      | yes hc' _ he' =>
          obtain ⟨⟨⟩, rfl⟩ := eval_deterministic hc hc'
          exact hyes he he'
      | no hc' hfalsy | skip hc' hfalsy =>
          obtain ⟨⟨⟩, rfl⟩ := eval_deterministic hc hc'
          exact absurd hfalsy htruthy
      | conditionHalt hc' => cases (eval_deterministic hc hc').1
  | no hc hfalsy he =>
      cases h' with
      | yes hc' htruthy =>
          obtain ⟨⟨⟩, rfl⟩ := eval_deterministic hc hc'
          exact absurd hfalsy htruthy
      | no hc' _ he' =>
          obtain ⟨⟨⟩, rfl⟩ := eval_deterministic hc hc'
          exact hno _ rfl he he'
      | conditionHalt hc' => cases (eval_deterministic hc hc').1
  | skip hc hfalsy =>
      cases h' with
      | yes hc' htruthy =>
          obtain ⟨⟨⟩, rfl⟩ := eval_deterministic hc hc'
          exact absurd hfalsy htruthy
      | skip hc' => exact ⟨rfl, rfl, (eval_deterministic hc hc').2⟩
      | conditionHalt hc' => cases (eval_deterministic hc hc').1
  | conditionHalt hc =>
      cases h' with
      | yes hc' | no hc' | skip hc' => cases (eval_deterministic hc hc').1
      | conditionHalt hc' =>
          obtain ⟨⟨⟩, rfl⟩ := eval_deterministic hc hc'
          exact ⟨rfl, rfl, rfl⟩

theorem exec_and_execAll_deterministic :
    (∀ stmt, Deterministic fun σ o w σ₁ => Exec σ stmt o w σ₁) ∧
      ∀ program, Deterministic fun σ o w σ₁ => ExecAll σ program o w σ₁ := by
  apply Stmt.induction
  case expression =>
    intro token expr σ o o' w w' σ₁ σ₁' h h'
    cases h with
    | expression he =>
        cases h' with
        | expression he' => exact ⟨rfl, rfl, (eval_deterministic he he').2⟩
        | expressionHalt he' => cases (eval_deterministic he he').1
    | expressionHalt he =>
        cases h' with
        | expression he' => cases (eval_deterministic he he').1
        | expressionHalt he' =>
            obtain ⟨⟨⟩, rfl⟩ := eval_deterministic he he'
            exact ⟨rfl, rfl, rfl⟩
  case print =>
    intro token expr σ o o' w w' σ₁ σ₁' h h'
    cases h with
    | print he =>
        cases h' with
        | print he' =>
            obtain ⟨⟨⟩, rfl⟩ := eval_deterministic he he'
            exact ⟨rfl, rfl, rfl⟩
        | printHalt he' => cases (eval_deterministic he he').1
    | printHalt he =>
        cases h' with
        | print he' => cases (eval_deterministic he he').1
        | printHalt he' =>
            obtain ⟨⟨⟩, rfl⟩ := eval_deterministic he he'
            exact ⟨rfl, rfl, rfl⟩
  case varNil =>
    intro name σ o o' w w' σ₁ σ₁' h h'
    cases h
    cases h'
    exact ⟨rfl, rfl, rfl⟩
  case varInit =>
    intro name init σ o o' w w' σ₁ σ₁' h h'
    cases h with
    | var he =>
        cases h' with
        | var he' =>
            obtain ⟨⟨⟩, ⟨⟩⟩ := eval_deterministic he he'
            exact ⟨rfl, rfl, rfl⟩
        | varHalt he' => cases (eval_deterministic he he').1
    | varHalt he =>
        cases h' with
        | var he' => cases (eval_deterministic he he').1
        | varHalt he' =>
            obtain ⟨⟨⟩, rfl⟩ := eval_deterministic he he'
            exact ⟨rfl, rfl, rfl⟩
  case iteNone =>
    intro token condition yes hyes
    exact ite_deterministic hyes fun stmt hmem => by cases hmem
  case iteSome =>
    intro token condition yes no hyes hno
    exact ite_deterministic hyes fun stmt hmem => by cases hmem; exact hno
  case block =>
    intro token body hbody σ o o' w w' σ₁ σ₁' h h'
    cases h with
    | block hb =>
        cases h' with
        | block hb' =>
            obtain ⟨rfl, rfl, ⟨⟩⟩ := hbody hb hb'
            exact ⟨rfl, rfl, rfl⟩
  case nil =>
    intro σ o o' w w' σ₁ σ₁' h h'
    cases h
    cases h'
    exact ⟨rfl, rfl, rfl⟩
  case cons =>
    intro stmt rest hstmt hrest σ o o' w w' σ₁ σ₁' h h'
    cases h with
    | cons hs hr =>
        cases h' with
        | cons hs' hr' =>
            obtain ⟨-, rfl, rfl⟩ := hstmt hs hs'
            obtain ⟨rfl, rfl, rfl⟩ := hrest hr hr'
            exact ⟨rfl, rfl, rfl⟩
        | halt hs' => cases (hstmt hs hs').1
    | halt hs =>
        cases h' with
        | cons hs' => cases (hstmt hs hs').1
        | halt hs' => exact hstmt hs hs'

theorem execAll_deterministic (program : List Stmt) :
    Deterministic fun σ o w σ₁ => ExecAll σ program o w σ₁ :=
  exec_and_execAll_deterministic.2 program

end TreeScript.BigStep
