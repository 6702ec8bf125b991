import Mathlib.Data.List.Forall2
import TreeScript.Proofs.Restoration

/-!
# Two runs side by side

A `Comparison` says how two runs are related: their states at each place of the two trees, their
values, their errors and the names in the trees. `Comparison.OnExpressions` and
`Comparison.OnStatements` list what has to be shown of a comparison, one step of an interpreter
after the other. `OnExpressions.eval` and `OnStatements.execute` are the conclusions, for two trees
that match (`Comparison.Exprs`, `Comparison.Stmts`).

The first run may end in an error that excuses the second one. Nothing is said of the second one
then.
-/

namespace TreeScript

/-- Whether a statement contains a declaration that stands in no block of the statement. -/
def Stmt.declares : Stmt → Bool
  | .expression _ _ => false
  | .print _ _ => false
  | .var _ _ => true
  | .ite _ _ yes none => Stmt.declares yes
  | .ite _ _ yes (some no) => Stmt.declares yes || Stmt.declares no
  | .block _ _ => false

structure Comparison where
  Place : Type
  /-- The place in a node. -/
  node : Place → Place := id
  /-- The place in a new scope. -/
  scope : Place → Place := id
  state : Place → Interpreter → Interpreter → Prop
  value : Value → Value → Prop := Eq
  error : RuntimeError → RuntimeError → Prop := Eq
  excused : RuntimeError → Prop := fun _ => False
  name : Token → Token → Prop := Eq
  /-- Names may be declared at the place. -/
  declares : Place → Prop := fun _ => True
  /-- The second tree may lack groupings of the first one. -/
  ungroups : Prop := False

/-! ## Computations without a state -/

namespace Run

variable {α β : Type}

inductive Same (rel : α → β → Prop) : Run α → Run β → Prop where
  | pure {a b} : rel a b → Same rel (Run.pure a) (Run.pure b)
  | fail {e} : e.kind ≠ .undefinedVariable → Same rel (Run.fail e) (Run.fail e)
  | crash (f) : Same rel (Run.crash f) (Run.crash f)

theorem Plain.same {run : Run α} (h : run.Plain) : Same Eq run run := by
  cases h with
  | pure a => exact .pure rfl
  | fail hkind => exact .fail hkind
  | crash f => exact .crash f

theorem Same.mono {rel rel' : α → β → Prop} {run : Run α} {other : Run β} (h : Same rel run other)
    (himp : ∀ a b, rel a b → rel' a b) : Same rel' run other := by
  cases h with
  | pure hab => exact .pure (himp _ _ hab)
  | fail hkind => exact .fail hkind
  | crash f => exact .crash f

end Run

/-- A relation of values that no operator looks behind. -/
structure Value.Congruence [Machine] (rel : Value → Value → Prop) : Prop where
  refl : ∀ v, rel v v
  truthy : ∀ {v w}, rel v w → w.isTruthy = v.isTruthy
  display : ∀ {v w}, rel v w → w.display = v.display
  unary : ∀ {v w}, rel v w → ∀ op,
    Run.Same rel (Interpreter.applyUnary op v) (Interpreter.applyUnary op w)
  binary : ∀ {v w v' w'}, rel v w → rel v' w' → ∀ op,
    Run.Same rel (Interpreter.applyBinary op v v') (Interpreter.applyBinary op w w')

theorem Value.congruence_eq [Machine] : Value.Congruence Eq where
  refl _ := rfl
  truthy h := by rw [h]
  display h := by rw [h]
  unary := by
    rintro v _ rfl op
    exact (Interpreter.plain_applyUnary op v).same
  binary := by
    rintro v _ v' _ rfl rfl op
    exact (Interpreter.plain_applyBinary op v v').same

theorem Value.same_decides {v w : Value} (h : w.isTruthy = v.isTruthy) (op : Token) :
    Run.Same Eq (Interpreter.decides op v) (Interpreter.decides op w) := by
  unfold Interpreter.decides
  rw [h]
  split
  · exact .pure rfl
  · exact .pure rfl
  · exact .crash _

namespace Comparison

variable {C : Comparison} {α β γ δ : Type} {place : C.Place}

/-! ## Runs that are compared -/

inductive Agree (C : Comparison) (place : C.Place) (rel : α → β → Prop) :
    Outcome α × Interpreter → Outcome β × Interpreter → Prop where
  | excused {e s b} : C.excused e → Agree C place rel (.error e, s) b
  | value {a b s t} : rel a b → C.state place s t → Agree C place rel (.value a, s) (.value b, t)
  | error {e e' s t} : C.error e e' → C.state place s t →
    Agree C place rel (.error e, s) (.error e', t)
  | fault {f s t} : C.state place s t → Agree C place rel (.fault f, s) (.fault f, t)

/-- From related states, the two computations end beside each other, in related states again. -/
def Compares (C : Comparison) (place : C.Place) (rel : α → β → Prop) (run : Run α)
    (other : Run β) : Prop :=
  ∀ s t, C.state place s t → C.Agree place rel (run s) (other t)

def Tokens (C : Comparison) (token token' : Token) : Prop := token' = token ∨ C.name token token'

theorem Agree.after {place' : C.Place} {rel : α → β → Prop} {f g : Interpreter → Interpreter}
    {a : Outcome α × Interpreter} {b : Outcome β × Interpreter} (h : C.Agree place rel a b)
    (hstate : C.state place a.2 b.2 → C.state place' (f a.2) (g b.2)) :
    C.Agree place' rel (a.1, f a.2) (b.1, g b.2) := by
  cases h with
  | excused he => exact .excused he
  | value hab hst => exact .value hab (hstate hst)
  | error he hst => exact .error he (hstate hst)
  | fault hst => exact .fault (hstate hst)

theorem Agree.state {rel : α → β → Prop} {a : Outcome α × Interpreter}
    {b : Outcome β × Interpreter} (h : C.Agree place rel a b)
    (hexcuse : ∀ e, a.1 = .error e → ¬ C.excused e) : C.state place a.2 b.2 := by
  cases h with
  | excused he => exact absurd he (hexcuse _ rfl)
  | value _ hst => exact hst
  | error _ hst => exact hst
  | fault hst => exact hst

/-- Where there are no excuses, two runs end in the same way. -/
theorem Agree.eq {a : Outcome α × Interpreter} {b : Outcome α × Interpreter}
    (h : C.Agree place Eq a b) (herror : C.error = Eq)
    (hexcused : ∀ e, a.1 = .error e → ¬ C.excused e) :
    b.1 = a.1 ∧ C.state place a.2 b.2 := by
  cases h with
  | excused he => exact absurd he (hexcused _ rfl)
  | value hab hafter => exact ⟨by rw [hab], hafter⟩
  | error he hafter =>
      rw [herror] at he
      exact ⟨by rw [he], hafter⟩
  | fault hafter => exact ⟨rfl, hafter⟩

namespace Compares

variable {rel : α → β → Prop} {rel' : γ → δ → Prop} {run : Run α} {other : Run β}

theorem mono {rel' : α → β → Prop} (h : C.Compares place rel run other)
    (himp : ∀ a b, rel a b → rel' a b) : C.Compares place rel' run other := by
  intro s t hst
  have hends := h s t hst
  revert hends
  generalize run s = a
  generalize other t = b
  intro hends
  cases hends with
  | excused he => exact .excused he
  | value hab hafter => exact .value (himp _ _ hab) hafter
  | error he hafter => exact .error he hafter
  | fault hafter => exact .fault hafter

theorem bind {next : α → Run γ} {later : β → Run δ} (hrun : C.Compares place rel run other)
    (hnext : ∀ a b, rel a b → C.Compares place rel' (next a) (later b)) :
    C.Compares place rel' (run >>= next) (other >>= later) := by
  intro s t hst
  have hfirst := hrun s t hst
  rcases hs : run s with ⟨outcome, s'⟩
  rcases ht : other t with ⟨outcome', t'⟩
  rw [hs, ht] at hfirst
  cases hfirst with
  | excused he =>
      rw [Run.bind_of_error hs]
      exact .excused he
  | value hab hafter =>
      rw [Run.bind_of_value hs, Run.bind_of_value ht]
      exact hnext _ _ hab _ _ hafter
  | error he hafter =>
      rw [Run.bind_of_error hs, Run.bind_of_error ht]
      exact .error he hafter
  | fault hafter =>
      rw [Run.bind_of_fault hs, Run.bind_of_fault ht]
      exact .fault hafter

theorem pure {a : α} {b : β} (hab : rel a b) : C.Compares place rel (Run.pure a) (Run.pure b) :=
  fun _ _ hst => .value hab hst

end Compares

/-! ## What has to be shown -/

structure OnExpressions [Machine] (C : Comparison) : Prop where
  descend : ∀ {place s t}, C.state place s t → C.state (C.node place) s.descend t.descend
  ascend : ∀ {place s t}, C.state (C.node place) s t → C.state place s.ascend t.ascend
  /-- Both nodes are too deep, or the first one is excused. -/
  tooDeep : ∀ {place s t}, C.state place s t → s.descend.tooDeep = true →
    (∀ token, C.excused (.tooDeep token s.maxDepth)) ∨
      t.descend.tooDeep = true ∧ t.maxDepth = s.maxDepth
  opens : ∀ {place s t}, C.state place s t → s.descend.tooDeep = false →
    t.descend.tooDeep = false
  ungroup : C.ungroups → ∀ {token : Token} {run other : Run Value},
    (∀ place, C.Compares place C.value run other) →
      ∀ place, C.Compares place C.value (Interpreter.nested token run) other
  congruence : Value.Congruence C.value
  error : ∀ {token token' kind message}, C.Tokens token token' → kind ≠ .undefinedVariable →
    C.error ⟨kind, token, message⟩ ⟨kind, token', message⟩
  undefined : ∀ {name name'}, C.name name name' → C.error (.undefined name) (.undefined name')
  lookup : ∀ {place s t name name'}, C.state place s t → C.name name name' →
    (∃ v w, s.chain.read name = .ok v ∧ t.chain.read name' = .ok w ∧ C.value v w) ∨
      s.chain.read name = .error (.undefined name) ∧
        t.chain.read name' = .error (.undefined name')
  assign : ∀ {place s t name name' v w}, C.state place s t → C.name name name' → C.value v w →
    (∃ chain chain', s.chain.assign name v = .ok chain ∧ t.chain.assign name' w = .ok chain' ∧
        C.state place { s with chain } { t with chain := chain' }) ∨
      s.chain.assign name v = .error (.undefined name) ∧
        t.chain.assign name' w = .error (.undefined name')

structure OnStatements [Machine] (C : Comparison) : Prop extends C.OnExpressions where
  cause : ∀ {place s t}, C.state place s t → t.signal.cause? = s.signal.cause?
  look : ∀ {place s t}, C.state place s t →
    C.state place { s with signal := s.signal.looked } { t with signal := t.signal.looked }
  enter : ∀ {place s t}, C.state place s t →
    C.state (C.scope place) { s with chain := s.chain.enter } { t with chain := t.chain.enter }
  leave : ∀ {place s t s' t'}, C.state place s t → C.state (C.scope place) s' t' →
    Interpreter.Keeps { s with chain := s.chain.enter } s' →
    Interpreter.Keeps { t with chain := t.chain.enter } t' →
    C.state place { s' with chain := s'.chain.leave s.chain.current }
      { t' with chain := t'.chain.leave t.chain.current }
  define : ∀ {place s t name name' v w}, C.state place s t → C.declares place →
    C.name name name' → C.value v w →
    C.state place { s with chain := s.chain.define name.lexeme v }
      { t with chain := t.chain.define name'.lexeme w }
  print : ∀ {place s t}, C.state place s t → ∀ line,
    C.state place { s with printed := line :: s.printed, signal := s.signal.written }
      { t with printed := line :: t.printed, signal := t.signal.written }
  declares_node : ∀ {place}, C.declares place → C.declares (C.node place)
  declares_scope : ∀ place, C.declares (C.scope place)

/-! ## Trees that match -/

/-- Expressions that are the same up to names and, if the comparison says so, up to groupings. -/
inductive Exprs (C : Comparison) : Expr → Expr → Prop where
  | literal (token value) : Exprs C (.literal token value) (.literal token value)
  | grouping {token inner inner'} : Exprs C inner inner' →
    Exprs C (.grouping token inner) (.grouping token inner')
  | ungroup {token inner e} : C.ungroups → Exprs C inner e → Exprs C (.grouping token inner) e
  | unary {op right right'} : Exprs C right right' → Exprs C (.unary op right) (.unary op right')
  | binary {left left' op right right'} : Exprs C left left' → Exprs C right right' →
    Exprs C (.binary left op right) (.binary left' op right')
  | logical {left left' op right right'} : Exprs C left left' → Exprs C right right' →
    Exprs C (.logical left op right) (.logical left' op right')
  | variable {name name'} : C.name name name' → Exprs C (.variable name) (.variable name')
  | assign {name name' value value'} : C.name name name' → Exprs C value value' →
    Exprs C (.assign name value) (.assign name' value')

/-- Statements whose expressions match, apart from the conditions, for which there is a relation of
its own. Outside of blocks there are declarations only if they are allowed. -/
inductive Stmts (C : Comparison) (conditions : Expr → Expr → Prop) : Prop → Stmt → Stmt → Prop where
  | expression {allowed token expr expr'} : C.Exprs expr expr' →
    Stmts C conditions allowed (.expression token expr) (.expression token expr')
  | print {allowed token expr expr'} : C.Exprs expr expr' →
    Stmts C conditions allowed (.print token expr) (.print token expr')
  | varNone {allowed name name'} : allowed → C.name name name' →
    Stmts C conditions allowed (.var name none) (.var name' none)
  | varSome {allowed name name' init init'} : allowed → C.name name name' → C.Exprs init init' →
    Stmts C conditions allowed (.var name (some init)) (.var name' (some init'))
  | iteNone {allowed token condition condition' yes yes'} : conditions condition condition' →
    Stmts C conditions allowed yes yes' →
    Stmts C conditions allowed (.ite token condition yes none) (.ite token condition' yes' none)
  | iteSome {allowed token condition condition' yes yes' no no'} :
    conditions condition condition' → Stmts C conditions allowed yes yes' →
    Stmts C conditions allowed no no' →
    Stmts C conditions allowed (.ite token condition yes (some no))
      (.ite token condition' yes' (some no'))
  | block {allowed token body body'} : List.Forall₂ (Stmts C conditions True) body body' →
    Stmts C conditions allowed (.block token body) (.block token body')

theorem Exprs.refl (hname : ∀ name, C.name name name) (e : Expr) : C.Exprs e e := by
  induction e with
  | literal token value => exact .literal token value
  | grouping token inner ih => exact .grouping ih
  | unary op right ih => exact .unary ih
  | binary left op right ihl ihr => exact .binary ihl ihr
  | logical left op right ihl ihr => exact .logical ihl ihr
  | «variable» name => exact .variable (hname name)
  | assign name value ih => exact .assign (hname name) ih

theorem Stmts.refl_and_refl {conditions : Expr → Expr → Prop} (hname : ∀ name, C.name name name)
    (hconditions : ∀ c, conditions c c) :
    (∀ (stmt : Stmt) (allowed : Prop), allowed ∨ stmt.declares = false →
      C.Stmts conditions allowed stmt stmt) ∧
    ∀ (program : List Stmt) (allowed : Prop), allowed ∨ program.any Stmt.declares = false →
      List.Forall₂ (C.Stmts conditions allowed) program program := by
  apply Stmt.induction
  case expression => exact fun token expr _ _ => .expression (.refl hname expr)
  case print => exact fun token expr _ _ => .print (.refl hname expr)
  case varNil => exact fun name _ h => .varNone (h.resolve_right Bool.noConfusion) (hname name)
  case varInit =>
    exact fun name init _ h =>
      .varSome (h.resolve_right Bool.noConfusion) (hname name) (.refl hname init)
  case iteNone => exact fun token c yes hyes allowed h => .iteNone (hconditions c) (hyes allowed h)
  case iteSome =>
    intro token c yes no hyes hno allowed h
    refine .iteSome (hconditions c) (hyes allowed ?_) (hno allowed ?_)
    · exact h.imp id fun hnone => (Bool.or_eq_false_iff.1 hnone).1
    · exact h.imp id fun hnone => (Bool.or_eq_false_iff.1 hnone).2
  case block => exact fun token body hbody _ _ => .block (hbody True (.inl trivial))
  case nil => exact fun _ _ => .nil
  case cons =>
    intro stmt rest hstmt hrest allowed h
    refine .cons (hstmt allowed ?_) (hrest allowed ?_)
    · exact h.imp id fun hnone => (Bool.or_eq_false_iff.1 hnone).1
    · exact h.imp id fun hnone => (Bool.or_eq_false_iff.1 hnone).2

/-! ## Expressions -/

namespace OnExpressions

variable [Machine] (h : C.OnExpressions) {rel : α → β → Prop}

include h

theorem of_same {run : Run α} {other : Run β} (hsame : Run.Same rel run other) :
    C.Compares place rel run other := by
  intro s t hst
  cases hsame with
  | pure hab => exact .value hab hst
  | fail hkind => exact .error (h.error (.inl rfl) hkind) hst
  | crash f => exact .fault hst

theorem nested {token token' : Token} (htoken : C.Tokens token token') {body : Run α}
    {other : Run β} (hbody : C.Compares (C.node place) rel body other) :
    C.Compares place rel (Interpreter.nested token body) (Interpreter.nested token' other) := by
  intro s t hst
  simp only [Interpreter.nested]
  cases hdeep : s.descend.tooDeep with
  | true =>
      obtain hexcused | ⟨hdeep', hlimit⟩ := h.tooDeep hst hdeep
      · exact .excused (hexcused token)
      · rw [if_pos rfl, if_pos hdeep']
        change C.Agree place rel (.error (.tooDeep token s.maxDepth), _)
          (.error (.tooDeep token' t.maxDepth), _)
        rw [hlimit]
        have hkind : ErrorKind.depthExceeded ≠ .undefinedVariable := by decide
        exact .error (h.error htoken hkind) (h.ascend (h.descend hst))
  | false =>
      rw [if_neg Bool.false_ne_true, h.opens hst hdeep, if_neg Bool.false_ne_true]
      exact (hbody _ _ (h.descend hst)).after h.ascend

theorem read {name name' : Token} (hname : C.name name name') :
    C.Compares place C.value (Interpreter.read name) (Interpreter.read name') := by
  intro s t hst
  simp only [Interpreter.read]
  obtain ⟨v, w, hs, ht, hvw⟩ | ⟨hs, ht⟩ := h.lookup hst hname
  · rw [hs, ht]
    exact .value hvw hst
  · rw [hs, ht]
    exact .error (h.undefined hname) hst

theorem write {name name' : Token} (hname : C.name name name') {v w : Value} (hvw : C.value v w) :
    C.Compares place C.value (Interpreter.write name v) (Interpreter.write name' w) := by
  intro s t hst
  simp only [Interpreter.write]
  obtain ⟨chain, chain', hs, ht, hafter⟩ | ⟨hs, ht⟩ := h.assign hst hname hvw
  · rw [hs, ht]
    exact .value hvw hafter
  · rw [hs, ht]
    exact .error (h.undefined hname) hst

theorem eval {e e' : Expr} (hmatch : C.Exprs e e') (place : C.Place) :
    C.Compares place C.value (Interpreter.eval e) (Interpreter.eval e') := by
  induction hmatch generalizing place with
  | literal token value =>
      refine h.nested (.inl rfl) (h.of_same ?_)
      exact (Interpreter.plain_constant token value).same.mono
        fun v _ heq => heq ▸ h.congruence.refl v
  | grouping _ ih => exact h.nested (.inl rfl) (ih _)
  | ungroup hungroups _ ih => exact h.ungroup hungroups ih place
  | @unary op _ _ _ ih =>
      refine h.nested (.inl rfl) (.bind (ih _) fun v w hvw => ?_)
      exact h.of_same (h.congruence.unary hvw op)
  | @binary _ _ op _ _ _ _ ihl ihr =>
      refine h.nested (.inl rfl) (.bind (ihl _) fun v w hvw => .bind (ihr _) fun v' w' hvw' => ?_)
      exact h.of_same (h.congruence.binary hvw hvw' op)
  | @logical _ _ op _ _ _ _ ihl ihr =>
      refine h.nested (.inl rfl) (.bind (ihl _) fun v w hvw => ?_)
      refine .bind (h.of_same (Value.same_decides (h.congruence.truthy hvw) op)) ?_
      rintro decided _ rfl
      cases decided with
      | true => exact .pure hvw
      | false => exact ihr _
  | «variable» hname => exact h.nested (.inr hname) (h.read hname)
  | assign hname _ ih =>
      exact h.nested (.inr hname) (.bind (ih _) fun v w hvw => h.write hname hvw)

end OnExpressions

/-! ## Statements -/

namespace OnStatements

variable [Machine] (h : C.OnStatements)

include h

theorem checkSignal {token token' : Token} (htoken : C.Tokens token token') :
    C.Compares place Eq (Interpreter.checkSignal token) (Interpreter.checkSignal token') := by
  intro s t hst
  simp only [Interpreter.checkSignal, h.cause hst]
  split
  next cause _ =>
    have hkind : ErrorKind.cancelled ≠ .undefinedVariable := by decide
    exact .error (h.error htoken hkind) hst
  next => exact .value rfl (h.look hst)

theorem statement {token token' : Token} (htoken : C.Tokens token token') {body other : Run Unit}
    (hbody : C.Compares (C.node place) Eq body other) :
    C.Compares place Eq (Interpreter.statement token body)
      (Interpreter.statement token' other) :=
  h.nested htoken (.bind (h.checkSignal htoken) fun _ _ _ => hbody)

theorem inScope {body other : Run Unit} (hkeeps : body.Respects Interpreter.Keeps)
    (hkeeps' : other.Respects Interpreter.Keeps)
    (hbody : C.Compares (C.scope place) Eq body other) :
    C.Compares place Eq (Interpreter.inScope body) (Interpreter.inScope other) :=
  fun s t hst => (hbody _ _ (h.enter hst)).after
    (f := fun s' => { s' with chain := s'.chain.leave s.chain.current })
    (g := fun t' => { t' with chain := t'.chain.leave t.chain.current })
    fun hafter => h.leave hst hafter (hkeeps _) (hkeeps' _)

theorem declare (hdeclares : C.declares place) {name name' : Token} (hname : C.name name name')
    {v w : Value} (hvw : C.value v w) :
    C.Compares place Eq (Interpreter.declare name v) (Interpreter.declare name' w) :=
  fun _ _ hst => .value rfl (h.define hst hdeclares hname hvw)

theorem printLine {v w : Value} (hvw : C.value v w) :
    C.Compares place Eq (Interpreter.printLine v.display) (Interpreter.printLine w.display) := by
  intro s t hst
  rw [h.congruence.display hvw]
  exact .value rfl (h.print hst v.display)

/-- The values of related conditions have to count as the same truth values, and no more. -/
theorem exec_and_execute {conditions : Expr → Expr → Prop}
    (hconditions : ∀ c c', conditions c c' → ∀ place,
      C.Compares place (fun v w => w.isTruthy = v.isTruthy) (Interpreter.eval c)
        (Interpreter.eval c')) :
    (∀ (stmt : Stmt) (allowed : Prop) (stmt' : Stmt), C.Stmts conditions allowed stmt stmt' →
      ∀ place, (allowed → C.declares place) →
        C.Compares place Eq (Interpreter.exec stmt) (Interpreter.exec stmt')) ∧
    ∀ (program : List Stmt) (allowed : Prop) (program' : List Stmt),
      List.Forall₂ (C.Stmts conditions allowed) program program' →
      ∀ place, (allowed → C.declares place) →
        C.Compares place Eq (Interpreter.execute program) (Interpreter.execute program') := by
  apply Stmt.induction
  case expression =>
    intro token expr allowed stmt' hmatch place hplace
    cases hmatch with | expression hexpr =>
    exact h.statement (.inl rfl) (.bind (h.eval hexpr _) fun _ _ _ => .pure rfl)
  case print =>
    intro token expr allowed stmt' hmatch place hplace
    cases hmatch with | print hexpr =>
    exact h.statement (.inl rfl) (.bind (h.eval hexpr _) fun v w hvw => h.printLine hvw)
  case varNil =>
    intro name allowed stmt' hmatch place hplace
    cases hmatch with | varNone hallowed hname =>
    have hdeclares := h.declares_node (hplace hallowed)
    exact h.statement (.inr hname) (h.declare hdeclares hname (h.congruence.refl .nil))
  case varInit =>
    intro name init allowed stmt' hmatch place hplace
    cases hmatch with | varSome hallowed hname hinit =>
    have hdeclares := h.declares_node (hplace hallowed)
    exact h.statement (.inr hname)
      (.bind (h.eval hinit _) fun v w hvw => h.declare hdeclares hname hvw)
  case iteNone =>
    intro token condition yes hyes allowed stmt' hmatch place hplace
    cases hmatch with | iteNone hcondition hyes' =>
    refine h.statement (.inl rfl) (.bind (hconditions _ _ hcondition _) fun v w hvw => ?_)
    rw [hvw]
    split
    · exact hyes _ _ hyes' _ fun hallowed => h.declares_node (hplace hallowed)
    · exact .pure rfl
  case iteSome =>
    intro token condition yes no hyes hno allowed stmt' hmatch place hplace
    cases hmatch with | iteSome hcondition hyes' hno' =>
    refine h.statement (.inl rfl) (.bind (hconditions _ _ hcondition _) fun v w hvw => ?_)
    rw [hvw]
    split
    · exact hyes _ _ hyes' _ fun hallowed => h.declares_node (hplace hallowed)
    · exact hno _ _ hno' _ fun hallowed => h.declares_node (hplace hallowed)
  case block =>
    intro token body hbody allowed stmt' hmatch place hplace
    cases hmatch with | @block _ _ _ body' hbody' =>
    refine h.statement (.inl rfl) (h.inScope ?_ ?_ (hbody _ _ hbody' _ fun _ => ?_))
    · exact Interpreter.keeps_execute body
    · exact Interpreter.keeps_execute body'
    · exact h.declares_scope _
  case nil =>
    intro allowed program' hmatch place hplace
    cases hmatch
    exact .pure rfl
  case cons =>
    intro stmt rest hstmt hrest allowed program' hmatch place hplace
    cases hmatch with | cons hstmt' hrest' =>
    exact .bind (hstmt _ _ hstmt' _ hplace) fun _ _ _ => hrest _ _ hrest' _ hplace

theorem eval_condition {c c' : Expr} (hmatch : C.Exprs c c') (place : C.Place) :
    C.Compares place (fun v w => w.isTruthy = v.isTruthy) (Interpreter.eval c)
      (Interpreter.eval c') :=
  (h.eval hmatch place).mono fun _ _ => h.congruence.truthy

/-- Statements that match are compared at every place where their declarations are. -/
theorem exec {allowed : Prop} {stmt stmt' : Stmt} (hmatch : C.Stmts C.Exprs allowed stmt stmt')
    (place : C.Place) (hplace : allowed → C.declares place) :
    C.Compares place Eq (Interpreter.exec stmt) (Interpreter.exec stmt') :=
  (h.exec_and_execute fun _ _ => h.eval_condition).1 _ _ _ hmatch place hplace

theorem execute {allowed : Prop} {program program' : List Stmt}
    (hmatch : List.Forall₂ (C.Stmts C.Exprs allowed) program program') (place : C.Place)
    (hplace : allowed → C.declares place) :
    C.Compares place Eq (Interpreter.execute program) (Interpreter.execute program') :=
  (h.exec_and_execute fun _ _ => h.eval_condition).2 _ _ _ hmatch place hplace

theorem exec_self (hname : ∀ name, C.name name name) (stmt : Stmt) (place : C.Place)
    (hplace : C.declares place ∨ stmt.declares = false) :
    C.Compares place Eq (Interpreter.exec stmt) (Interpreter.exec stmt) :=
  h.exec ((Stmts.refl_and_refl hname (.refl hname)).1 stmt _ hplace) place id

theorem execute_self (hname : ∀ name, C.name name name) (program : List Stmt) (place : C.Place)
    (hplace : C.declares place ∨ program.any Stmt.declares = false) :
    C.Compares place Eq (Interpreter.execute program) (Interpreter.execute program) :=
  h.execute ((Stmts.refl_and_refl hname (.refl hname)).2 program _ hplace) place id

end OnStatements

end Comparison

end TreeScript
