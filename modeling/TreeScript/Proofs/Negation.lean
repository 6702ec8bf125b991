import TreeScript.Proofs.Grouping

/-!
# Negations in conditions

A negation can be pushed down through `and`, `or`, groupings and other negations, to the leaves of a
condition: `Expr.nnf`. The operators have values of their operands and not truth values, and leaves
may assign variables or fail, so what stays the same is which leaves are evaluated, in which order
and from which states, how that ends, and whether the value counts as true. For a condition that is
all: programs run as before with some of their conditions in this form.

Both runs go side by side at different nesting levels, which makes no difference as long as there is
no nesting limit (`Comparison.leveling`).
-/

namespace TreeScript

/-! ## Conditions and their leaves -/

def Token.Kind.isConnective : Token.Kind → Bool
  | .andWord => true
  | .orWord => true
  | _ => false

def Token.dual (op : Token) : Token :=
  match op.kind with
  | .andWord => { op with kind := .orWord, lexeme := Token.Kind.orWord.text }
  | .orWord => { op with kind := .andWord, lexeme := Token.Kind.andWord.text }
  | _ => op

namespace Expr

/-- Whether a condition is no grouping, no negation and no `and` or `or` of others. -/
def isLeaf : Expr → Bool
  | .grouping _ _ => false
  | .unary op _ => op.kind != .bang
  | .logical _ op _ => !op.kind.isConnective
  | _ => true

def negate : Option Token → Expr → Expr
  | none, e => e
  | some bang, e => .unary bang e

/-- One more negation: two of them cancel each other. -/
def flip (bang : Token) : Option Token → Option Token
  | none => some bang
  | some _ => none

/-- A condition under a negation, if there is one, which is pushed down to the leaves. -/
def push : Expr → Option Token → Expr
  | .grouping token inner, negation => .grouping token (inner.push negation)
  | .unary op right, negation =>
    if op.kind = .bang then right.push (flip op negation) else negate negation (.unary op right)
  | .logical left op right, negation =>
    if op.kind.isConnective then
      .logical (left.push negation) (if negation.isSome then op.dual else op) (right.push negation)
    else negate negation (.logical left op right)
  | leaf, negation => negate negation leaf

def nnf (e : Expr) : Expr := e.push none

/-- Negations stand at leaves only. -/
inductive IsNnf : Expr → Prop where
  | leaf {e} : e.isLeaf = true → IsNnf e
  | negation {op e} : op.kind = .bang → e.isLeaf = true → IsNnf (.unary op e)
  | grouping {token inner} : IsNnf inner → IsNnf (.grouping token inner)
  | connective {left op right} : op.kind.isConnective = true → IsNnf left → IsNnf right →
    IsNnf (.logical left op right)

/-- Induction over conditions. -/
@[elab_as_elim]
theorem condition_induction {motive : Expr → Prop} (leaf : ∀ e, e.isLeaf = true → motive e)
    (grouping : ∀ token inner, motive inner → motive (.grouping token inner))
    (negation : ∀ op right, op.kind = .bang → motive right → motive (.unary op right))
    (connective : ∀ left op right, op.kind.isConnective = true → motive left → motive right →
      motive (.logical left op right)) (e : Expr) : motive e := by
  induction e with
  | grouping token inner ih => exact grouping token inner ih
  | unary op right ih =>
      by_cases hop : op.kind = .bang
      · exact negation op right hop ih
      · exact leaf _ (bne_iff_ne.2 hop)
  | logical left op right ihl ihr =>
      by_cases hop : op.kind.isConnective = true
      · exact connective left op right hop ihl ihr
      · exact leaf _ (by rw [isLeaf, Bool.eq_false_iff.2 hop]; rfl)
  | literal | binary | «variable» | assign => exact leaf _ rfl

theorem push_leaf {e : Expr} (h : e.isLeaf = true) (negation : Option Token) :
    e.push negation = negate negation e := by
  cases e with
  | grouping => cases h
  | unary op right => rw [push, if_neg (bne_iff_ne.1 h)]
  | logical left op right => rw [push, if_neg (by simpa [isLeaf] using h)]
  | literal | binary | «variable» | assign => rfl

theorem push_negation {op : Token} (h : op.kind = .bang) (right : Expr) (negation : Option Token) :
    push (.unary op right) negation = right.push (flip op negation) := by
  rw [push, if_pos h]

theorem push_connective {op : Token} (h : op.kind.isConnective = true) (left right : Expr)
    (negation : Option Token) :
    push (.logical left op right) negation =
      .logical (left.push negation) (if negation.isSome then op.dual else op)
        (right.push negation) := by
  rw [push, if_pos h]

theorem dual_isConnective {op : Token} (h : op.kind.isConnective = true) :
    op.dual.kind.isConnective = true := by
  cases op with | mk kind lexeme literal line =>
  cases kind <;> first | rfl | cases h

theorem pushed_isConnective {op : Token} (h : op.kind.isConnective = true)
    (negation : Option Token) :
    (if negation.isSome then op.dual else op).kind.isConnective = true := by
  split
  · exact dual_isConnective h
  · exact h

theorem flip_kind {bang : Token} {negation : Option Token} (h : bang.kind = .bang) :
    ∀ b ∈ flip bang negation, b.kind = .bang := by
  intro b hb
  cases negation with
  | none =>
      cases hb
      exact h
  | some _ => cases hb

theorem isNnf_push (e : Expr) (negation : Option Token) (h : ∀ b ∈ negation, b.kind = .bang) :
    (e.push negation).IsNnf := by
  induction e using condition_induction generalizing negation with
  | leaf e hleaf =>
      rw [push_leaf hleaf]
      cases negation with
      | none => exact .leaf hleaf
      | some bang => exact .negation (h bang rfl) hleaf
  | grouping token inner ih => exact .grouping (ih negation h)
  | negation op right hop ih =>
      rw [push_negation hop]
      exact ih _ (flip_kind hop)
  | connective left op right hop ihl ihr =>
      rw [push_connective hop]
      exact .connective (pushed_isConnective hop negation) (ihl negation h) (ihr negation h)

end Expr

def Visits.leaf (e : Expr) : Visits := fun s => [⟨.expression e, 0, s.atLevel 0⟩]

def Visits.deeper (body : Visits) : Visits := fun s => body s.descend

/-- What is visited for the left operand of a connective, and then, unless that one decides, for the
right one. -/
def Visits.connective (op : Token) (left : Run Value) (first next : Visits) : Visits :=
  .andThen left first fun l =>
    .andThen (Interpreter.decides op l) .none fun decided => if decided then .none else next

/-- The leaves that the evaluation of a condition comes to. -/
def Expr.leaves [Machine] : Expr → Visits
  | .grouping _ inner => inner.leaves.deeper
  | .unary op right => if op.kind = .bang then right.leaves.deeper else .leaf (.unary op right)
  | .logical left op right =>
    if op.kind.isConnective then
      Visits.deeper (.connective op (Interpreter.eval left) left.leaves right.leaves)
    else .leaf (.logical left op right)
  | e => .leaf e

namespace Expr

theorem leaves_leaf [Machine] {e : Expr} (h : e.isLeaf = true) : e.leaves = .leaf e := by
  cases e with
  | grouping => cases h
  | unary op right => rw [leaves, if_neg (bne_iff_ne.1 h)]
  | logical left op right => rw [leaves, if_neg (by simpa [isLeaf] using h)]
  | literal | binary | «variable» | assign => rfl

theorem leaves_negation [Machine] {op : Token} (h : op.kind = .bang) (right : Expr) :
    leaves (.unary op right) = right.leaves.deeper := by
  rw [leaves, if_pos h]

theorem leaves_connective [Machine] {op : Token} (h : op.kind.isConnective = true)
    (left right : Expr) : leaves (.logical left op right) =
      Visits.deeper (.connective op (Interpreter.eval left) left.leaves right.leaves) := by
  rw [leaves, if_pos h]

end Expr

/-! ## Runs at other levels -/

inductive Outcome.Rel {α β : Type} (rel : α → β → Prop) : Outcome α → Outcome β → Prop where
  | value {a b} : rel a b → Rel rel (.value a) (.value b)
  | error (e) : Rel rel (.error e) (.error e)
  | fault (f) : Rel rel (.fault f) (.fault f)

theorem Outcome.Rel.eq {α : Type} {a b : Outcome α} (h : a.Rel Eq b) : b = a := by
  cases h with
  | value h => rw [h]
  | error e => rfl
  | fault f => rfl

/-- The second run is at a level of its own, and there is no nesting limit. -/
def Comparison.leveling : Comparison where
  Place := Unit
  state _ s t := s.maxDepth ≤ 0 ∧ t = s.atLevel t.level

theorem Run.bind_pure {α : Type} (run : Run α) : (run >>= fun a => Run.pure a) = run := by
  funext s
  rcases hrs : run s with ⟨outcome, t⟩
  cases outcome with
  | value a => exact Run.bind_of_value hrs _
  | error e => exact Run.bind_of_error hrs _
  | fault f => exact Run.bind_of_fault hrs _

namespace Comparison

variable {α β γ δ : Type} {rel : α → β → Prop} {run : Run α} {other : Run β}

theorem sharesChain_leveling : leveling.SharesChain where
  value := rfl
  error := rfl
  name := rfl
  scope := rfl
  chain h := congrArg (·.chain) h.2
  setChain h chain := ⟨h.1, congrArg (fun t => { t with chain }) h.2⟩

theorem not_tooDeep_of_nonpos {s : Interpreter} (h : s.maxDepth ≤ 0) :
    s.descend.tooDeep = false :=
  Bool.and_eq_false_iff.2 (.inl (decide_eq_false (Int.not_lt.2 h)))

theorem onStatements_leveling [Machine] : leveling.OnStatements where
  descend h := ⟨h.1, congrArg (·.descend) h.2⟩
  ascend h := ⟨h.1, congrArg (·.ascend) h.2⟩
  tooDeep h hdeep := absurd hdeep (Bool.eq_false_iff.1 (not_tooDeep_of_nonpos h.1))
  opens {_ _ t} h _ := by
    rw [h.2]
    exact not_tooDeep_of_nonpos (s := Interpreter.atLevel _ t.level) h.1
  ungroup := False.elim
  congruence := sharesChain_leveling.congruence
  error htokens _ := sharesChain_leveling.error_of_tokens htokens _ _
  undefined := sharesChain_leveling.undefined
  lookup := sharesChain_leveling.lookup
  assign := sharesChain_leveling.assign
  cause h := congrArg (·.signal.cause?) h.2
  look h := ⟨h.1, congrArg (fun t => { t with signal := t.signal.looked }) h.2⟩
  enter := sharesChain_leveling.enter
  leave h hafter _ _ := sharesChain_leveling.leave h hafter
  define h _ := sharesChain_leveling.define h
  print h line := ⟨h.1, congrArg
    (fun t => { t with printed := line :: t.printed, signal := t.signal.written }) h.2⟩
  declares_node := id
  declares_scope _ := trivial

namespace Compares

theorem skip (token : Token) (h : leveling.Compares () rel run other) :
    leveling.Compares () rel (Interpreter.nested token run) other := by
  intro s t hst
  rw [Interpreter.nested_of_nonpos hst.1]
  exact (h s.descend t hst).after (f := Interpreter.ascend) (g := id) id

/-- A node that only the second run opens. -/
theorem insert (token : Token) (h : leveling.Compares () rel run other) :
    leveling.Compares () rel run (Interpreter.nested token other) := by
  intro s t hst
  have hfree : t.maxDepth ≤ 0 := by
    rw [hst.2]
    exact hst.1
  rw [Interpreter.nested_of_nonpos hfree]
  have hdown : leveling.state () s t.descend := ⟨hst.1, congrArg (·.descend) hst.2⟩
  exact (h s t.descend hdown).after (f := id) (g := Interpreter.ascend) fun hafter =>
    ⟨hafter.1, congrArg (·.ascend) hafter.2⟩

theorem bind_left {next : α → Run γ} {rel' : γ → β → Prop}
    (hrun : leveling.Compares () rel run other)
    (hnext : ∀ a b, rel a b → leveling.Compares () rel' (next a) (Run.pure b)) :
    leveling.Compares () rel' (run >>= next) other := by
  have h := bind hrun hnext
  rwa [Run.bind_pure] at h

theorem bind_right {later : β → Run δ} {rel' : α → δ → Prop}
    (hrun : leveling.Compares () rel run other)
    (hnext : ∀ a b, rel a b → leveling.Compares () rel' (Run.pure a) (later b)) :
    leveling.Compares () rel' run (other >>= later) := by
  have h := bind hrun hnext
  rwa [Run.bind_pure] at h

theorem at_own_level (h : leveling.Compares () rel run other) {s : Interpreter}
    (hkeeps : s.Keeps (run s).2) (hkeeps' : s.Keeps (other s).2) (hfree : s.maxDepth ≤ 0) :
    (run s).1.Rel rel (other s).1 ∧ (other s).2 = (run s).2 := by
  have hends := h s s ⟨hfree, rfl⟩
  have hafter := (hends.state fun _ _ => id).2
  rw [hkeeps'.level, Interpreter.atLevel_of_level_eq hkeeps.level] at hafter
  refine ⟨?_, hafter⟩
  revert hends
  generalize run s = a
  generalize other s = b
  intro hends
  cases hends with
  | excused he => exact he.elim
  | value hab => exact .value hab
  | error he => exact he ▸ .error _
  | fault => exact .fault _

end Compares

end Comparison

open Comparison (leveling)

def Visits.Follow (visits other : Visits) : Prop :=
  ∀ (s : Interpreter) (level : Nat), s.maxDepth ≤ 0 → other (s.atLevel level) = visits s

namespace Visits.Follow

variable {α β : Type} {rel : α → β → Prop}

theorem none : Visits.none.Follow .none := fun _ _ _ => rfl

theorem leaf (e : Expr) : (Visits.leaf e).Follow (.leaf e) := fun _ _ _ => rfl

theorem deeper {visits other : Visits} (h : visits.Follow other) :
    visits.deeper.Follow other.deeper :=
  fun s level hfree => h s.descend (level + 1) hfree

theorem andThen {run : Run α} {other : Run β} {first first' : Visits} {next : α → Visits}
    {later : β → Visits} (hrun : leveling.Compares () rel run other)
    (hfirst : first.Follow first') (hnext : ∀ a b, rel a b → (next a).Follow (later b)) :
    (Visits.andThen run first next).Follow (.andThen other first' later) := by
  intro s level hfree
  have hends := hrun s (s.atLevel level) ⟨hfree, rfl⟩
  rw [Visits.andThen, Visits.andThen, hfirst s level hfree]
  revert hends
  generalize run s = a
  generalize other (s.atLevel level) = b
  intro hends
  cases hends with
  | excused he => exact he.elim
  | @value a b t t' hab hafter =>
      obtain ⟨hfree', ht⟩ := hafter
      have hlater := hnext _ _ hab t t'.level hfree'
      rw [← ht] at hlater
      simp only [hlater]
  | error => rfl
  | fault => rfl

end Visits.Follow

namespace Interpreter

/-! ## Negations pushed down

Whether a value is wanted as it is or negated goes down with the negation, so the statements below
are about both cases at once.
-/

/-- Whether two values count as the same truth value or, if so said, as opposite ones. -/
def Truth (opposite : Bool) (v w : Value) : Prop := w.isTruthy = (v.isTruthy ^^ opposite)

theorem Truth.of_eq {v w : Value} (h : v = w) : Truth false v w := by
  rw [Truth, h, Bool.xor_false]

theorem Truth.same {v w : Value} (h : Truth false v w) : w.isTruthy = v.isTruthy := by
  rwa [Truth, Bool.xor_false] at h

theorem applyUnary_bang [Machine] {op : Token} (hop : op.kind = .bang) (v : Value) :
    applyUnary op v = Run.pure (.bool !v.isTruthy) := by
  simp only [applyUnary, hop]

theorem truth_not (v : Value) : Truth true v (.bool !v.isTruthy) := by
  rw [Truth, Bool.xor_true]
  rfl

theorem truth_not_left {opposite : Bool} {v w : Value} (h : Truth (!opposite) v w) :
    Truth opposite (.bool !v.isTruthy) w := by
  rw [Truth] at h ⊢
  rw [h]
  change _ = (!v.isTruthy ^^ opposite)
  rw [Bool.xor_not, Bool.not_xor]

theorem follows_decides {op : Token} (hop : op.kind.isConnective = true) {opposite : Bool}
    {v w : Value} (h : Truth opposite v w) :
    leveling.Compares () Eq (decides op v) (decides (if opposite then op.dual else op) w) := by
  obtain ⟨kind, lexeme, literal, line⟩ := op
  rw [Truth] at h
  cases kind with
  | andWord =>
      cases opposite with
      | false => exact .pure (by rw [h, Bool.xor_false])
      | true => exact .pure (by rw [h, Bool.xor_true])
  | orWord =>
      cases opposite with
      | false => exact .pure (by rw [h, Bool.xor_false])
      | true => exact .pure (by rw [h, Bool.xor_true, Bool.not_not])
  | _ => cases hop

variable [Machine]

theorem follows_eval (e : Expr) : leveling.Compares () Eq (eval e) (eval e) :=
  Comparison.onStatements_leveling.eval (.refl (fun _ => rfl) e) ()

/-- Pushing a negation down changes neither how the evaluation of a condition ends nor the state it
ends in, and a value only as the negation says. -/
theorem follows_push (e : Expr) (negation : Option Token) (h : ∀ b ∈ negation, b.kind = .bang) :
    leveling.Compares () (Truth negation.isSome) (eval e) (eval (e.push negation)) := by
  induction e using Expr.condition_induction generalizing negation with
  | leaf e hleaf =>
      rw [Expr.push_leaf hleaf]
      cases negation with
      | none => exact (follows_eval e).mono fun v w => Truth.of_eq
      | some bang =>
          refine .insert bang (.bind_right (follows_eval e) fun v w hvw => ?_)
          rw [applyUnary_bang (h bang rfl), hvw]
          exact .pure (truth_not w)
  | grouping token inner ih => exact .skip token (.insert token (ih negation h))
  | negation op right hop ih =>
      rw [Expr.push_negation hop]
      refine .skip op (.bind_left (ih _ (Expr.flip_kind hop)) fun v w hvw => ?_)
      rw [applyUnary_bang hop]
      refine .pure (truth_not_left ?_)
      cases negation <;> exact hvw
  | connective left op right hop ihl ihr =>
      rw [Expr.push_connective hop]
      refine .skip op (.insert _ (.bind (ihl negation h) fun v w hvw => ?_))
      refine .bind (follows_decides hop hvw) fun decided _ hsame => ?_
      subst hsame
      cases decided with
      | true => exact .pure hvw
      | false => exact ihr negation h

theorem follow_push (e : Expr) (negation : Option Token) (h : ∀ b ∈ negation, b.kind = .bang) :
    e.leaves.Follow (e.push negation).leaves := by
  induction e using Expr.condition_induction generalizing negation with
  | leaf e hleaf =>
      rw [Expr.push_leaf hleaf, Expr.leaves_leaf hleaf]
      cases negation with
      | none =>
          rw [Expr.negate, Expr.leaves_leaf hleaf]
          exact fun _ _ _ => rfl
      | some bang =>
          rw [Expr.negate, Expr.leaves_negation (h bang rfl), Expr.leaves_leaf hleaf]
          exact fun _ _ _ => rfl
  | grouping token inner ih => exact .deeper (ih negation h)
  | negation op right hop ih =>
      rw [Expr.push_negation hop, Expr.leaves_negation hop]
      exact fun s level hfree => ih _ (Expr.flip_kind hop) s.descend level hfree
  | connective left op right hop ihl ihr =>
      have hpushed := Expr.pushed_isConnective hop negation
      rw [Expr.push_connective hop, Expr.leaves_connective hop, Expr.leaves_connective hpushed]
      refine .deeper (.andThen (follows_push left negation h) (ihl negation h) ?_)
      intro v w hvw
      refine .andThen (follows_decides hop hvw) .none fun decided _ hsame => ?_
      subst hsame
      cases decided with
      | true => exact .none
      | false => exact ihr negation h

end Interpreter

/-! ## Programs -/

/-- Programs that differ only in that some conditions of `if` statements of the first one are in
negation normal form in the second one. -/
inductive Stmt.Conditioned : Stmt → Stmt → Prop where
  | expression (token expr) : Conditioned (.expression token expr) (.expression token expr)
  | print (token expr) : Conditioned (.print token expr) (.print token expr)
  | var (name init) : Conditioned (.var name init) (.var name init)
  | iteNone {token condition condition' yes yes'} :
    condition' = condition ∨ condition' = condition.nnf → Conditioned yes yes' →
    Conditioned (.ite token condition yes none) (.ite token condition' yes' none)
  | iteSome {token condition condition' yes yes' no no'} :
    condition' = condition ∨ condition' = condition.nnf → Conditioned yes yes' →
    Conditioned no no' →
    Conditioned (.ite token condition yes (some no)) (.ite token condition' yes' (some no'))
  | block {token body body'} : List.Forall₂ Conditioned body body' →
    Conditioned (.block token body) (.block token body')

def Expr.Condition (c c' : Expr) : Prop := c' = c ∨ c' = c.nnf

theorem Stmt.Conditioned.stmts :
    (∀ stmt stmt' : Stmt, stmt.Conditioned stmt' →
      leveling.Stmts Expr.Condition True stmt stmt') ∧
    ∀ program program' : List Stmt, List.Forall₂ Stmt.Conditioned program program' →
      List.Forall₂ (leveling.Stmts Expr.Condition True) program program' := by
  have hname : ∀ name, leveling.name name name := fun _ => rfl
  apply Stmt.induction
    (P := fun stmt => ∀ stmt', stmt.Conditioned stmt' →
      leveling.Stmts Expr.Condition True stmt stmt')
    (Q := fun program => ∀ program', List.Forall₂ Stmt.Conditioned program program' →
      List.Forall₂ (leveling.Stmts Expr.Condition True) program program')
  case expression =>
    intro token expr stmt' h
    cases h
    exact .expression (.refl hname expr)
  case print =>
    intro token expr stmt' h
    cases h
    exact .print (.refl hname expr)
  case varNil =>
    intro name stmt' h
    cases h
    exact .varNone trivial rfl
  case varInit =>
    intro name init stmt' h
    cases h
    exact .varSome trivial rfl (.refl hname init)
  case iteNone =>
    intro token condition yes hyes stmt' h
    cases h with | iteNone hcondition hyes' =>
    exact .iteNone hcondition (hyes _ hyes')
  case iteSome =>
    intro token condition yes no hyes hno stmt' h
    cases h with | iteSome hcondition hyes' hno' =>
    exact .iteSome hcondition (hyes _ hyes') (hno _ hno')
  case block =>
    intro token body hbody stmt' h
    cases h with | block hbody' =>
    exact .block (hbody _ hbody')
  case nil =>
    intro program' h
    cases h
    exact .nil
  case cons =>
    intro stmt rest hstmt hrest program' h
    cases h with | cons hstmt' hrest' =>
    exact .cons (hstmt _ hstmt') (hrest _ hrest')

namespace Interpreter

section

variable [Machine]

theorem follows_condition {condition condition' : Expr} (h : condition.Condition condition') :
    leveling.Compares () (fun v w => w.isTruthy = v.isTruthy) (eval condition)
      (eval condition') := by
  rcases h with rfl | rfl
  · exact (follows_eval condition').mono fun v w hvw => by rw [hvw]
  · exact (follows_push condition none nofun).mono fun v w => Truth.same

/-- Negations can be pushed down to the leaves of a condition. Without a nesting limit, the same
leaves are then evaluated in the same order and from the same states, the evaluation fails in the
same way and leaves the same state, and if it has a value, then one of the same truth. So programs
run as before with any of the conditions of their `if` statements in this form. -/
theorem nnf_agrees :
    (∀ condition : Expr, condition.nnf.IsNnf) ∧
      (∀ (condition : Expr) (s : Interpreter), s.maxDepth ≤ 0 →
        condition.nnf.leaves s = condition.leaves s ∧
          (eval condition s).1.Rel (fun v w => w.isTruthy = v.isTruthy)
            (eval condition.nnf s).1 ∧
          (eval condition.nnf s).2 = (eval condition s).2) ∧
      ∀ program program' : List Stmt, List.Forall₂ Stmt.Conditioned program program' →
        ∀ s : Interpreter, s.maxDepth ≤ 0 → execute program' s = execute program s := by
  have hnone : ∀ b ∈ (none : Option Token), b.kind = .bang := fun b hb => by cases hb
  refine ⟨fun c => c.isNnf_push none hnone, fun c s hfree => ⟨?_, ?_⟩, ?_⟩
  · have hleaves := follow_push c none hnone s s.level hfree
    rwa [atLevel_of_level_eq rfl] at hleaves
  · have hsame := (follows_push c none hnone).mono fun _ _ => Truth.same
    exact hsame.at_own_level (keeps_eval c s) (keeps_eval c.nnf s) hfree
  · intro program program' hprograms s hfree
    have hruns := (Comparison.onStatements_leveling.exec_and_execute
      fun _ _ h _ => follows_condition h).2 _ _ _ (Stmt.Conditioned.stmts.2 _ _ hprograms) ()
    obtain ⟨hends, hafter⟩ := (hruns fun _ => trivial).at_own_level (keeps_execute program s)
      (keeps_execute program' s) hfree
    exact Prod.ext hends.eq hafter

end

/-- The condition `!(a and !(b = "no" or a))`. -/
def lastResort : Expr :=
  let bang : Token := .ofKind .bang 1
  let group (e : Expr) : Expr := .grouping (.ofKind .leftParen 1) e
  let a : Expr := .variable (.ofName "a" 1)
  .unary bang (group (.logical a (.ofKind .andWord 1)
    (.unary bang (group (.logical
      (.assign (.ofName "b" 1) (.literal (.ofName "no" 1) (.text "no"))) (.ofKind .orWord 1) a)))))

/-- The program `var a = true; var b; if (condition) print b;`. -/
def deciding (condition : Expr) : List Stmt :=
  [.var (.ofName "a" 1) (some (.literal (.ofKind .trueWord 1) (.bool true))),
    .var (.ofName "b" 1) none,
    .ite (.ofKind .ifWord 2) condition
      (.print (.ofKind .printWord 2) (.variable (.ofName "b" 2))) none]

/-- The right operand of the negated `and` is evaluated, and assigns `b`, in both forms. -/
theorem nnf_agrees_lastResort :
    let a : Expr := .variable (.ofName "a" 1)
    let group (e : Expr) : Expr := .grouping (.ofKind .leftParen 1) e
    lastResort.nnf = group (.logical (.unary (.ofKind .bang 1) a) (.ofKind .orWord 1)
        (group (.logical (.assign (.ofName "b" 1) (.literal (.ofName "no" 1) (.text "no")))
          (.ofKind .orWord 1) a))) ∧
      (new.limit 0).maxDepth ≤ 0 ∧
      List.Forall₂ Stmt.Conditioned (deciding lastResort) (deciding lastResort.nnf) ∧
      execute (deciding lastResort.nnf) (new.limit 0) =
        execute (deciding lastResort) (new.limit 0) ∧
      (execute (deciding lastResort) (new.limit 0)).2.printed = ["no"] := by
  intro a group
  have hforms : List.Forall₂ Stmt.Conditioned (deciding lastResort) (deciding lastResort.nnf) :=
    .cons (.var _ _) (.cons (.var _ _) (.cons (.iteNone (.inr rfl) (.print _ _)) .nil))
  exact ⟨rfl, by decide, hforms, nnf_agrees.2.2 _ _ hforms (new.limit 0) (by decide), by cbv⟩

end Interpreter

end TreeScript
