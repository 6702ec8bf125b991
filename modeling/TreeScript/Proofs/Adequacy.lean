import TreeScript.Proofs.BigStep
import TreeScript.Proofs.Restoration

/-!
# The interpreter follows the rules

An interpreter that has no nesting limit and cannot be asked to stop does with its linked
environments what the rules of the language say about a stack of scopes: `Interpreter.stack` is the
stack that its environments stand for. A run that ends in some way derives that ending
(`realizes_execute`); since the rules are deterministic, nothing else can be derived.
-/

namespace TreeScript

open BigStep (Stack Halt Result)

/-! ## Linked environments as a stack -/

namespace Forest

theorem find?_scopes {f : Forest} {i : Nat} (hi : i < f.size) (name : String) :
    Stack.find? name (f.scopes i) =
      (f.resolve? i name).bind fun j => (f.get? j).bind fun e => e.scope.find? name := by
  induction i, hi using rec_path with
  | root i e he ho =>
      rw [resolve?, path_root he ho, scopes_root he ho, Stack.find?, List.find?_cons,
        binds_eq_isSome he]
      cases hv : e.scope.find? name with
      | none => rfl
      | some v => simp [he, hv]
  | inner i e o he ho _ _ ih =>
      rw [resolve?, path_inner he ho, scopes_inner he ho, Stack.find?, List.find?_cons,
        binds_eq_isSome he, ih, resolve?]
      cases hv : e.scope.find? name with
      | none => rfl
      | some v => simp [he, hv]

theorem read_cases {f : Forest} {i : Nat} (hi : i < f.size) (name : Token) :
    (∃ v, f.read i name = .ok v ∧ Stack.find? name.lexeme (f.scopes i) = some v) ∨
      f.read i name = .error (.undefined name) ∧
        Stack.find? name.lexeme (f.scopes i) = none := by
  rw [find?_scopes hi, read]
  split
  next v hv => exact .inl ⟨v, rfl, hv⟩
  next hn => exact .inr ⟨rfl, hn⟩

theorem assign?_scopes {f : Forest} {i : Nat} (hi : i < f.size) (name : String)
    (value : Value) :
    Stack.assign? name value (f.scopes i) =
      (f.resolve? i name).map fun j => (f.define j name value).scopes i := by
  induction i, hi using rec_path with
  | root i e he ho =>
      rw [resolve?, path_root he ho, scopes_root he ho]
      simp only [Stack.assign?, List.find?_cons, List.find?_nil, binds_eq_isSome he]
      cases hb : (e.scope.find? name).isSome with
      | true => simp [scopes_define (lt_size he) (scopes_root he ho)]
      | false => simp
  | inner i e o he ho hlt hsize ih =>
      rw [resolve?, path_inner he ho, scopes_inner he ho]
      simp only [Stack.assign?, List.find?_cons, binds_eq_isSome he]
      cases hb : (e.scope.find? name).isSome with
      | true => simp [scopes_define (lt_size he) (scopes_inner he ho)]
      | false =>
          rw [ih, resolve?]
          cases hj : (f.path o).find? (f.binds name) with
          | none => simp
          | some j =>
              -- The changed scope is further out, so the link from `i` is as before.
              have hle : j ≤ o := le_of_mem_path hsize (List.mem_of_find?_eq_some hj)
              have he' : (f.define j name value).get? i = some e := by
                rw [get?_define, if_neg (by omega), he]
              simp [scopes_inner he' ho]

theorem assign_cases {f : Forest} {i : Nat} (hi : i < f.size) (name : Token) (value : Value) :
    (∃ g, f.assign i name value = .ok g ∧
        Stack.assign? name.lexeme value (f.scopes i) = some (g.scopes i)) ∨
      f.assign i name value = .error (.undefined name) ∧
        Stack.assign? name.lexeme value (f.scopes i) = none := by
  rw [assign?_scopes hi, assign]
  cases f.resolve? i name.lexeme with
  | none => exact .inr ⟨rfl, rfl⟩
  | some j => exact .inl ⟨_, rfl, rfl⟩

end Forest

/-! ## Interpreters as stacks -/

def Outcome.result {α : Type} : Outcome α → Result α
  | .value a => .ok a
  | .error e => .error (.error e)
  | .fault f => .error (.fault f)

namespace Interpreter

def stack (s : Interpreter) : Stack := s.chain.forest.scopes s.chain.current

/-- Neither a nesting limit nor a signal can end a run, and there is a current environment. -/
structure Ready (s : Interpreter) : Prop where
  maxDepth : s.maxDepth ≤ 0
  signal : s.signal = .absent
  current : s.chain.current < s.chain.forest.size

namespace Ready

theorem of_keeps {s t : Interpreter} (h : s.Ready) (hst : s.Keeps t) : t.Ready := by
  refine ⟨?_, hst.signal h.signal, ?_⟩
  · rw [hst.maxDepth]
    exact h.maxDepth
  · rw [hst.current]
    exact hst.forest.lt_size h.current

theorem descend {s : Interpreter} (h : s.Ready) : s.descend.Ready :=
  ⟨h.maxDepth, h.signal, h.current⟩

theorem enter {s : Interpreter} (h : s.Ready) :
    Ready { s with chain := s.chain.enter } := by
  refine ⟨h.maxDepth, h.signal, ?_⟩
  change s.chain.forest.size < (s.chain.forest.enclose s.chain.current).size
  rw [Forest.size_enclose]
  omega

end Ready

theorem exists_stack_eq_cons {s : Interpreter} (h : s.chain.current < s.chain.forest.size) :
    ∃ scope outer, s.stack = scope :: outer := by
  obtain ⟨e, he⟩ := Forest.exists_get? h
  cases ho : e.outer with
  | none => exact ⟨e.scope, [], Forest.scopes_root he ho⟩
  | some o => exact ⟨e.scope, s.chain.forest.scopes o, Forest.scopes_inner he ho⟩

theorem stack_enter {s : Interpreter} (h : s.chain.current < s.chain.forest.size) :
    stack { s with chain := s.chain.enter } = .empty :: s.stack :=
  Forest.scopes_enclose_new h

/-- A new environment keeps its link, so leaving it drops exactly the innermost scope. -/
theorem exists_stack_eq_leave {s t : Interpreter} (h : s.chain.current < s.chain.forest.size)
    (hkeeps : Keeps { s with chain := s.chain.enter } t) :
    ∃ inner, t.stack = inner :: stack { t with chain := t.chain.leave s.chain.current } := by
  have hnew : (s.chain.forest.enclose s.chain.current).get? s.chain.forest.size =
      some ⟨.empty, some s.chain.current⟩ := Forest.get?_enclose_new h
  obtain ⟨e, he, ho, -⟩ := hkeeps.forest _ _ hnew
  have hcurrent : t.chain.current = s.chain.forest.size := hkeeps.current
  refine ⟨e.scope, ?_⟩
  rw [stack, hcurrent]
  exact Forest.scopes_inner he ho

end Interpreter

/-! ## Runs that derive what they do -/

/-- What a computation may do: from a stack, have a result, print lines and leave a stack. -/
abbrev Meaning (α : Type) : Type := Stack → Result α → List String → Stack → Prop

namespace Meaning

variable {α β : Type}

def only (allowed : Result α → Prop) : Meaning α := fun σ o w σ₁ => allowed o ∧ w = [] ∧ σ₁ = σ

def andThen (first : Meaning α) (next : α → Meaning β) : Meaning β := fun σ o w σ₂ =>
  (∃ h, o = .error h ∧ first σ (.error h) w σ₂) ∨
    ∃ a w₁ w₂ σ₁, w = w₁ ++ w₂ ∧ first σ (.ok a) w₁ σ₁ ∧ next a σ₁ o w₂ σ₂

end Meaning

/-- From every interpreter that is ready, the computation does what it may do. -/
def Run.Realizes {α : Type} (run : Run α) (meaning : Meaning α) : Prop :=
  ∀ s : Interpreter, s.Ready → ∃ w, meaning s.stack (run s).1.result w (run s).2.stack ∧
    (run s).2.printed = w.reverse ++ s.printed

namespace Run.Realizes

variable {α β : Type} {meaning : Meaning α}

theorem mono {run : Run α} {meaning' : Meaning α} (h : run.Realizes meaning)
    (himp : ∀ σ o w σ₁, meaning σ o w σ₁ → meaning' σ o w σ₁) : run.Realizes meaning' := by
  intro s hs
  obtain ⟨w, hmeaning, hprinted⟩ := h s hs
  exact ⟨w, himp _ _ _ _ hmeaning, hprinted⟩

theorem of_static {run : Run α} {allowed : Result α → Prop} (h : run.Static)
    (hallowed : ∀ s, allowed (run s).1.result) : run.Realizes (.only allowed) := by
  obtain ⟨outcome, hrun⟩ := h
  intro s hs
  have hs' := hallowed s
  rw [hrun] at hs' ⊢
  exact ⟨[], ⟨hs', rfl, rfl⟩, rfl⟩

theorem pure (a : α) : Run.Realizes (Run.pure a) (.only fun o => o = .ok a) :=
  of_static (Run.static_pure a) fun _ => rfl

theorem ite {condition : Bool} {yes no : Run α} {meaning' : Meaning α}
    (hyes : yes.Realizes meaning) (hno : no.Realizes meaning') :
    Run.Realizes (if condition then yes else no) fun σ o w σ₁ =>
      condition = true ∧ meaning σ o w σ₁ ∨ condition = false ∧ meaning' σ o w σ₁ := by
  cases condition with
  | true => exact hyes.mono fun _ _ _ _ h => .inl ⟨rfl, h⟩
  | false => exact hno.mono fun _ _ _ _ h => .inr ⟨rfl, h⟩

theorem bind {run : Run α} {next : α → Run β} {later : α → Meaning β}
    (hkeeps : run.Respects Interpreter.Keeps) (hrun : run.Realizes meaning)
    (hnext : ∀ a, (next a).Realizes (later a)) :
    Run.Realizes (run >>= next) (meaning.andThen later) := by
  intro s hs
  have hk := hkeeps s
  obtain ⟨w₁, hmeaning, hprinted⟩ := hrun s hs
  rcases hrs : run s with ⟨outcome, t⟩
  rw [hrs] at hk hmeaning hprinted
  cases outcome with
  | value a =>
      rw [Run.bind_of_value hrs]
      obtain ⟨w₂, hlater, hprinted'⟩ := hnext a t (hs.of_keeps hk)
      refine ⟨w₁ ++ w₂, .inr ⟨a, w₁, w₂, t.stack, rfl, hmeaning, hlater⟩, ?_⟩
      rw [hprinted', hprinted, List.reverse_append, List.append_assoc]
  | error e =>
      rw [Run.bind_of_error hrs]
      exact ⟨w₁, .inl ⟨.error e, rfl, hmeaning⟩, hprinted⟩
  | fault f =>
      rw [Run.bind_of_fault hrs]
      exact ⟨w₁, .inl ⟨.fault f, rfl, hmeaning⟩, hprinted⟩

theorem nested {token : Token} {body : Run α} (hbody : body.Realizes meaning) :
    Run.Realizes (Interpreter.nested token body) meaning := by
  intro s hs
  rw [Interpreter.nested_of_nonpos hs.maxDepth]
  exact hbody s.descend hs.descend

theorem statement {token : Token} {body : Run Unit} {meaning : Meaning Unit}
    (hbody : body.Realizes meaning) : Run.Realizes (Interpreter.statement token body) meaning := by
  refine nested fun s hs => ?_
  have hlook : Interpreter.checkSignal token s = (.value (), s) := by
    simp only [Interpreter.checkSignal, hs.signal, Signal.cause?, Signal.looked]
    rw [← hs.signal]
  rw [Run.bind_of_value hlook]
  exact hbody s hs

/-- The scope of a block is dropped however the block ends. -/
theorem inScope {body : Run α} (hkeeps : body.Respects Interpreter.Keeps)
    (hbody : body.Realizes meaning) :
    Run.Realizes (Interpreter.inScope body) fun σ o w σ₁ =>
      ∃ inner, meaning (.empty :: σ) o w (inner :: σ₁) := by
  intro s hs
  obtain ⟨w, hmeaning, hprinted⟩ := hbody _ hs.enter
  obtain ⟨inner, hinner⟩ := Interpreter.exists_stack_eq_leave hs.current (hkeeps _)
  rw [Interpreter.stack_enter hs.current, hinner] at hmeaning
  exact ⟨w, ⟨inner, hmeaning⟩, hprinted⟩

theorem read [Machine] (name : Token) : Run.Realizes (Interpreter.read name) fun σ o w σ₁ =>
    BigStep.Eval σ (.variable name) o σ₁ ∧ w = [] := by
  intro s hs
  refine ⟨[], ⟨?_, rfl⟩, ?_⟩
  · rcases Forest.read_cases hs.current name with ⟨v, hread, hfind⟩ | ⟨hread, hfind⟩
    · have hrun : Interpreter.read name s = (.value v, s) := by
        simp only [Interpreter.read, Chain.read, hread]
      rw [hrun]
      exact .variable hfind
    · have hrun : Interpreter.read name s = (.error (.undefined name), s) := by
        simp only [Interpreter.read, Chain.read, hread]
      rw [hrun]
      exact .unbound hfind
  · simp only [Interpreter.read]
    split <;> rfl

theorem write (name : Token) (v : Value) : Run.Realizes (Interpreter.write name v)
    fun σ o w σ₁ => w = [] ∧
      (o = .ok v ∧ σ.assign? name.lexeme v = some σ₁ ∨
        o = .error (.error (.undefined name)) ∧ σ.assign? name.lexeme v = none ∧ σ₁ = σ) := by
  intro s hs
  rcases Forest.assign_cases hs.current name v with ⟨g, hassign, hstack⟩ | ⟨hassign, hstack⟩
  · have hrun : Interpreter.write name v s =
        (.value v, { s with chain := { s.chain with forest := g } }) := by
      simp only [Interpreter.write, Chain.assign, hassign]
      rfl
    rw [hrun]
    exact ⟨[], ⟨rfl, .inl ⟨rfl, hstack⟩⟩, rfl⟩
  · have hrun : Interpreter.write name v s = (.error (.undefined name), s) := by
      simp only [Interpreter.write, Chain.assign, hassign]
      rfl
    rw [hrun]
    exact ⟨[], ⟨rfl, .inr ⟨rfl, hstack, rfl⟩⟩, rfl⟩

theorem declare (name : Token) (v : Value) : Run.Realizes (Interpreter.declare name v)
    fun σ o w σ₁ => o = .ok () ∧ w = [] ∧
      ∃ scope outer, σ = scope :: outer ∧ σ₁ = scope.define name.lexeme v :: outer := by
  intro s hs
  obtain ⟨scope, outer, hstack⟩ := Interpreter.exists_stack_eq_cons hs.current
  refine ⟨[], ⟨rfl, rfl, scope, outer, hstack, ?_⟩, rfl⟩
  exact Forest.scopes_define hs.current hstack name.lexeme v

theorem printLine (line : String) : Run.Realizes (Interpreter.printLine line)
    fun σ o w σ₁ => o = .ok () ∧ w = [line] ∧ σ₁ = σ :=
  fun _ _ => ⟨[line], ⟨rfl, rfl, rfl⟩, rfl⟩

end Run.Realizes

/-! ## Operators -/

namespace BigStep

theorem isTruthy_iff (v : Value) : v.isTruthy = true ↔ ¬ Falsy v := by
  constructor
  · intro htruthy hfalsy
    cases hfalsy <;> cases htruthy
  · intro hfalsy
    match v with
    | .nil => exact absurd .nil hfalsy
    | .bool false => exact absurd .no hfalsy
    | .bool true | .number _ | .text _ => rfl

theorem isTruthy_eq_false_iff (v : Value) : v.isTruthy = false ↔ Falsy v := by
  rw [← Bool.not_eq_true, isTruthy_iff, Classical.not_not]

theorem not_isTruthy_iff (v : Value) : (!v.isTruthy) = true ↔ Falsy v := by
  rw [Bool.not_eq_true', isTruthy_eq_false_iff]

theorem equals_iff (l r : Value) : l.equals r = true ↔ Same l r := by
  constructor
  · intro h
    match l, r with
    | .nil, .nil => exact .nil
    | .bool a, .bool b => rw [eq_of_beq h]; exact .bool
    | .number x, .number y => exact .number h
    | .text s, .text t => rw [eq_of_beq h]; exact .text
  · intro h
    cases h with
    | nil => rfl
    | bool => exact beq_self_eq_true _
    | number hsame => exact hsame
    | text => exact beq_self_eq_true _

theorem constant_run (token : Token) (l : Literal) (s : Interpreter) :
    Constant token l (Interpreter.constant token l s).1.result := by
  cases l with
  | nil => exact .nil
  | bool b => exact .bool
  | number x => exact .number
  | integer i => exact .integer
  | text s => exact .text
  | foreign name => exact .foreign

/-- What the left operand of `and` or `or` tells: whether it is the result, if the operator is one
of the two. -/
inductive Decision (op : Token) (kind : Token.Kind) (l : Value) : Result Bool → Prop where
  | known {decided} : kind ∈ lazy → (decided = true ↔ Decides kind l) →
    Decision op kind l (.ok decided)
  | unknown : kind ∉ lazy → Decision op kind l (.error (.fault (.logical op.lexeme)))

theorem decides_or_iff (l : Value) : Decides .orWord l ↔ ¬ Falsy l :=
  ⟨fun h => by cases h; assumption, .or⟩

theorem decides_and_iff (l : Value) : Decides .andWord l ↔ Falsy l :=
  ⟨fun h => by cases h; assumption, .and⟩

theorem decision_run (op : Token) (l : Value) (s : Interpreter) :
    Decision op op.kind l (Interpreter.decides op l s).1.result := by
  unfold Interpreter.decides
  cases op.kind with
  | orWord => exact .known (by decide) ((isTruthy_iff l).trans (decides_or_iff l).symm)
  | andWord => exact .known (by decide) ((not_isTruthy_iff l).trans (decides_and_iff l).symm)
  | _ => exact .unknown (by simp [lazy])

variable [Machine]

theorem unary_run (op : Token) (v : Value) (s : Interpreter) :
    Unary op op.kind v (Interpreter.applyUnary op v s).1.result := by
  unfold Interpreter.applyUnary
  cases op.kind with
  | bang => exact .not (not_isTruthy_iff v)
  | minus =>
      cases v with
      | number x => exact .negative
      | _ => exact .badOperand fun h => by cases h
  | _ => exact .unknown (by simp)

theorem numeric_run (op : Token) (x y : Double) (s : Interpreter) :
    Numeric op op.kind x y (Interpreter.applyNumeric op x y s).1.result := by
  unfold Interpreter.applyNumeric
  cases op.kind with
  | greater => exact .greater
  | greaterEqual => exact .greaterEqual
  | less => exact .less
  | lessEqual => exact .lessEqual
  | minus => exact .difference
  | star => exact .product
  | slash =>
      cases hzero : Number.isZero y with
      | true => exact .zeroDivisor hzero
      | false => exact .quotient hzero
  | _ => exact .unknown (by simp [numeric])

theorem plus_run (op : Token) (l r : Value) (s : Interpreter) :
    Binary op .plus l r (Interpreter.add op l r s).1.result := by
  unfold Interpreter.add
  split
  next x y => exact .sum
  next x t => exact .sumText
  next s t => exact .join
  next s y => exact .textSum
  next h₁ h₂ h₃ h₄ =>
    refine .badAddends ?_
    rintro ⟨⟨⟩, ⟨⟩⟩
    · exact h₁ _ _ rfl rfl
    · exact h₂ _ _ rfl rfl
    · exact h₄ _ _ rfl rfl
    · exact h₃ _ _ rfl rfl

theorem applyBinary_of_not_liberal {op : Token} (h : op.kind ∉ liberal) (l r : Value) :
    Interpreter.applyBinary op l r =
      match l, r with
      | .number x, .number y => Interpreter.applyNumeric op x y
      | _, _ => .fail (.badOperands op "Operands must be numbers.") := by
  unfold Interpreter.applyBinary
  split
  next hkind => exact absurd (by rw [hkind]; decide) h
  next hkind => exact absurd (by rw [hkind]; decide) h
  next hkind => exact absurd (by rw [hkind]; decide) h
  next => rfl

theorem binary_run (op : Token) (l r : Value) (s : Interpreter) :
    Binary op op.kind l r (Interpreter.applyBinary op l r s).1.result := by
  by_cases hkind : op.kind ∈ liberal
  · unfold Interpreter.applyBinary
    simp only [liberal, List.mem_cons, List.not_mem_nil, or_false] at hkind
    rcases hkind with hkind | hkind | hkind
    · rw [hkind]
      exact .equal (equals_iff l r)
    · rw [hkind]
      refine .different ?_
      rw [Bool.not_eq_true', ← Bool.not_eq_true, equals_iff]
    · rw [hkind]
      exact plus_run op l r s
  · rw [applyBinary_of_not_liberal hkind]
    split
    next x y => exact .numbers hkind (numeric_run op x y s)
    next hnumbers =>
      refine .badOperands hkind ?_
      rintro ⟨⟨⟩, ⟨⟩⟩
      exact hnumbers _ _ rfl rfl

end BigStep

/-! ## Runs -/

namespace Interpreter

open Run (Realizes)

theorem AtRest.ready {s : Interpreter} (h : s.AtRest) (hfree : s.maxDepth ≤ 0)
    (hsignal : s.signal = .absent) : s.Ready := by
  obtain ⟨e, he, -⟩ := h.outermost
  refine ⟨hfree, hsignal, ?_⟩
  rw [h.current]
  exact Forest.lt_size he

section

variable [Machine]

def evaluates (e : Expr) : Meaning Value := fun σ o w σ₁ => BigStep.Eval σ e o σ₁ ∧ w = []

theorem realizes_logical {left right : Expr} (op : Token)
    (hleft : Realizes (eval left) (evaluates left))
    (hright : Realizes (eval right) (evaluates right)) :
    Realizes (do let l ← eval left; if ← decides op l then pure l else eval right)
      (evaluates (.logical left op right)) := by
  refine .mono (.bind (keeps_eval left) hleft fun l => .bind (keeps_decides op l)
    (.of_static (static_decides op l) (BigStep.decision_run op l)) fun decided =>
      .ite (.pure l) hright) ?_
  rintro σ o w σ₂ (⟨h, rfl, hl, rfl⟩ | ⟨l, _, _, σ₁, rfl, ⟨hl, rfl⟩, hrest⟩)
  · exact ⟨.logicalHalt hl, rfl⟩
  · rcases hrest with ⟨h, rfl, hunknown, rfl, rfl⟩ | ⟨decided, _, _, _, rfl, hknown, hbranch⟩
    · cases hunknown with
      | unknown hkind => exact ⟨.logicalUnknown hl hkind, rfl⟩
    · obtain ⟨⟨hkind, hiff⟩, rfl, rfl⟩ := hknown
      rcases hbranch with ⟨rfl, rfl, rfl, rfl⟩ | ⟨rfl, hr, rfl⟩
      · exact ⟨.logicalLeft hl (hiff.1 rfl), rfl⟩
      · refine ⟨.logicalRight hl hkind (fun h => ?_) hr, rfl⟩
        cases hiff.2 h

theorem realizes_eval (e : Expr) : Realizes (eval e) (evaluates e) := by
  induction e with
  | literal token l =>
      refine .nested (.mono
        (.of_static (static_constant token l) (BigStep.constant_run token l)) ?_)
      rintro σ o w _ ⟨hconstant, rfl, rfl⟩
      exact ⟨.literal hconstant, rfl⟩
  | grouping token inner ih =>
      refine .nested (ih.mono ?_)
      rintro σ o w σ₁ ⟨hinner, rfl⟩
      exact ⟨.grouping hinner, rfl⟩
  | unary op right ih =>
      refine .nested (.mono (.bind (keeps_eval right) ih fun r =>
        .of_static (static_applyUnary op r) (BigStep.unary_run op r)) ?_)
      rintro σ o w σ₁ (⟨h, rfl, hright, rfl⟩ | ⟨r, _, _, _, rfl, ⟨hright, rfl⟩, hop, rfl, rfl⟩)
      · exact ⟨.unaryHalt hright, rfl⟩
      · exact ⟨.unary hright hop, rfl⟩
  | binary left op right ihl ihr =>
      refine .nested (.mono (.bind (keeps_eval left) ihl fun l => .bind (keeps_eval right) ihr
        fun r => .of_static (static_applyBinary op l r) (BigStep.binary_run op l r)) ?_)
      rintro σ o w σ₂ (⟨h, rfl, hleft, rfl⟩ | ⟨l, _, _, σ₁, rfl, ⟨hleft, rfl⟩,
        ⟨h, rfl, hright, rfl⟩ | ⟨r, _, _, _, rfl, ⟨hright, rfl⟩, hop, rfl, rfl⟩⟩)
      · exact ⟨.binaryHaltLeft hleft, rfl⟩
      · exact ⟨.binaryHaltRight hleft hright, rfl⟩
      · exact ⟨.binary hleft hright hop, rfl⟩
  | logical left op right ihl ihr => exact .nested (realizes_logical op ihl ihr)
  | «variable» name => exact .nested (.read name)
  | assign name value ih =>
      refine .nested (.mono (.bind (keeps_eval value) ih fun v => .write name v) ?_)
      rintro σ o w σ₂ (⟨h, rfl, hvalue, rfl⟩ | ⟨v, _, _, σ₁, rfl, ⟨hvalue, rfl⟩, rfl,
        ⟨rfl, hassign⟩ | ⟨rfl, hassign, rfl⟩⟩)
      · exact ⟨.assignHalt hvalue, rfl⟩
      · exact ⟨.assign hvalue hassign, rfl⟩
      · exact ⟨.assignUnbound hvalue hassign, rfl⟩

def executes (stmt : Stmt) : Meaning Unit := fun σ o w σ₁ => BigStep.Exec σ stmt o w σ₁

def executesAll (program : List Stmt) : Meaning Unit := fun σ o w σ₁ =>
  BigStep.ExecAll σ program o w σ₁

theorem realizes_exec_and_execute :
    (∀ stmt, Realizes (exec stmt) (executes stmt)) ∧
      ∀ program, Realizes (execute program) (executesAll program) := by
  apply Stmt.induction
  case expression =>
    intro token expr
    refine .statement (.mono (.bind (keeps_eval expr) (realizes_eval expr) fun v =>
      .pure ()) ?_)
    rintro σ o w σ₁ (⟨h, rfl, hexpr, rfl⟩ | ⟨v, _, _, _, rfl, ⟨hexpr, rfl⟩, rfl, rfl, rfl⟩)
    · exact .expressionHalt hexpr
    · exact .expression hexpr
  case print =>
    intro token expr
    refine .statement (.mono (.bind (keeps_eval expr) (realizes_eval expr) fun v =>
      .printLine v.display) ?_)
    rintro σ o w σ₁ (⟨h, rfl, hexpr, rfl⟩ | ⟨v, _, _, _, rfl, ⟨hexpr, rfl⟩, rfl, rfl, rfl⟩)
    · exact .printHalt hexpr
    · exact .print hexpr
  case varNil =>
    intro name
    refine .statement (.mono (.declare name .nil) ?_)
    rintro σ o w σ₁ ⟨rfl, rfl, scope, outer, rfl, rfl⟩
    exact .varNil
  case varInit =>
    intro name init
    refine .statement (.mono (.bind (keeps_eval init) (realizes_eval init) fun v =>
      .declare name v) ?_)
    rintro σ o w σ₁ (⟨h, rfl, hinit, rfl⟩ | ⟨v, _, _, _, rfl, ⟨hinit, rfl⟩, rfl, rfl, scope, outer,
      rfl, rfl⟩)
    · exact .varHalt hinit
    · exact .var hinit
  case iteNone =>
    intro token condition yes hyes
    refine .statement (.mono (.bind (keeps_eval condition) (realizes_eval condition) fun c =>
      .ite hyes (.pure ())) ?_)
    rintro σ o w σ₂ (⟨h, rfl, hc, rfl⟩ | ⟨c, _, _, σ₁, rfl, ⟨hc, rfl⟩, hbranch⟩)
    · exact .conditionHalt hc
    · rcases hbranch with ⟨htruthy, hyes⟩ | ⟨hfalsy, rfl, rfl, rfl⟩
      · exact .yes hc ((BigStep.isTruthy_iff c).1 htruthy) hyes
      · exact .skip hc ((BigStep.isTruthy_eq_false_iff c).1 hfalsy)
  case iteSome =>
    intro token condition yes no hyes hno
    refine .statement (.mono (.bind (keeps_eval condition) (realizes_eval condition) fun c =>
      .ite hyes hno) ?_)
    rintro σ o w σ₂ (⟨h, rfl, hc, rfl⟩ | ⟨c, _, _, σ₁, rfl, ⟨hc, rfl⟩, hbranch⟩)
    · exact .conditionHalt hc
    · rcases hbranch with ⟨htruthy, hyes⟩ | ⟨hfalsy, hno⟩
      · exact .yes hc ((BigStep.isTruthy_iff c).1 htruthy) hyes
      · exact .no hc ((BigStep.isTruthy_eq_false_iff c).1 hfalsy) hno
  case block =>
    intro token body hbody
    refine .statement (.mono (.inScope (keeps_execute body) hbody) ?_)
    rintro σ o w σ₁ ⟨inner, hall⟩
    exact .block hall
  case nil =>
    refine .mono (.pure ()) ?_
    rintro σ o w σ₁ ⟨rfl, rfl, rfl⟩
    exact .nil
  case cons =>
    intro stmt rest hstmt hrest
    refine .mono (.bind (keeps_exec stmt) hstmt fun _ => hrest) ?_
    rintro σ o w σ₂ (⟨h, rfl, hhalt⟩ | ⟨_, w₁, w₂, σ₁, rfl, hok, hall⟩)
    · exact .halt hhalt
    · exact .cons hok hall

theorem realizes_execute (program : List Stmt) : Realizes (execute program) (executesAll program) :=
  realizes_exec_and_execute.2 program

/-! ## Calls -/

/-- A call derives its own result, output and global scope. -/
theorem exists_execAll_execute {s : Interpreter} (hrest : s.AtRest) (hready : s.Ready)
    (program : List Stmt) :
    ∃ w, BigStep.ExecAll [s.chain.globals] program (execute program s).1.result w
        [(execute program s).2.chain.globals] ∧
      (execute program s).2.printed = w.reverse ++ s.printed := by
  obtain ⟨w, hall, hprinted⟩ := realizes_execute program s hready
  have hrest' : (execute program s).2.AtRest :=
    hrest.of_restores (keeps_execute program s).toRestores
  have hbefore : s.stack = [s.chain.globals] := hrest.scopes_eq
  have hafter : (execute program s).2.stack = [(execute program s).2.chain.globals] :=
    hrest'.scopes_eq
  rw [executesAll, hbefore, hafter] at hall
  exact ⟨w, hall, hprinted⟩

/-- A call ends in a result, an output and a global scope exactly if the rules of the language
derive them from the global scope before it. -/
theorem execute_iff_execAll (s : Interpreter) (hrest : s.AtRest) (hfree : s.maxDepth ≤ 0)
    (hsignal : s.signal = .absent) (program : List Stmt) (o : Result Unit) (w : List String)
    (g : Scope) :
    (execute program s).1.result = o ∧ (execute program s).2.printed = w.reverse ++ s.printed ∧
        (execute program s).2.chain.globals = g ↔
      BigStep.ExecAll [s.chain.globals] program o w [g] := by
  -- What the call did is derived; the rules are deterministic, so what is derived is what it did.
  obtain ⟨w', hall, hprinted⟩ :=
    exists_execAll_execute hrest (hrest.ready hfree hsignal) program
  constructor
  · rintro ⟨rfl, hw, rfl⟩
    have hlines : w = w' := by
      rw [hprinted] at hw
      exact (List.reverse_inj.1 (List.append_cancel_right hw)).symm
    rw [hlines]
    exact hall
  · intro hderived
    obtain ⟨ho, hw, hg⟩ := BigStep.execAll_deterministic program hall hderived
    refine ⟨ho, ?_, ?_⟩
    · rw [hprinted, hw]
    · exact List.singleton_inj.1 hg

end

/-- The statement `print x;` -/
def printing : Stmt := .print (.ofKind .printWord 1) (.variable (.ofName "x" 1))

/-- The program `{ var x; print x; } print x;` -/
def shadowing : List Stmt :=
  [.block (.ofKind .leftBrace 1) [.var (.ofName "x" 1) none, printing], printing]

theorem exec_printing {scope : Scope} {v : Value} (h : scope.find? "x" = some v) (outer : Stack) :
    BigStep.Exec (scope :: outer) printing (.ok ()) [v.display] (scope :: outer) := by
  refine .print (.variable ?_)
  change Stack.find? "x" (scope :: outer) = some v
  rw [Stack.find?, h]
  rfl

theorem execute_shadowing :
    let g := Scope.empty.define "x" (.bool true)
    let s : Interpreter := { chain := .ofGlobal g, maxDepth := 0 }
    s.AtRest ∧ s.maxDepth ≤ 0 ∧ s.signal = .absent ∧
      (execute shadowing s).1.result = .ok () ∧
      (execute shadowing s).2.printed = ["true", "nil"] ∧
      (execute shadowing s).2.chain.globals = g := by
  intro g s
  have hrest : s.AtRest := ⟨rfl, rfl, _, rfl, rfl⟩
  have hinner : (Scope.empty.define "x" .nil).find? "x" = some .nil := rfl
  have houter : g.find? "x" = some (.bool true) := rfl
  have hbody : BigStep.ExecAll [.empty, g] [.var (.ofName "x" 1) none, printing] (.ok ()) ["nil"]
      [Scope.empty.define "x" .nil, g] := by
    have hprint := BigStep.ExecAll.cons (exec_printing hinner [g]) .nil
    exact BigStep.ExecAll.cons .varNil hprint
  have hall : BigStep.ExecAll [g] shadowing (.ok ()) ["nil", "true"] [g] := by
    have hprint := BigStep.ExecAll.cons (exec_printing houter []) .nil
    exact BigStep.ExecAll.cons (.block hbody) hprint
  exact ⟨hrest, Int.le_refl 0, rfl,
    (execute_iff_execAll s hrest (Int.le_refl 0) rfl shadowing _ _ _).2 hall⟩

end Interpreter

end TreeScript
