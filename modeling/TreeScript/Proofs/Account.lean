import TreeScript.Proofs.Run

/-!
# Accounts of runs

What happens in a run can be told in several ways: the statements it comes to and what they change,
the nodes and how deep they are, or every single step. An `Account` says how what is told of a node
is put together from what is told of its parts, and `Account.expr`, `Account.stmt` and
`Account.list` put it together along a tree, in the way of `Interpreter.eval`, `Interpreter.exec`
and `Interpreter.execute`.

`Account.Closed` lists what has to be shown of the parts of computations for a relation between
computations and what is told of them. `Closed.eval`, `Closed.exec` and `Closed.execute` conclude
that it holds of every run. A relation between the states before and after a run is the case where
nothing is told: `StepClosed` says what it has to hold over.
-/

namespace TreeScript

/-! ## The nodes of a tree -/

/-- A node of a program. -/
inductive Construct where
  | expression (e : Expr)
  | statement (stmt : Stmt)

namespace Construct

def token : Construct → Token
  | .expression e => e.token
  | .statement stmt => stmt.token

def after [Machine] : Construct → Interpreter → Interpreter
  | .expression e, s => (Interpreter.eval e s).2
  | .statement stmt, s => (Interpreter.exec stmt s).2

/-- The computations of a node itself that leave the state as it is. -/
inductive Does [Machine] : Construct → ∀ {α : Type}, Run α → Prop where
  | constant (token value) :
    Does (.expression (.literal token value)) (Interpreter.constant token value)
  | applyUnary (op right v) : Does (.expression (.unary op right)) (Interpreter.applyUnary op v)
  | applyBinary (left op right l r) :
    Does (.expression (.binary left op right)) (Interpreter.applyBinary op l r)
  | decides (left op right l) :
    Does (.expression (.logical left op right)) (Interpreter.decides op l)
  | read (name) : Does (.expression (.variable name)) (Interpreter.read name)

theorem Does.static_or_read [Machine] {n : Construct} {α : Type} {run : Run α} (h : n.Does run) :
    run.Static ∨ ∃ name, n = .expression (.variable name) := by
  cases h with
  | constant token value => exact .inl (Interpreter.static_constant token value)
  | applyUnary op right v => exact .inl (Interpreter.static_applyUnary op v)
  | applyBinary left op right l r => exact .inl (Interpreter.static_applyBinary op l r)
  | decides left op right l => exact .inl (Interpreter.static_decides op l)
  | read name => exact .inr ⟨name, rfl⟩

theorem Does.state_eq [Machine] {n : Construct} {α : Type} {run : Run α} (h : n.Does run)
    (s : Interpreter) : (run s).2 = s := by
  rcases h.static_or_read with ⟨outcome, hrun⟩ | ⟨name, rfl⟩
  · rw [hrun s]
  · cases h
    simp only [Interpreter.read]
    split <;> rfl

end Construct

def Expr.nodes : Expr → List Construct
  | .literal token value => [.expression (.literal token value)]
  | .grouping token inner => .expression (.grouping token inner) :: inner.nodes
  | .unary op right => .expression (.unary op right) :: right.nodes
  | .binary left op right => .expression (.binary left op right) :: (left.nodes ++ right.nodes)
  | .logical left op right => .expression (.logical left op right) :: (left.nodes ++ right.nodes)
  | .variable name => [.expression (.variable name)]
  | .assign name value => .expression (.assign name value) :: value.nodes

mutual

def Stmt.nodes : Stmt → List Construct
  | .expression token expr => .statement (.expression token expr) :: expr.nodes
  | .print token expr => .statement (.print token expr) :: expr.nodes
  | .var name none => [.statement (.var name none)]
  | .var name (some init) => .statement (.var name (some init)) :: init.nodes
  | .ite token condition yes none =>
    .statement (.ite token condition yes none) :: (condition.nodes ++ Stmt.nodes yes)
  | .ite token condition yes (some no) =>
    .statement (.ite token condition yes (some no)) ::
      (condition.nodes ++ (Stmt.nodes yes ++ Stmt.nodes no))
  | .block token body => .statement (.block token body) :: Stmt.listNodes body

def Stmt.listNodes : List Stmt → List Construct
  | [] => []
  | stmt :: rest => Stmt.nodes stmt ++ Stmt.listNodes rest

end

theorem Expr.mem_nodes (e : Expr) : .expression e ∈ e.nodes := by
  cases e <;> exact List.mem_cons_self

theorem Stmt.mem_nodes (stmt : Stmt) : .statement stmt ∈ stmt.nodes := by
  cases stmt with
  | expression token expr => exact List.mem_cons_self
  | print token expr => exact List.mem_cons_self
  | var name init => cases init <;> exact List.mem_cons_self
  | ite token condition yes no => cases no <;> exact List.mem_cons_self
  | block token body => exact List.mem_cons_self

/-! ## Accounts -/

/-- How an account of a run is put together. -/
structure Account (S : Type) where
  nothing : S
  /-- What is told of a computation, and then of what follows it if it ends in a value. -/
  andThen {α : Type} : Run α → S → (α → S) → S
  /-- What is told of a node, by what is told of the computation in it. -/
  node : Construct → S → S
  inScope : Run Unit → S → S
  look : Token → S
  write : Token → Value → S
  declare : Token → Value → S
  printLine : String → S

namespace Account

variable {S : Type} [Machine]

def expr (A : Account S) : Expr → S
  | .literal token value => A.node (.expression (.literal token value)) A.nothing
  | .grouping token inner => A.node (.expression (.grouping token inner)) (A.expr inner)
  | .unary op right =>
    A.node (.expression (.unary op right))
      (A.andThen (Interpreter.eval right) (A.expr right) fun _ => A.nothing)
  | .binary left op right =>
    A.node (.expression (.binary left op right))
      (A.andThen (Interpreter.eval left) (A.expr left) fun _ =>
        A.andThen (Interpreter.eval right) (A.expr right) fun _ => A.nothing)
  | .logical left op right =>
    A.node (.expression (.logical left op right))
      (A.andThen (Interpreter.eval left) (A.expr left) fun l =>
        A.andThen (Interpreter.decides op l) A.nothing fun decided =>
          if decided then A.nothing else A.expr right)
  | .variable name => A.node (.expression (.variable name)) A.nothing
  | .assign name value =>
    A.node (.expression (.assign name value))
      (A.andThen (Interpreter.eval value) (A.expr value) (A.write name))

/-- What is told of a statement, by what is told of its body. -/
def statement (A : Account S) (stmt : Stmt) (body : S) : S :=
  A.node (.statement stmt)
    (A.andThen (Interpreter.checkSignal stmt.token) (A.look stmt.token) fun _ => body)

mutual

def stmt (A : Account S) : Stmt → S
  | .expression token expr =>
    A.statement (.expression token expr)
      (A.andThen (Interpreter.eval expr) (A.expr expr) fun _ => A.nothing)
  | .print token expr =>
    A.statement (.print token expr)
      (A.andThen (Interpreter.eval expr) (A.expr expr) fun v => A.printLine v.display)
  | .var name none => A.statement (.var name none) (A.declare name .nil)
  | .var name (some init) =>
    A.statement (.var name (some init))
      (A.andThen (Interpreter.eval init) (A.expr init) (A.declare name))
  | .ite token condition yes none =>
    A.statement (.ite token condition yes none)
      (A.andThen (Interpreter.eval condition) (A.expr condition) fun c =>
        if c.isTruthy then A.stmt yes else A.nothing)
  | .ite token condition yes (some no) =>
    A.statement (.ite token condition yes (some no))
      (A.andThen (Interpreter.eval condition) (A.expr condition) fun c =>
        if c.isTruthy then A.stmt yes else A.stmt no)
  | .block token body =>
    A.statement (.block token body) (A.inScope (Interpreter.execute body) (A.list body))

def list (A : Account S) : List Stmt → S
  | [] => A.nothing
  | stmt :: rest => A.andThen (Interpreter.exec stmt) (A.stmt stmt) fun _ => A.list rest

end

/-- What a node does first, with what is told of it. -/
inductive Part (A : Account S) : ∀ {α : Type}, Run α → S → Prop where
  | eval (e : Expr) : Part A (Interpreter.eval e) (A.expr e)
  | decides (op l) : Part A (Interpreter.decides op l) A.nothing
  | look (token) : Part A (Interpreter.checkSignal token) (A.look token)

/-- A relation between computations and what is told of them that holds of a computation once it
holds of its parts, in trees whose nodes are all in `C`. -/
structure Closed (A : Account S) (C : Construct → Prop)
    (Of : ∀ {α : Type}, Run α → S → Prop) : Prop where
  pure {α} (a : α) : Of (Run.pure a) A.nothing
  quiet {α n} {run : Run α} : C n → n.Does run → Of run A.nothing
  bind {α β} {run : Run α} {first : S} {next : α → Run β} {later : α → S} :
    A.Part run first → Of run first → (∀ a, Of (next a) (later a)) →
    Of (run >>= next) (A.andThen run first later)
  node {α n} {body : Run α} {told : S} : C n →
    n.after = (fun s => (Interpreter.nested n.token body s).2) → Of body told →
    Of (Interpreter.nested n.token body) (A.node n told)
  inScope {body told} : Of body told → Of (Interpreter.inScope body) (A.inScope body told)
  look {stmt} : C (.statement stmt) →
    Of (Interpreter.checkSignal stmt.token) (A.look stmt.token)
  write {name value} (v : Value) : C (.expression (.assign name value)) →
    Of (Interpreter.write name v) (A.write name v)
  declare (name v) : Of (Interpreter.declare name v) (A.declare name v)
  printLine (line) : Of (Interpreter.printLine line) (A.printLine line)
  sequence {stmt rest} : Of (Interpreter.exec stmt) (A.stmt stmt) →
    Of (Interpreter.execute rest) (A.list rest) →
    Of (Interpreter.execute (stmt :: rest)) (A.list (stmt :: rest))

namespace Closed

variable {A : Account S} {C : Construct → Prop} {Of : ∀ {α : Type}, Run α → S → Prop}

theorem eval (h : A.Closed C Of) (e : Expr) (he : ∀ n ∈ e.nodes, C n) :
    Of (Interpreter.eval e) (A.expr e) := by
  induction e with
  | literal token value =>
      have hnode := he _ List.mem_cons_self
      exact h.node (n := .expression (.literal token value)) hnode rfl
        (h.quiet hnode (.constant token value))
  | grouping token inner ih =>
      obtain ⟨hnode, hinner⟩ := List.forall_mem_cons.1 he
      exact h.node (n := .expression (.grouping token inner)) hnode rfl (ih hinner)
  | unary op right ih =>
      obtain ⟨hnode, hright⟩ := List.forall_mem_cons.1 he
      refine h.node (n := .expression (.unary op right)) hnode rfl ?_
      refine h.bind (.eval right) (ih hright) fun v => ?_
      exact h.quiet hnode (.applyUnary op right v)
  | binary left op right ihl ihr =>
      obtain ⟨hnode, hparts⟩ := List.forall_mem_cons.1 he
      obtain ⟨hleft, hright⟩ := List.forall_mem_append.1 hparts
      refine h.node (n := .expression (.binary left op right)) hnode rfl ?_
      refine h.bind (.eval left) (ihl hleft) fun l => ?_
      refine h.bind (.eval right) (ihr hright) fun r => ?_
      exact h.quiet hnode (.applyBinary left op right l r)
  | logical left op right ihl ihr =>
      obtain ⟨hnode, hparts⟩ := List.forall_mem_cons.1 he
      obtain ⟨hleft, hright⟩ := List.forall_mem_append.1 hparts
      refine h.node (n := .expression (.logical left op right)) hnode rfl ?_
      refine h.bind (.eval left) (ihl hleft) fun l => ?_
      refine h.bind (.decides op l) (h.quiet hnode (.decides left op right l)) fun decided => ?_
      cases decided with
      | true => exact h.pure l
      | false => exact ihr hright
  | «variable» name =>
      have hnode := he _ List.mem_cons_self
      exact h.node (n := .expression (.variable name)) hnode rfl (h.quiet hnode (.read name))
  | assign name value ih =>
      obtain ⟨hnode, hvalue⟩ := List.forall_mem_cons.1 he
      refine h.node (n := .expression (.assign name value)) hnode rfl ?_
      exact h.bind (.eval value) (ih hvalue) fun v => h.write v hnode

theorem statement (h : A.Closed C Of) {stmt : Stmt} (hnode : C (.statement stmt)) {body : Run Unit}
    {told : S} (hexec : Interpreter.exec stmt = Interpreter.statement stmt.token body)
    (hbody : Of body told) : Of (Interpreter.exec stmt) (A.statement stmt told) := by
  rw [hexec]
  refine h.node (n := .statement stmt) hnode ?_ ?_
  · funext s
    rw [Construct.after, hexec]
    rfl
  · exact h.bind (.look stmt.token) (h.look hnode) fun _ => hbody

theorem exec_and_execute (h : A.Closed C Of) :
    (∀ stmt : Stmt, (∀ n ∈ stmt.nodes, C n) → Of (Interpreter.exec stmt) (A.stmt stmt)) ∧
      ∀ program, (∀ n ∈ Stmt.listNodes program, C n) →
        Of (Interpreter.execute program) (A.list program) := by
  apply Stmt.induction
  case expression =>
    intro token expr hnodes
    obtain ⟨hnode, hexpr⟩ := List.forall_mem_cons.1 hnodes
    exact h.statement hnode rfl (h.bind (.eval expr) (h.eval expr hexpr) fun _ => h.pure ())
  case print =>
    intro token expr hnodes
    obtain ⟨hnode, hexpr⟩ := List.forall_mem_cons.1 hnodes
    refine h.statement hnode rfl (h.bind (.eval expr) (h.eval expr hexpr) fun v => ?_)
    exact h.printLine v.display
  case varNil =>
    intro name hnodes
    exact h.statement (hnodes _ List.mem_cons_self) rfl (h.declare name .nil)
  case varInit =>
    intro name init hnodes
    obtain ⟨hnode, hinit⟩ := List.forall_mem_cons.1 hnodes
    exact h.statement hnode rfl (h.bind (.eval init) (h.eval init hinit) (h.declare name))
  case iteNone =>
    intro token condition yes hyes hnodes
    obtain ⟨hnode, hparts⟩ := List.forall_mem_cons.1 hnodes
    obtain ⟨hcondition, hyes'⟩ := List.forall_mem_append.1 hparts
    refine h.statement hnode rfl ?_
    refine h.bind (.eval condition) (h.eval condition hcondition) fun c => ?_
    split
    · exact hyes hyes'
    · exact h.pure ()
  case iteSome =>
    intro token condition yes no hyes hno hnodes
    obtain ⟨hnode, hparts⟩ := List.forall_mem_cons.1 hnodes
    obtain ⟨hcondition, hbranches⟩ := List.forall_mem_append.1 hparts
    obtain ⟨hyes', hno'⟩ := List.forall_mem_append.1 hbranches
    refine h.statement hnode rfl ?_
    refine h.bind (.eval condition) (h.eval condition hcondition) fun c => ?_
    split
    · exact hyes hyes'
    · exact hno hno'
  case block =>
    intro token body hbody hnodes
    obtain ⟨hnode, hstmts⟩ := List.forall_mem_cons.1 hnodes
    exact h.statement hnode rfl (h.inScope (hbody hstmts))
  case nil => exact fun _ => h.pure ()
  case cons =>
    intro stmt rest hstmt hrest hnodes
    obtain ⟨hfirst, hothers⟩ := List.forall_mem_append.1 hnodes
    exact h.sequence (hstmt hfirst) (hrest hothers)

theorem exec (h : A.Closed C Of) (stmt : Stmt) (hnodes : ∀ n ∈ stmt.nodes, C n) :
    Of (Interpreter.exec stmt) (A.stmt stmt) :=
  h.exec_and_execute.1 stmt hnodes

theorem execute (h : A.Closed C Of) (program : List Stmt)
    (hnodes : ∀ n ∈ Stmt.listNodes program, C n) :
    Of (Interpreter.execute program) (A.list program) :=
  h.exec_and_execute.2 program hnodes

end Closed

/-- The account that tells nothing. -/
def silent : Account Unit where
  nothing := ()
  andThen _ _ _ := ()
  node _ _ := ()
  inScope _ _ := ()
  look _ := ()
  write _ _ := ()
  declare _ _ := ()
  printLine _ := ()

end Account

/-! ## What every run keeps -/

/-- A relation between states that holds over each step of an interpreter. -/
structure StepClosed (R : Interpreter → Interpreter → Prop) : Prop where
  refl : ∀ s, R s s
  trans : ∀ {s t u}, R s t → R t u → R s u
  nested : ∀ {s t}, R s.descend t → R s t.ascend
  inScope : ∀ {s t}, R { s with chain := s.chain.enter } t →
    R s { t with chain := t.chain.leave s.chain.current }
  look : ∀ s, R s { s with signal := s.signal.looked }
  write : ∀ {s name value chain}, s.chain.assign name value = .ok chain → R s { s with chain }
  declare : ∀ s name value, R s { s with chain := s.chain.define name value }
  printLine : ∀ s line,
    R s { s with printed := line :: s.printed, signal := s.signal.written }

namespace StepClosed

variable {R : Interpreter → Interpreter → Prop} {α β : Type}

theorem static_respects (h : StepClosed R) {run : Run α} (hrun : run.Static) :
    run.Respects R := by
  obtain ⟨outcome, hrun⟩ := hrun
  intro s
  rw [hrun s]
  exact h.refl s

theorem bind_respects (h : StepClosed R) {run : Run α} {next : α → Run β}
    (hrun : run.Respects R) (hnext : ∀ a, (next a).Respects R) :
    Run.Respects R (run >>= next) := by
  intro s
  have hs := hrun s
  rcases hrs : run s with ⟨outcome, t⟩
  rw [hrs] at hs
  cases outcome with
  | value a =>
      rw [Run.bind_of_value hrs]
      exact h.trans hs (hnext a t)
  | error e => rwa [Run.bind_of_error hrs]
  | fault f => rwa [Run.bind_of_fault hrs]

theorem nested_respects (h : StepClosed R) (token : Token) {body : Run α}
    (hbody : body.Respects R) : Run.Respects R (Interpreter.nested token body) := by
  intro s
  simp only [Interpreter.nested]
  split
  · exact h.nested (h.refl s.descend)
  · exact h.nested (hbody s.descend)

theorem inScope_respects (h : StepClosed R) {body : Run α} (hbody : body.Respects R) :
    Run.Respects R (Interpreter.inScope body) :=
  fun s => h.inScope (hbody { s with chain := s.chain.enter })

theorem checkSignal_respects (h : StepClosed R) (token : Token) :
    Run.Respects R (Interpreter.checkSignal token) := by
  intro s
  simp only [Interpreter.checkSignal]
  split
  · exact h.refl s
  · exact h.look s

theorem write_respects (h : StepClosed R) (name : Token) (value : Value) :
    Run.Respects R (Interpreter.write name value) := by
  intro s
  simp only [Interpreter.write]
  split
  next hchain => exact h.write hchain
  next => exact h.refl s

theorem closed [Machine] (h : StepClosed R) :
    Account.silent.Closed (fun _ => True) fun run _ => run.Respects R where
  pure a := h.static_respects (Run.static_pure a)
  quiet _ hrun s := by
    rw [hrun.state_eq s]
    exact h.refl s
  bind _ hrun hnext := h.bind_respects hrun hnext
  node _ _ hbody := h.nested_respects _ hbody
  inScope hbody := h.inScope_respects hbody
  look _ := h.checkSignal_respects _
  write v _ := h.write_respects _ v
  declare name v s := h.declare s name.lexeme v
  printLine line s := h.printLine s line
  sequence hstmt hrest := h.bind_respects hstmt fun _ => hrest

variable [Machine]

theorem eval (h : StepClosed R) (e : Expr) : Run.Respects R (Interpreter.eval e) :=
  h.closed.eval e fun _ _ => trivial

theorem exec (h : StepClosed R) (stmt : Stmt) : Run.Respects R (Interpreter.exec stmt) :=
  h.closed.exec stmt fun _ _ => trivial

theorem execute (h : StepClosed R) (program : List Stmt) :
    Run.Respects R (Interpreter.execute program) :=
  h.closed.execute program fun _ _ => trivial

end StepClosed

end TreeScript
