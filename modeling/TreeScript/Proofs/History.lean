import TreeScript.Proofs.Nesting

/-!
# Everything that a run passes through

`Expr.history` and `Stmt.history` list the moments of a run in their order: which nodes it is inside
of, whether the innermost of them is already being evaluated, and the state. Nothing is left out:
from one moment to the next a node is entered or left, passes the limit, or does one thing
(`Moment.Step`), and the moments lead from the state before a run to the state after it
(`Run.Tells`).

What holds at first and is kept by such a step holds at every moment. So the counter of an
interpreter is the number of open nodes, and no node beyond a positive limit is evaluated
(`Moment.Bounded`).
-/

namespace TreeScript

structure Moment where
  /-- The nodes that the run is inside of, the innermost first. -/
  nodes : List Construct
  /-- Whether the innermost node is evaluated, and not only counted. -/
  evaluated : Bool
  state : Interpreter

/-- What an interpreter does in a node at one go. -/
inductive Interpreter.Works : Interpreter → Interpreter → Prop where
  | look (s) : Works s { s with signal := s.signal.looked }
  | enter (s) : Works s { s with chain := s.chain.enter }
  | leave (s previous) : Works s { s with chain := s.chain.leave previous }
  | assign {s name value chain} : s.chain.assign name value = .ok chain → Works s { s with chain }
  | declare (s name value) : Works s { s with chain := s.chain.define name value }
  | print (s line) : Works s { s with printed := line :: s.printed, signal := s.signal.written }

namespace Moment

/-- From one moment to the next. -/
inductive Step : Moment → Moment → Prop where
  /-- The next node is counted. -/
  | enter (n nodes s) : Step ⟨nodes, true, s⟩ ⟨n :: nodes, false, s.descend⟩
  /-- It turns out not to be too deep. -/
  | pass {nodes s} : s.tooDeep = false → Step ⟨nodes, false, s⟩ ⟨nodes, true, s⟩
  | work {nodes s t} : s.Works t → Step ⟨nodes, true, s⟩ ⟨nodes, true, t⟩
  | leave (n nodes evaluated s) : Step ⟨n :: nodes, evaluated, s⟩ ⟨nodes, true, s.ascend⟩

/-- Moments that follow each other, from the one before them to the last one. -/
inductive Leads : Moment → List Moment → Moment → Prop where
  | nil (m) : Leads m [] m
  | cons {m next rest last} : m.Step next → Leads next rest last → Leads m (next :: rest) last

theorem Leads.append {first middle last : Moment} {moments later : List Moment}
    (h : first.Leads moments middle) (hlater : middle.Leads later last) :
    first.Leads (moments ++ later) last := by
  induction h with
  | nil m => exact hlater
  | cons hstep _ ih => exact .cons hstep (ih hlater)

theorem Leads.one {m next : Moment} (h : m.Step next) : m.Leads [next] next := .cons h (.nil next)

end Moment

/-- The moments of a computation, by the nodes it is inside of and the state it starts in. -/
abbrev History : Type := List Construct → Interpreter → List Moment

namespace History

def none : History := fun _ _ => []

def one {α : Type} (run : Run α) : History := fun nodes s =>
  match run s with
  | (.value _, t) => [⟨nodes, true, t⟩]
  | _ => []

/-- What `first` says happens, and then, if `run` ends in a value, what `next` says. -/
def andThen {α : Type} (run : Run α) (first : History) (next : α → History) : History :=
  fun nodes s =>
    first nodes s ++
      match run s with
      | (.value a, t) => next a nodes t
      | _ => []

def node [Machine] (n : Construct) (body : History) : History := fun nodes s =>
  ⟨n :: nodes, false, s.descend⟩ ::
    ((if s.descend.tooDeep then []
      else ⟨n :: nodes, true, s.descend⟩ :: body (n :: nodes) s.descend) ++
    [⟨nodes, true, n.after s⟩])

def inScope {α : Type} (run : Run α) (body : History) : History := fun nodes s =>
  ⟨nodes, true, { s with chain := s.chain.enter }⟩ ::
    (body nodes { s with chain := s.chain.enter } ++
      [⟨nodes, true, (Interpreter.inScope run s).2⟩])

def account [Machine] : Account History where
  nothing := none
  andThen := andThen
  node := node
  inScope := inScope
  look token := one (Interpreter.checkSignal token)
  write name v := one (Interpreter.write name v)
  declare name v := one (Interpreter.declare name v)
  printLine line := one (Interpreter.printLine line)

end History

/-- The moments of the evaluation of an expression. -/
def Expr.history [Machine] (e : Expr) : History := History.account.expr e

/-- The moments of the run of a statement. -/
def Stmt.history [Machine] (stmt : Stmt) : History := History.account.stmt stmt

def Stmt.listHistory [Machine] (program : List Stmt) : History := History.account.list program

/-! ## Histories are complete -/

/-- The moments lead from before the computation to after it. -/
def Run.Tells {α : Type} (run : Run α) (history : History) : Prop :=
  ∀ nodes s, Moment.Leads ⟨nodes, true, s⟩ (history nodes s) ⟨nodes, true, (run s).2⟩

namespace Run.Tells

variable {α β : Type}

theorem of_unchanged {run : Run α} (h : ∀ s, (run s).2 = s) : run.Tells .none := by
  intro nodes s
  rw [h]
  exact .nil _

theorem of_static {run : Run α} (h : run.Static) : run.Tells .none := by
  obtain ⟨outcome, hrun⟩ := h
  exact of_unchanged fun s => by rw [hrun]

theorem write (name : Token) (value : Value) :
    Tells (Interpreter.write name value) (.one (Interpreter.write name value)) := by
  intro nodes s
  simp only [History.one, Interpreter.write]
  cases hchain : s.chain.assign name value with
  | ok chain => exact .one (.work (.assign hchain))
  | error e => exact .nil _

theorem declare (name : Token) (value : Value) :
    Tells (Interpreter.declare name value) (.one (Interpreter.declare name value)) :=
  fun _ s => .one (.work (.declare s name.lexeme value))

theorem printLine (line : String) :
    Tells (Interpreter.printLine line) (.one (Interpreter.printLine line)) :=
  fun _ s => .one (.work (.print s line))

theorem checkSignal (token : Token) :
    Tells (Interpreter.checkSignal token) (.one (Interpreter.checkSignal token)) := by
  intro nodes s
  simp only [History.one, Interpreter.checkSignal]
  cases s.signal.cause? with
  | some cause => exact .nil _
  | none => exact .one (.work (.look s))

theorem bind {run : Run α} {next : α → Run β} {first : History} {later : α → History}
    (hrun : run.Tells first) (hnext : ∀ a, (next a).Tells (later a)) :
    Run.Tells (run >>= next) (.andThen run first later) := by
  intro nodes s
  have hfirst := hrun nodes s
  rw [History.andThen]
  rcases hrs : run s with ⟨outcome, t⟩
  rw [hrs] at hfirst
  cases outcome with
  | value a =>
      rw [Run.bind_of_value hrs]
      exact hfirst.append (hnext a nodes t)
  | error e =>
      rw [Run.bind_of_error hrs, List.append_nil]
      exact hfirst
  | fault f =>
      rw [Run.bind_of_fault hrs, List.append_nil]
      exact hfirst

/-- A node is counted, and left again whether or not it is too deep. -/
theorem node [Machine] {n : Construct} {body : Run α} {history : History}
    (hbody : body.Tells history)
    (hafter : n.after = fun s => (Interpreter.nested n.token body s).2) :
    Tells (Interpreter.nested n.token body) (.node n history) := by
  intro nodes s
  refine .cons (.enter n nodes s) ?_
  rw [congrFun hafter s, Interpreter.nested]
  split
  next hdeep => exact .one (.leave n nodes false s.descend)
  next hopen =>
    refine .append (.cons (.pass (Bool.eq_false_iff.2 hopen)) (hbody (n :: nodes) s.descend)) ?_
    exact .one (.leave n nodes true _)

theorem inScope {body : Run α} {history : History} (hbody : body.Tells history) :
    Tells (Interpreter.inScope body) (.inScope body history) := by
  intro nodes s
  refine .cons (.work (.enter s)) (.append (hbody nodes _) (.one (.work ?_)))
  exact .leave _ s.chain.current

end Run.Tells

namespace Interpreter

open Run (Tells)

theorem tells_closed [Machine] : History.account.Closed (fun _ => True) fun run history =>
    run.Tells history where
  pure a := .of_static (Run.static_pure a)
  quiet _ hrun := .of_unchanged hrun.state_eq
  bind _ hrun hnext := .bind hrun hnext
  node _ hafter hbody := .node hbody hafter
  inScope hbody := .inScope hbody
  look _ := .checkSignal _
  write v _ := .write _ v
  declare := .declare
  printLine := .printLine
  sequence hstmt hrest := .bind hstmt fun _ => hrest

theorem tells_execute [Machine] (program : List Stmt) :
    Tells (execute program) (Stmt.listHistory program) :=
  tells_closed.execute program fun _ _ => trivial

end Interpreter

/-! ## Limits along a history -/

theorem Interpreter.Works.level_and_maxDepth {s t : Interpreter} (h : s.Works t) :
    t.level = s.level ∧ t.maxDepth = s.maxDepth := by
  cases h <;> exact ⟨rfl, rfl⟩

namespace Moment

/-- The counter says how many nodes are open: at most one more than the limit, and no more than the
limit where the innermost one is evaluated. -/
structure Bounded (limit : Int) (m : Moment) : Prop where
  maxDepth : m.state.maxDepth = limit
  level : m.state.level = m.nodes.length
  counted : (m.state.level : Int) ≤ limit + 1
  evaluated : m.evaluated = true → (m.nodes.length : Int) ≤ limit

theorem Bounded.start {s : Interpreter} (hlevel : s.level = 0) (hpos : 0 < s.maxDepth) :
    Bounded s.maxDepth ⟨[], true, s⟩ := by
  have hnonneg : ((0 : Nat) : Int) ≤ s.maxDepth := Int.le_of_lt hpos
  refine ⟨rfl, hlevel, ?_, fun _ => hnonneg⟩
  rw [hlevel]
  omega

theorem Bounded.step {limit : Int} (hpos : 0 < limit) {m next : Moment} (h : m.Bounded limit)
    (hstep : m.Step next) : next.Bounded limit := by
  obtain ⟨hmax, hlevel, hcounted, hevaluated⟩ := h
  cases hstep with
  | enter n nodes s =>
      have hle : (nodes.length : Int) ≤ limit := hevaluated rfl
      have hlevel' : s.descend.level = (n :: nodes).length := congrArg (· + 1) hlevel
      refine ⟨hmax, hlevel', ?_, fun h => by cases h⟩
      rw [hlevel', List.length_cons]
      omega
  | @pass nodes s hopen =>
      refine ⟨hmax, hlevel, hcounted, fun _ => ?_⟩
      change s.maxDepth = limit at hmax
      change s.level = nodes.length at hlevel
      rw [Interpreter.tooDeep, hmax, hlevel] at hopen
      simpa [hpos] using hopen
  | work hworks =>
      obtain ⟨hsame, hsame'⟩ := hworks.level_and_maxDepth
      exact ⟨hsame'.trans hmax, hsame.trans hlevel, by rw [hsame]; exact hcounted, hevaluated⟩
  | leave n nodes evaluated s =>
      have hlevel' : s.ascend.level = nodes.length := congrArg (· - 1) hlevel
      rw [hlevel, List.length_cons] at hcounted
      refine ⟨hmax, hlevel', ?_, fun _ => ?_⟩
      · rw [hlevel']
        omega
      · change (nodes.length : Int) ≤ limit
        omega

/-- A positive limit is kept at every moment. -/
theorem Leads.bounded {limit : Int} (hpos : 0 < limit) {first last : Moment} {moments : List Moment}
    (h : first.Leads moments last) (hfirst : first.Bounded limit) :
    (∀ m ∈ moments, m.Bounded limit) ∧ last.Bounded limit := by
  induction h with
  | nil m => exact ⟨List.forall_mem_nil _, hfirst⟩
  | cons hstep _ ih =>
      have hnext := hfirst.step hpos hstep
      obtain ⟨hrest, hlast⟩ := ih hnext
      exact ⟨List.forall_mem_cons.2 ⟨hnext, hrest⟩, hlast⟩

end Moment

end TreeScript
