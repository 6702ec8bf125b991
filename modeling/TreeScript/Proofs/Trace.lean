import TreeScript.Proofs.Account

/-!
# What happens in a run

A run comes to statements, declares and assigns variables and prints lines. `Expr.trace` and
`Stmt.trace` list these events in their order, each with the state in which it happens and with the
number of blocks of the tree around it. A declaration or an assignment is an event only when it is
completed.

`TraceClosed` lists what has to be shown of each kind of event for a relation between the states
before and after a run and the events in between; `TraceClosed.eval`, `TraceClosed.exec` and
`TraceClosed.execute` are the conclusions.
-/

namespace TreeScript

inductive Act where
  /-- It comes to a statement. -/
  | start (stmt : Stmt)
  /-- It binds a name in the current scope. -/
  | declare (name : Token) (value : Value)
  /-- It changes the binding of a name. -/
  | assign (name : Token) (value : Value)
  | print (line : String)

/-- An act, the state just before it, and the number of blocks around it. -/
structure Event where
  act : Act
  state : Interpreter
  blocks : Nat := 0

namespace Event

def inBlock (e : Event) : Event := { e with blocks := e.blocks + 1 }

def line? (e : Event) : Option String :=
  match e.act with
  | .print line => some line
  | _ => none

@[simp] theorem line?_inBlock (e : Event) : e.inBlock.line? = e.line? := rfl

end Event

def linesOf (events : List Event) : List String := events.filterMap Event.line?

@[simp] theorem linesOf_nil : linesOf [] = [] := rfl

@[simp] theorem linesOf_append (events later : List Event) :
    linesOf (events ++ later) = linesOf events ++ linesOf later :=
  List.filterMap_append

@[simp] theorem linesOf_inBlock (events : List Event) :
    linesOf (events.map Event.inBlock) = linesOf events := by
  simp only [linesOf, List.filterMap_map]
  rfl

/-- The events of a computation, by the state it starts in. -/
abbrev Trace : Type := Interpreter → List Event

namespace Trace

def none : Trace := fun _ => []

def one (act : Act) : Trace := fun s => [⟨act, s, 0⟩]

def nested (body : Trace) : Trace := fun s => if s.descend.tooDeep then [] else body s.descend

def andThen {α : Type} (run : Run α) (first : Trace) (next : α → Trace) : Trace := fun s =>
  first s ++
    match run s with
    | (.value a, t) => next a t
    | _ => []

def inScope (body : Trace) : Trace := fun s =>
  (body { s with chain := s.chain.enter }).map Event.inBlock

def assigned (name : Token) (value : Value) : Trace := fun s =>
  match s.chain.assign name value with
  | .ok _ => one (.assign name value) s
  | .error _ => []

def statement (stmt : Stmt) (body : Trace) : Trace := fun s => ⟨.start stmt, s, 0⟩ :: nested body s

def account : Account Trace where
  nothing := none
  andThen := andThen
  node
    | .expression _, body => nested body
    | .statement stmt, body => statement stmt body
  inScope _ body := inScope body
  look _ := none
  write := assigned
  declare name value := one (.declare name value)
  printLine line := one (.print line)

end Trace

/-- The events of the run of an expression. -/
def Expr.trace [Machine] (e : Expr) : Trace := Trace.account.expr e

/-- The events of the run of a statement. -/
def Stmt.trace [Machine] (stmt : Stmt) : Trace := Trace.account.stmt stmt

def Stmt.listTrace [Machine] (program : List Stmt) : Trace := Trace.account.list program

namespace Trace

variable {α : Type} {run : Run α} {first : Trace} {next : α → Trace} {s t : Interpreter}

theorem andThen_of_value {a : α} (h : run s = (.value a, t)) :
    andThen run first next s = first s ++ next a t := by
  simp only [andThen, h]

theorem andThen_of_error {e : RuntimeError} (h : run s = (.error e, t)) :
    andThen run first next s = first s := by
  simp only [andThen, h, List.append_nil]

theorem andThen_of_fault {f : Fault} (h : run s = (.fault f, t)) :
    andThen run first next s = first s := by
  simp only [andThen, h, List.append_nil]

def OnlyAssigns (trace : Trace) : Prop :=
  ∀ s, ∀ e ∈ trace s, ∃ name value, e.act = .assign name value

theorem OnlyAssigns.none : OnlyAssigns .none := by
  intro s e he
  cases he

theorem OnlyAssigns.nested {body : Trace} (hbody : body.OnlyAssigns) :
    OnlyAssigns (.nested body) := by
  intro s e he
  rw [Trace.nested] at he
  split at he
  · cases he
  · exact hbody s.descend e he

theorem OnlyAssigns.andThen (hfirst : first.OnlyAssigns) (hnext : ∀ a, (next a).OnlyAssigns) :
    OnlyAssigns (.andThen run first next) := by
  intro s e he
  rcases List.mem_append.1 he with he | he
  · exact hfirst s e he
  · split at he
    next a t _ => exact hnext a t e he
    next => cases he

theorem OnlyAssigns.assigned (name : Token) (value : Value) :
    OnlyAssigns (.assigned name value) := by
  intro s e he
  rw [Trace.assigned] at he
  split at he
  · rw [one, List.mem_singleton] at he
    exact ⟨name, value, by rw [he]⟩
  · cases he

theorem OnlyAssigns.linesOf_eq {trace : Trace} (h : trace.OnlyAssigns) (s : Interpreter) :
    linesOf (trace s) = [] := by
  refine List.filterMap_eq_nil_iff.2 fun e he => ?_
  obtain ⟨name, value, hact⟩ := h s e he
  rw [Event.line?, hact]

end Trace

/-- An expression neither comes to statements nor declares nor prints. -/
theorem Expr.onlyAssigns_trace [Machine] (e : Expr) : e.trace.OnlyAssigns := by
  induction e with
  | literal token value => exact .nested .none
  | grouping token inner ih => exact .nested ih
  | unary op right ih => exact .nested (.andThen ih fun _ => .none)
  | binary left op right ihl ihr =>
      exact .nested (.andThen ihl fun _ => .andThen ihr fun _ => .none)
  | logical left op right ihl ihr =>
      refine .nested (.andThen ihl fun l => .andThen .none fun decided => ?_)
      cases decided with
      | true => exact .none
      | false => exact ihr
  | «variable» name => exact .nested .none
  | assign name value ih => exact .nested (.andThen ih (.assigned name))

/-! ## What every run and its events have in common -/

/-- The state before a computation, its events and the state after it are related. -/
def Run.Records {α : Type} (Φ : Interpreter → List Event → Interpreter → Prop) (run : Run α)
    (trace : Trace) : Prop :=
  ∀ s, Φ s (trace s) (run s).2

/-- A relation between two states and the events between them that holds over each step. -/
structure TraceClosed (Φ : Interpreter → List Event → Interpreter → Prop) : Prop where
  refl : ∀ s, Φ s [] s
  trans : ∀ {s t u events later}, Φ s events t → Φ t later u → Φ s (events ++ later) u
  nested : ∀ {s t events}, Φ s.descend events t → Φ s events t.ascend
  inScope : ∀ {s t events}, Φ { s with chain := s.chain.enter } events t →
    Φ s (events.map Event.inBlock) { t with chain := t.chain.leave s.chain.current }
  look : ∀ s, Φ s [] { s with signal := s.signal.looked }
  start : ∀ s stmt, Φ s [⟨.start stmt, s, 0⟩] s
  write : ∀ {s name value chain}, s.chain.assign name value = .ok chain →
    Φ s [⟨.assign name value, s, 0⟩] { s with chain }
  declare : ∀ s name value, Φ s [⟨.declare name value, s, 0⟩]
    { s with chain := s.chain.define name.lexeme value }
  printLine : ∀ s line, Φ s [⟨.print line, s, 0⟩]
    { s with printed := line :: s.printed, signal := s.signal.written }

namespace TraceClosed

variable {Φ : Interpreter → List Event → Interpreter → Prop} {α β : Type}

theorem static_records (h : TraceClosed Φ) {run : Run α} (hrun : run.Static) :
    run.Records Φ .none := by
  obtain ⟨outcome, hrun⟩ := hrun
  intro s
  rw [hrun s]
  exact h.refl s

theorem bind_records (h : TraceClosed Φ) {run : Run α} {next : α → Run β} {first : Trace}
    {later : α → Trace} (hrun : run.Records Φ first) (hnext : ∀ a, (next a).Records Φ (later a)) :
    Run.Records Φ (run >>= next) (.andThen run first later) := by
  intro s
  have hs := hrun s
  rcases hrs : run s with ⟨outcome, t⟩
  rw [hrs] at hs
  cases outcome with
  | value a =>
      rw [Run.bind_of_value hrs, Trace.andThen_of_value hrs]
      exact h.trans hs (hnext a t)
  | error e => rwa [Run.bind_of_error hrs, Trace.andThen_of_error hrs]
  | fault f => rwa [Run.bind_of_fault hrs, Trace.andThen_of_fault hrs]

theorem nested_records (h : TraceClosed Φ) (token : Token) {body : Run α} {trace : Trace}
    (hbody : body.Records Φ trace) :
    Run.Records Φ (Interpreter.nested token body) (.nested trace) := by
  intro s
  simp only [Interpreter.nested, Trace.nested]
  split
  · exact h.nested (h.refl s.descend)
  · exact h.nested (hbody s.descend)

theorem inScope_records (h : TraceClosed Φ) {body : Run α} {trace : Trace}
    (hbody : body.Records Φ trace) :
    Run.Records Φ (Interpreter.inScope body) trace.inScope :=
  fun s => h.inScope (hbody { s with chain := s.chain.enter })

theorem checkSignal_records (h : TraceClosed Φ) (token : Token) :
    Run.Records Φ (Interpreter.checkSignal token) .none := by
  intro s
  simp only [Interpreter.checkSignal]
  split
  · exact h.refl s
  · exact h.look s

theorem write_records (h : TraceClosed Φ) (name : Token) (value : Value) :
    Run.Records Φ (Interpreter.write name value) (.assigned name value) := by
  intro s
  simp only [Interpreter.write, Trace.assigned]
  cases hchain : s.chain.assign name value with
  | ok chain => exact h.write hchain
  | error e => exact h.refl s

theorem closed [Machine] (h : TraceClosed Φ) :
    Trace.account.Closed (fun _ => True) fun run trace => run.Records Φ trace where
  pure a := h.static_records (Run.static_pure a)
  quiet _ hrun s := by
    rw [hrun.state_eq s]
    exact h.refl s
  bind _ hrun hnext := h.bind_records hrun hnext
  node {_ n _ _} _ _ hbody :=
    match n with
    | .expression _ => h.nested_records _ hbody
    | .statement stmt => fun s => h.trans (h.start s stmt) (h.nested_records _ hbody s)
  inScope hbody := h.inScope_records hbody
  look _ := h.checkSignal_records _
  write v _ := h.write_records _ v
  declare name v s := h.declare s name v
  printLine line s := h.printLine s line
  sequence hstmt hrest := h.bind_records hstmt fun _ => hrest

/-! ## Runs -/

variable [Machine]

theorem eval (h : TraceClosed Φ) (e : Expr) : Run.Records Φ (Interpreter.eval e) e.trace :=
  h.closed.eval e fun _ _ => trivial

theorem exec (h : TraceClosed Φ) (stmt : Stmt) :
    Run.Records Φ (Interpreter.exec stmt) stmt.trace :=
  h.closed.exec stmt fun _ _ => trivial

theorem execute (h : TraceClosed Φ) (program : List Stmt) :
    Run.Records Φ (Interpreter.execute program) (Stmt.listTrace program) :=
  h.closed.execute program fun _ _ => trivial

end TraceClosed

/-! ## Output -/

/-- What the events between two states write. -/
structure Interpreter.Writes (s : Interpreter) (events : List Event) (t : Interpreter) : Prop where
  printed : t.printed = (linesOf events).reverse ++ s.printed
  reported : t.reported = s.reported
  /-- At an event, the lines of the events before it have been printed. -/
  atEvent : ∀ before e after, events = before ++ e :: after →
    e.state.printed = (linesOf before).reverse ++ s.printed

namespace Interpreter.Writes

theorem one {s t : Interpreter} {act : Act}
    (hprinted : t.printed = (linesOf [⟨act, s, 0⟩]).reverse ++ s.printed)
    (hreported : t.reported = s.reported) : s.Writes [⟨act, s, 0⟩] t := by
  refine ⟨hprinted, hreported, fun before e after hsplit => ?_⟩
  cases before with
  | nil => cases hsplit; rfl
  | cons first before => simp at hsplit

theorem trans {s t u : Interpreter} {events later : List Event} (hst : s.Writes events t)
    (htu : t.Writes later u) : s.Writes (events ++ later) u := by
  refine ⟨?_, htu.reported.trans hst.reported, fun before e after hsplit => ?_⟩
  · rw [htu.printed, hst.printed, linesOf_append, List.reverse_append, List.append_assoc]
  · rcases List.append_eq_append_iff.1 hsplit with ⟨more, hbefore, hlater⟩ | ⟨more, hevents, htail⟩
    · rw [htu.atEvent more e after hlater, hst.printed, hbefore, linesOf_append,
        List.reverse_append, List.append_assoc]
    · cases more with
      | nil =>
          have hat := htu.atEvent [] e after htail.symm
          rw [hst.printed, hevents, List.append_nil] at hat
          exact hat
      | cons e' more =>
          cases htail
          exact hst.atEvent before e more hevents

theorem inBlock {s t u : Interpreter} {events : List Event} (h : s.Writes events t)
    (hprinted : u.printed = t.printed) (hreported : u.reported = t.reported) :
    s.Writes (events.map Event.inBlock) u := by
  refine ⟨?_, hreported.trans h.reported, fun before e after hsplit => ?_⟩
  · rw [hprinted, h.printed, linesOf_inBlock]
  · obtain ⟨before', after', rfl, rfl, hafter⟩ := List.map_eq_append_iff.1 hsplit
    obtain ⟨e', after', rfl, rfl, rfl⟩ := List.map_eq_cons_iff.1 hafter
    rw [linesOf_inBlock]
    exact h.atEvent before' e' after' rfl

theorem traceClosed : TraceClosed Writes where
  refl s := ⟨rfl, rfl, by simp⟩
  trans hst htu := hst.trans htu
  nested h := ⟨h.printed, h.reported, h.atEvent⟩
  inScope h := by
    have hblock := h.inBlock rfl rfl
    exact ⟨hblock.printed, hblock.reported, hblock.atEvent⟩
  look s := ⟨rfl, rfl, by simp⟩
  start s stmt := .one rfl rfl
  write _ := .one rfl rfl
  declare s name value := .one rfl rfl
  printLine s line := .one rfl rfl

end Interpreter.Writes

end TreeScript
