import TreeScript.Proofs.Frame

/-!
# What a tree mentions

`Expr.names` and `Stmt.names` list the names that a tree declares, reads or assigns, and
`Stmt.prints` says whether it contains a print. A run acts on those names only: `Trace.Within`. In
every environment it leaves all other names as they were, and it leaves an environment alone that
cannot be seen from the current one.
-/

namespace TreeScript

def Expr.names : Expr → List String
  | .literal _ _ => []
  | .grouping _ inner => inner.names
  | .unary _ right => right.names
  | .binary left _ right => left.names ++ right.names
  | .logical left _ right => left.names ++ right.names
  | .variable name => [name.lexeme]
  | .assign name value => name.lexeme :: value.names

mutual

/-- The names that a statement declares, reads or assigns. -/
def Stmt.names : Stmt → List String
  | .expression _ expr => expr.names
  | .print _ expr => expr.names
  | .var name none => [name.lexeme]
  | .var name (some init) => name.lexeme :: init.names
  | .ite _ condition yes none => condition.names ++ Stmt.names yes
  | .ite _ condition yes (some no) => condition.names ++ (Stmt.names yes ++ Stmt.names no)
  | .block _ body => Stmt.listNames body

def Stmt.listNames : List Stmt → List String
  | [] => []
  | stmt :: rest => Stmt.names stmt ++ Stmt.listNames rest

end

mutual

def Stmt.prints : Stmt → Bool
  | .expression _ _ => false
  | .print _ _ => true
  | .var _ _ => false
  | .ite _ _ yes none => Stmt.prints yes
  | .ite _ _ yes (some no) => Stmt.prints yes || Stmt.prints no
  | .block _ body => Stmt.listPrints body

def Stmt.listPrints : List Stmt → Bool
  | [] => false
  | stmt :: rest => Stmt.prints stmt || Stmt.listPrints rest

end

/-! ## Runs act on what their trees mention -/

def Act.Within (names : List String) (prints : Bool) : Act → Prop
  | .start _ => True
  | .declare name _ => name.lexeme ∈ names
  | .assign name _ => name.lexeme ∈ names
  | .print _ => prints = true

theorem Act.Within.mono {names names' : List String} {prints prints' : Bool} {act : Act}
    (h : act.Within names prints) (hnames : names ⊆ names')
    (hprints : prints = true → prints' = true) : act.Within names' prints' := by
  cases act with
  | start stmt => trivial
  | declare name value => exact hnames h
  | assign name value => exact hnames h
  | print line => exact hprints h

def Trace.Within (names : List String) (prints : Bool) (trace : Trace) : Prop :=
  ∀ s, ∀ e ∈ trace s, e.act.Within names prints

namespace Trace.Within

variable {names names' : List String} {prints prints' : Bool} {α : Type}

theorem mono {trace : Trace} (h : trace.Within names prints) (hnames : names ⊆ names')
    (hprints : prints = true → prints' = true) : trace.Within names' prints' :=
  fun s e he => (h s e he).mono hnames hprints

theorem none : Trace.Within names prints .none := by
  intro s e he
  cases he

theorem one (act : Act) (h : act.Within names prints) : Trace.Within names prints (.one act) := by
  intro s e he
  rw [Trace.one, List.mem_singleton] at he
  rw [he]
  exact h

theorem nested {body : Trace} (hbody : body.Within names prints) :
    Trace.Within names prints (.nested body) := by
  intro s e he
  rw [Trace.nested] at he
  split at he
  · cases he
  · exact hbody s.descend e he

theorem andThen {run : Run α} {first : Trace} {next : α → Trace}
    (hfirst : first.Within names prints) (hnext : ∀ a, (next a).Within names prints) :
    Trace.Within names prints (.andThen run first next) := by
  intro s e he
  rcases List.mem_append.1 he with he | he
  · exact hfirst s e he
  · split at he
    next a t _ => exact hnext a t e he
    next => cases he

theorem inScope {body : Trace} (hbody : body.Within names prints) :
    Trace.Within names prints body.inScope := by
  intro s e he
  obtain ⟨e', he', rfl⟩ := List.mem_map.1 he
  exact hbody _ e' he'

theorem assigned {name : Token} (h : name.lexeme ∈ names) (value : Value) :
    Trace.Within names prints (.assigned name value) := by
  intro s e he
  rw [Trace.assigned] at he
  split at he
  · exact one (.assign name value) h s e he
  · cases he

theorem statement [Machine] {stmt : Stmt} {body : Trace} (hbody : body.Within names prints) :
    Trace.Within names prints (Trace.account.statement stmt body) := by
  intro s e he
  rcases List.mem_cons.1 he with rfl | he
  · trivial
  · exact nested (andThen none fun _ => hbody) s e he

end Trace.Within

section

variable [Machine]

theorem Expr.within_trace (e : Expr) : e.trace.Within e.names false := by
  induction e with
  | literal token value => exact .nested .none
  | grouping token inner ih => exact .nested ih
  | unary op right ih => exact .nested (.andThen ih fun _ => .none)
  | binary left op right ihl ihr =>
      refine .nested (.andThen (ihl.mono ?_ id) fun _ => .andThen (ihr.mono ?_ id) fun _ => .none)
      · exact List.subset_append_left _ _
      · exact List.subset_append_right _ _
  | logical left op right ihl ihr =>
      refine .nested (.andThen (ihl.mono ?_ id) fun l => .andThen .none fun decided => ?_)
      · exact List.subset_append_left _ _
      · cases decided with
        | true => exact .none
        | false => exact ihr.mono (List.subset_append_right _ _) id
  | «variable» name => exact .nested .none
  | assign name value ih =>
      refine .nested (.andThen (ih.mono (List.subset_cons_self _ _) id) fun v => ?_)
      exact .assigned List.mem_cons_self v

theorem Expr.within_trace_of_subset (e : Expr) {names : List String} (h : e.names ⊆ names)
    (prints : Bool) : e.trace.Within names prints :=
  e.within_trace.mono h fun hfalse => by cases hfalse

theorem Stmt.within_trace_and_listTrace :
    (∀ stmt : Stmt, stmt.trace.Within stmt.names stmt.prints) ∧
      ∀ program, (Stmt.listTrace program).Within (Stmt.listNames program)
        (Stmt.listPrints program) := by
  apply Stmt.induction
  case expression =>
    intro token expr
    exact .statement (.andThen expr.within_trace fun _ => .none)
  case print =>
    intro token expr
    refine .statement (.andThen ?_ fun v => .one (.print v.display) rfl)
    exact expr.within_trace_of_subset (List.Subset.refl _) true
  case varNil =>
    intro name
    exact .statement (.one (.declare name .nil) List.mem_cons_self)
  case varInit =>
    intro name init
    refine .statement (.andThen ?_ fun v => .one (.declare name v) List.mem_cons_self)
    exact init.within_trace_of_subset (List.subset_cons_self _ _) false
  case iteNone =>
    intro token condition yes hyes
    refine .statement (.andThen ?_ fun c => ?_)
    · exact condition.within_trace_of_subset (List.subset_append_left _ _) _
    · split
      · exact hyes.mono (List.subset_append_right _ _) id
      · exact .none
  case iteSome =>
    intro token condition yes no hyes hno
    refine .statement (.andThen ?_ fun c => ?_)
    · exact condition.within_trace_of_subset (List.subset_append_left _ _) _
    · split
      · refine hyes.mono ?_ fun h => Bool.or_eq_true_iff.2 (.inl h)
        exact List.Subset.trans (List.subset_append_left _ _) (List.subset_append_right _ _)
      · refine hno.mono ?_ fun h => Bool.or_eq_true_iff.2 (.inr h)
        exact List.Subset.trans (List.subset_append_right _ _) (List.subset_append_right _ _)
  case block =>
    intro token body hbody
    exact .statement (.inScope hbody)
  case nil => exact .none
  case cons =>
    intro stmt rest hstmt hrest
    refine .andThen ?_ fun _ => ?_
    · refine hstmt.mono ?_ fun h => Bool.or_eq_true_iff.2 (.inl h)
      exact List.subset_append_left _ _
    · refine hrest.mono ?_ fun h => Bool.or_eq_true_iff.2 (.inr h)
      exact List.subset_append_right _ _

theorem Stmt.within_trace (stmt : Stmt) : stmt.trace.Within stmt.names stmt.prints :=
  Stmt.within_trace_and_listTrace.1 stmt

theorem Stmt.within_listTrace (program : List Stmt) :
    (Stmt.listTrace program).Within (Stmt.listNames program) (Stmt.listPrints program) :=
  Stmt.within_trace_and_listTrace.2 program

end

/-! ## What is not mentioned stays -/

theorem linesOf_of_within {names : List String} {events : List Event}
    (h : ∀ e ∈ events, e.act.Within names false) : linesOf events = [] := by
  refine List.filterMap_eq_nil_iff.2 fun e he => ?_
  have hact := h e he
  rw [Event.line?]
  split
  next line hprint =>
    rw [hprint] at hact
    cases hact
  next => rfl

theorem Event.mem_of_sets? {names : List String} {prints : Bool} {e : Event}
    (h : e.act.Within names prints) {i : Nat} {name : String} (hsets : (e.sets? i name).isSome) :
    name ∈ names := by
  rcases Event.cases_of_sets? hsets with ⟨⟨token, value, hact, rfl⟩, -⟩ | hassigns
  · rw [hact] at h
    exact h
  · obtain ⟨token, value, hact, rfl, -⟩ := hassigns
    rw [hact] at h
    exact h

namespace Interpreter

theorem Changes.find?_of_within {s t : Interpreter} {events : List Event} (h : s.Changes events t)
    {names : List String} {prints : Bool} (hwithin : ∀ e ∈ events, e.act.Within names prints)
    {i : Nat} (hi : i < s.chain.forest.size) {name : String} (hname : name ∉ names) :
    (t.chain.forest.scope i).find? name = (s.chain.forest.scope i).find? name := by
  rw [h.value i hi name]
  refine Classical.byContradiction fun hne => ?_
  obtain ⟨e, he, hsets⟩ := exists_sets?_of_valueAfter_ne hne
  exact hname (Event.mem_of_sets? (hwithin e he) hsets)

variable [Machine]

/-- A statement leaves the names that it does not mention as they were, in every environment. -/
theorem find?_exec_of_not_mem (stmt : Stmt) (s : Interpreter) {i : Nat}
    (hi : i < s.chain.forest.size) {name : String} (hname : name ∉ stmt.names) :
    ((exec stmt s).2.chain.forest.scope i).find? name = (s.chain.forest.scope i).find? name :=
  (Changes.traceClosed.exec stmt s).find?_of_within (stmt.within_trace s) hi hname

theorem find?_execute_of_not_mem (program : List Stmt) (s : Interpreter) {i : Nat}
    (hi : i < s.chain.forest.size) {name : String} (hname : name ∉ Stmt.listNames program) :
    ((execute program s).2.chain.forest.scope i).find? name =
      (s.chain.forest.scope i).find? name :=
  (Changes.traceClosed.execute program s).find?_of_within (Stmt.within_listTrace program s) hi hname

theorem printed_exec_of_not_prints {stmt : Stmt} (h : stmt.prints = false) (s : Interpreter) :
    (exec stmt s).2.printed = s.printed := by
  have hwithin := stmt.within_trace s
  rw [h] at hwithin
  rw [(Writes.traceClosed.exec stmt s).printed, linesOf_of_within hwithin]
  rfl

/-! ## Environments that are not seen -/

/-- Environments that cannot be seen from the current one are as they were. -/
structure Spares (s t : Interpreter) : Prop extends s.Keeps t where
  unseen : s.chain.current < s.chain.forest.size → ∀ i < s.chain.forest.size,
    i ∉ s.chain.forest.path s.chain.current →
      t.chain.forest.scope i = s.chain.forest.scope i

end Interpreter

namespace Forest

theorem mem_path_self {f : Forest} {i : Nat} (hi : i < f.size) : i ∈ f.path i := by
  obtain ⟨e, he⟩ := exists_get? hi
  cases ho : e.outer with
  | none =>
      rw [path_root he ho]
      exact List.mem_cons_self
  | some o =>
      rw [path_inner he ho]
      exact List.mem_cons_self

theorem path_enclose {f : Forest} {i : Nat} (hi : i < f.size) :
    (f.enclose i).path f.size = f.size :: f.path i := by
  rw [path_inner (get?_enclose_new hi) rfl, path_extends (extends_enclose f i) hi]

end Forest

namespace Interpreter

theorem Spares.stepClosed : StepClosed Spares where
  refl s := ⟨Keeps.stepClosed.refl s, fun _ _ _ _ => rfl⟩
  trans {s t u} hst htu := by
    refine ⟨Keeps.stepClosed.trans hst.toKeeps htu.toKeeps, fun hcurrent i hi hunseen => ?_⟩
    have hsize {j : Nat} (hj : j < s.chain.forest.size) : j < t.chain.forest.size :=
      hst.forest.lt_size hj
    have hpath : t.chain.forest.path t.chain.current = s.chain.forest.path s.chain.current := by
      rw [hst.current, Forest.path_extends hst.forest hcurrent]
    have hcurrent' : t.chain.current < t.chain.forest.size := by
      rw [hst.current]
      exact hsize hcurrent
    rw [htu.unseen hcurrent' i (hsize hi) (by rwa [hpath]), hst.unseen hcurrent i hi hunseen]
  nested h := ⟨Keeps.stepClosed.nested h.toKeeps, h.unseen⟩
  inScope {s t} h := by
    refine ⟨Keeps.stepClosed.inScope h.toKeeps, fun hcurrent i hi hunseen => ?_⟩
    have hsize : s.chain.enter.forest.size = s.chain.forest.size + 1 := Forest.size_enclose _ _
    have hpath : s.chain.enter.forest.path s.chain.enter.current =
        s.chain.forest.size :: s.chain.forest.path s.chain.current := Forest.path_enclose hcurrent
    have hinner : s.chain.enter.current < s.chain.enter.forest.size := by
      rw [hsize]
      exact Nat.lt_succ_self _
    have houtside : i ∉ s.chain.enter.forest.path s.chain.enter.current := by
      rw [hpath, List.mem_cons, not_or]
      exact ⟨by omega, hunseen⟩
    have hsame := h.unseen hinner i (by rw [hsize]; omega) houtside
    exact hsame.trans (Forest.scope_enclose hi s.chain.current)
  look s := ⟨Keeps.stepClosed.look s, fun _ _ _ _ => rfl⟩
  write {s name value chain} h := by
    refine ⟨Keeps.stepClosed.write h, fun hcurrent i hi hunseen => ?_⟩
    obtain ⟨forest, hassign, rfl⟩ := Chain.assign_eq h
    obtain ⟨j, hj, rfl⟩ := Forest.assign_eq_define hassign
    refine Forest.scope_define_of_ne ?_ name.lexeme value
    rintro rfl
    exact hunseen (List.mem_of_find?_eq_some hj)
  declare s name value := by
    refine ⟨Keeps.stepClosed.declare s name value, fun hcurrent i hi hunseen => ?_⟩
    refine Forest.scope_define_of_ne ?_ name value
    rintro rfl
    exact hunseen (Forest.mem_path_self hcurrent)
  printLine s line := ⟨Keeps.stepClosed.printLine s line, fun _ _ _ _ => rfl⟩

end Interpreter

end TreeScript
