import Mathlib.Data.List.Forall2
import Mathlib.Data.Set.Operations
import TreeScript.Proofs.Cancellation
import TreeScript.Proofs.Footprint
import TreeScript.Proofs.View

/-!
# Other names for variables

Names say nothing beyond which of them are the same. `Stmt.rename` gives the variables of a tree
other names. Two interpreters mirror each other under a renaming if their scopes do, one by one, on
a list of names: `Interpreter.Mirrors`. From two such interpreters a tree and the renamed tree run
in parallel, step by step, and the interpreters mirror each other again.

With the renaming that changes nothing, the same says that a run looks only at the names that its
tree mentions.
-/

namespace TreeScript

/-! ## Renamed trees -/

def Token.rename (r : String → String) (t : Token) : Token := { t with lexeme := r t.lexeme }

def Expr.rename (r : String → String) : Expr → Expr
  | .literal token value => .literal token value
  | .grouping token inner => .grouping token (inner.rename r)
  | .unary op right => .unary op (right.rename r)
  | .binary left op right => .binary (left.rename r) op (right.rename r)
  | .logical left op right => .logical (left.rename r) op (right.rename r)
  | .variable name => .variable (name.rename r)
  | .assign name value => .assign (name.rename r) (value.rename r)

mutual

def Stmt.rename (r : String → String) : Stmt → Stmt
  | .expression token expr => .expression token (expr.rename r)
  | .print token expr => .print token (expr.rename r)
  | .var name none => .var (name.rename r) none
  | .var name (some init) => .var (name.rename r) (some (init.rename r))
  | .ite token condition yes none => .ite token (condition.rename r) (Stmt.rename r yes) none
  | .ite token condition yes (some no) =>
    .ite token (condition.rename r) (Stmt.rename r yes) (some (Stmt.rename r no))
  | .block token body => .block token (Stmt.renameAll r body)

def Stmt.renameAll (r : String → String) : List Stmt → List Stmt
  | [] => []
  | stmt :: rest => Stmt.rename r stmt :: Stmt.renameAll r rest

end

theorem Expr.names_rename (r : String → String) (e : Expr) :
    (e.rename r).names = e.names.map r := by
  induction e with
  | literal token value => rfl
  | grouping token inner ih => exact ih
  | unary op right ih => exact ih
  | binary left op right ihl ihr | logical left op right ihl ihr =>
      simp only [Expr.rename, Expr.names, List.map_append, ihl, ihr]
  | «variable» name => rfl
  | assign name value ih => simp only [Expr.rename, Expr.names, List.map_cons, ih, Token.rename]

theorem Stmt.names_rename_and_renameAll (r : String → String) :
    (∀ stmt, (Stmt.rename r stmt).names = stmt.names.map r) ∧
      ∀ program, Stmt.listNames (Stmt.renameAll r program) =
        (Stmt.listNames program).map r := by
  apply Stmt.induction
  case expression => exact fun token expr => expr.names_rename r
  case print => exact fun token expr => expr.names_rename r
  case varNil => exact fun name => rfl
  case varInit =>
    intro name init
    simp only [Stmt.rename, Stmt.names, Expr.names_rename, List.map_cons, Token.rename]
  case iteNone =>
    intro token condition yes hyes
    simp only [Stmt.rename, Stmt.names, Expr.names_rename, List.map_append, hyes]
  case iteSome =>
    intro token condition yes no hyes hno
    simp only [Stmt.rename, Stmt.names, Expr.names_rename, List.map_append, hyes, hno]
  case block =>
    intro token body hbody
    simpa only [Stmt.rename, Stmt.names] using hbody
  case nil => rfl
  case cons =>
    intro stmt rest hstmt hrest
    simp only [Stmt.renameAll, Stmt.listNames, List.map_append, hstmt, hrest]

theorem Stmt.listNames_renameAll (r : String → String) (program : List Stmt) :
    Stmt.listNames (Stmt.renameAll r program) = (Stmt.listNames program).map r :=
  (Stmt.names_rename_and_renameAll r).2 program

theorem Expr.rename_id (e : Expr) : e.rename id = e := by
  induction e with
  | literal token value => rfl
  | grouping token inner ih => rw [Expr.rename, ih]
  | unary op right ih => rw [Expr.rename, ih]
  | binary left op right ihl ihr | logical left op right ihl ihr => rw [Expr.rename, ihl, ihr]
  | «variable» name => rfl
  | assign name value ih => rw [Expr.rename, ih]; rfl

theorem Stmt.rename_id_and_renameAll_id :
    (∀ stmt, Stmt.rename id stmt = stmt) ∧ ∀ program, Stmt.renameAll id program = program := by
  apply Stmt.induction
  case expression => exact fun token expr => by rw [Stmt.rename, Expr.rename_id]
  case print => exact fun token expr => by rw [Stmt.rename, Expr.rename_id]
  case varNil => exact fun name => rfl
  case varInit => exact fun name init => by rw [Stmt.rename, Expr.rename_id]; rfl
  case iteNone => exact fun token condition yes hyes => by rw [Stmt.rename, Expr.rename_id, hyes]
  case iteSome =>
    exact fun token condition yes no hyes hno => by rw [Stmt.rename, Expr.rename_id, hyes, hno]
  case block => exact fun token body hbody => by rw [Stmt.rename, hbody]
  case nil => rfl
  case cons => exact fun stmt rest hstmt hrest => by rw [Stmt.renameAll, hstmt, hrest]

theorem Stmt.rename_id (stmt : Stmt) : Stmt.rename id stmt = stmt :=
  Stmt.rename_id_and_renameAll_id.1 stmt

/-! ## Interpreters that mirror each other -/

/-- Two endings that are the same up to names. An error is of the same kind and has the same
message, unless it is about an unbound name; its token differs at most in its name. -/
inductive Outcome.Renamed {α : Type} (r : String → String) : Outcome α → Outcome α → Prop where
  | value {a} : Renamed r (.value a) (.value a)
  | undefined {name} : Renamed r (.error (.undefined name)) (.error (.undefined (name.rename r)))
  | error {kind token token' message} : kind ≠ .undefinedVariable →
    token' = token ∨ token' = token.rename r →
    Renamed r (.error ⟨kind, token, message⟩) (.error ⟨kind, token', message⟩)
  | fault {f} : Renamed r (.fault f) (.fault f)

theorem Outcome.Renamed.eq_of_id {α : Type} {o o' : Outcome α} (h : o.Renamed id o') : o' = o := by
  cases h with
  | value => rfl
  | undefined => rfl
  | error _ htoken =>
      obtain rfl | rfl := htoken
      · rfl
      · rfl
  | fault => rfl

namespace Signal

def Alike (a b : Signal) : Prop := b = a ∨ a.Idle ∧ b.Idle

theorem congruence_alike : Congruence Alike where
  cause := by
    rintro a b (rfl | ⟨ha, hb⟩)
    · rfl
    · rw [ha.cause?_eq, hb.cause?_eq]
  looked := by
    rintro a b (rfl | ⟨ha, hb⟩)
    · exact .inl rfl
    · rw [ha.looked_eq, hb.looked_eq]
      exact .inr ⟨ha, hb⟩
  written := by
    rintro a b (rfl | ⟨ha, hb⟩)
    · exact .inl rfl
    · rw [ha.written_eq, hb.written_eq]
      exact .inr ⟨ha, hb⟩

end Signal

/-- What a name is bound to in `a`, its other name is bound to in `b`. -/
def Scope.Mirrors (r : String → String) (names : List String) (a b : Scope) : Prop :=
  ∀ name ∈ names, b.find? (r name) = a.find? name

/-- From the current scopes outwards, the scopes of `s` and `t` mirror each other one by one, and
everything else that a run looks at is the same. -/
structure Interpreter.Mirrors (r : String → String) (names : List String) (s t : Interpreter) :
    Prop where
  current : s.chain.current < s.chain.forest.size
  current' : t.chain.current < t.chain.forest.size
  stack : List.Forall₂ (Scope.Mirrors r names) s.stack t.stack
  level : t.level = s.level
  maxDepth : t.maxDepth = s.maxDepth
  signal : s.signal.Alike t.signal

/-- Two computations, from `s` and from `t`, that come to the same end, print the same lines and
lead to interpreters that mirror each other. -/
structure Parallel {α : Type} (r : String → String) (names : List String) (s t : Interpreter)
    (a b : Outcome α × Interpreter) : Prop where
  outcome : a.1.Renamed r b.1
  state : a.2.Mirrors r names b.2
  printed : ∃ lines, a.2.printed = lines ++ s.printed ∧ b.2.printed = lines ++ t.printed

variable {r : String → String} {names : List String} {α : Type}

/-! ## What is seen under other names -/

inductive RuntimeError.Renamed (r : String → String) : RuntimeError → RuntimeError → Prop where
  | undefined {name} : Renamed r (.undefined name) (.undefined (name.rename r))
  | other {kind token token' message} : kind ≠ .undefinedVariable →
    token' = token ∨ token' = token.rename r →
    Renamed r ⟨kind, token, message⟩ ⟨kind, token', message⟩

def View.mirroring (r : String → String) (names : List String) : View :=
  .scopewise (Scope.Mirrors r names) Signal.Alike Eq (RuntimeError.Renamed r)
    fun name name' => name.lexeme ∈ names ∧ name' = name.rename r

theorem Scope.congruence_mirrors (hr : Set.InjOn r {name | name ∈ names}) :
    Scope.Congruence (Scope.Mirrors r names)
      (fun name name' => name.lexeme ∈ names ∧ name' = name.rename r) Eq where
  empty _ _ := rfl
  find? := by
    rintro a b n _ h ⟨hname, rfl⟩
    have hsame : b.find? (n.rename r).lexeme = a.find? n.lexeme := h n.lexeme hname
    rw [hsame]
    exact .refl fun _ => rfl
  define := by
    rintro a b n _ value _ h ⟨hname, rfl⟩ rfl other hother
    change (b.define (r n.lexeme) value).find? (r other) = _
    rw [Scope.find?_define, Scope.find?_define]
    by_cases heq : other = n.lexeme
    · rw [if_pos heq, if_pos (congrArg r heq)]
    · have hne : r other ≠ r n.lexeme := fun hsame => heq (hr hother hname hsame)
      rw [if_neg heq, if_neg hne]
      exact h other hother

theorem View.lawful_mirroring [Machine] (hr : Set.InjOn r {name | name ∈ names}) :
    (mirroring r names).Lawful := by
  refine lawful_scopewise (Scope.congruence_mirrors hr) Signal.congruence_alike
    Value.congruence_eq ?_ ?_
  · exact fun htoken hkind => .other hkind (htoken.imp id (·.2))
  · rintro n _ ⟨-, rfl⟩
    exact .undefined

section Trees

variable {printed printed' : List String}

theorem Expr.matches_rename {e : Expr} (h : e.names ⊆ names) :
    ((View.mirroring r names).comparison printed printed').Exprs e (e.rename r) := by
  induction e with
  | literal token value => exact .literal token value
  | grouping token inner ih => exact .grouping (ih h)
  | unary op right ih => exact .unary (ih h)
  | binary left op right ihl ihr =>
      obtain ⟨hleft, hright⟩ := List.append_subset.1 h
      exact .binary (ihl hleft) (ihr hright)
  | logical left op right ihl ihr =>
      obtain ⟨hleft, hright⟩ := List.append_subset.1 h
      exact .logical (ihl hleft) (ihr hright)
  | «variable» name => exact .variable ⟨h List.mem_cons_self, rfl⟩
  | assign name value ih =>
      obtain ⟨hname, hvalue⟩ := List.cons_subset.1 h
      exact .assign ⟨hname, rfl⟩ (ih hvalue)

theorem Stmt.matches_rename_and_renameAll :
    let C := (View.mirroring r names).comparison printed printed'
    (∀ stmt : Stmt, stmt.names ⊆ names → C.Stmts C.Exprs True stmt (stmt.rename r)) ∧
    ∀ program : List Stmt, Stmt.listNames program ⊆ names →
      List.Forall₂ (C.Stmts C.Exprs True) program (Stmt.renameAll r program) := by
  intro C
  apply Stmt.induction
  case expression => exact fun token expr h => .expression (Expr.matches_rename h)
  case print => exact fun token expr h => .print (Expr.matches_rename h)
  case varNil => exact fun name h => .varNone trivial ⟨h List.mem_cons_self, rfl⟩
  case varInit =>
    intro name init h
    obtain ⟨hname, hinit⟩ := List.cons_subset.1 h
    exact .varSome trivial ⟨hname, rfl⟩ (Expr.matches_rename hinit)
  case iteNone =>
    intro token condition yes hyes h
    obtain ⟨hcondition, h⟩ := List.append_subset.1 h
    exact .iteNone (Expr.matches_rename hcondition) (hyes h)
  case iteSome =>
    intro token condition yes no hyes hno h
    obtain ⟨hcondition, h⟩ := List.append_subset.1 h
    obtain ⟨h, h'⟩ := List.append_subset.1 h
    exact .iteSome (Expr.matches_rename hcondition) (hyes h) (hno h')
  case block => exact fun token body hbody h => .block (hbody h)
  case nil => exact fun _ => .nil
  case cons =>
    intro stmt rest hstmt hrest h
    obtain ⟨h, h'⟩ := List.append_subset.1 h
    exact .cons (hstmt h) (hrest h')

end Trees

/-! ## Runs -/

namespace Interpreter

variable {s t : Interpreter}

theorem Mirrors.state (h : s.Mirrors r names t) :
    (View.mirroring r names).State s.printed t.printed () s t :=
  ⟨h.current, h.current', h.stack, .inr h.level, h.maxDepth, h.signal, [], rfl, rfl⟩

/-- Runs that are compared from interpreters that mirror each other are parallel. -/
theorem Mirrors.parallel (h : s.Mirrors r names t) {run other : Run α}
    (hcompares : ((View.mirroring r names).comparison s.printed t.printed).Compares () Eq run other)
    (hs : s.Keeps (run s).2) (ht : t.Keeps (other t).2) :
    Parallel r names s t (run s) (other t) := by
  have hends := hcompares s t h.state
  have hstate := hends.state fun _ _ => id
  refine ⟨?_, ?_, hstate.printed⟩
  · revert hends
    generalize run s = a
    generalize other t = b
    intro hends
    cases hends with
    | excused he => exact he.elim
    | value hab => exact hab ▸ .value
    | fault => exact .fault
    | error he =>
        cases he with
        | undefined => exact .undefined
        | other hkind htoken => exact .error hkind htoken
  · refine ⟨hstate.current, hstate.current', hstate.stack, ?_, hstate.maxDepth, hstate.signal⟩
    rw [hs.level, ht.level, h.level]

variable [Machine] (hr : Set.InjOn r {name | name ∈ names})

include hr

theorem mirrors_exec {stmt : Stmt} (hnames : stmt.names ⊆ names) (h : s.Mirrors r names t) :
    Parallel r names s t (exec stmt s) (exec (stmt.rename r) t) := by
  refine h.parallel ?_ (keeps_exec _ s) (keeps_exec _ t)
  exact ((View.lawful_mirroring hr).onStatements _ _).exec
    (Stmt.matches_rename_and_renameAll.1 stmt hnames) () fun _ => trivial

theorem mirrors_execute {program : List Stmt} (hnames : Stmt.listNames program ⊆ names)
    (h : s.Mirrors r names t) :
    Parallel r names s t (execute program s) (execute (Stmt.renameAll r program) t) := by
  refine h.parallel ?_ (keeps_execute _ s) (keeps_execute _ t)
  exact ((View.lawful_mirroring hr).onStatements _ _).execute
    (Stmt.matches_rename_and_renameAll.2 program hnames) () fun _ => trivial

end Interpreter

/-! ## Whole programs -/

def Scope.Renamed (r : String → String) (a b : Scope) : Prop :=
  ∀ name value, b.find? name = some value ↔ ∃ old, r old = name ∧ a.find? old = some value

theorem Scope.mem_names_of_find? {a : Scope} {name : String} {value : Value}
    (h : a.find? name = some value) : name ∈ a.names :=
  Scope.mem_names.2 (by rw [h, Option.isSome_some])

theorem Scope.Renamed.mirrors (hr : Set.InjOn r {name | name ∈ names}) {a b : Scope}
    (h : a.Renamed r b) (hnames : a.names ⊆ names) : a.Mirrors r names b := by
  intro name hname
  apply Option.ext
  intro value
  rw [h]
  constructor
  · rintro ⟨old, heq, hold⟩
    rwa [← hr (hnames (Scope.mem_names_of_find? hold)) hname heq]
  · exact fun hvalue => ⟨name, rfl, hvalue⟩

/-- Scopes that mirror each other are renamed if they were so before, and if all other names are as
they were before. -/
theorem Scope.Mirrors.renamed {a b a' b' : Scope} (h : a'.Mirrors r names b')
    (hbefore : a.Renamed r b) (hnames : a.names ⊆ names)
    (ha : ∀ name ∉ names, a'.find? name = a.find? name)
    (hb : ∀ name ∉ names.map r, b'.find? name = b.find? name) : a'.Renamed r b' := by
  have hmem {name : String} {value : Value} (hvalue : a'.find? name = some value) :
      name ∈ names := by
    by_contra hname
    rw [ha name hname] at hvalue
    exact hname (hnames (Scope.mem_names_of_find? hvalue))
  intro name value
  constructor
  · intro hvalue
    by_cases hname : name ∈ names.map r
    · obtain ⟨old, hold, rfl⟩ := List.mem_map.1 hname
      exact ⟨old, rfl, (h old hold).symm.trans hvalue⟩
    · rw [hb name hname] at hvalue
      obtain ⟨old, rfl, hold⟩ := (hbefore name value).1 hvalue
      exact absurd (List.mem_map_of_mem (hnames (Scope.mem_names_of_find? hold))) hname
  · rintro ⟨old, rfl, hvalue⟩
    rw [h old (hmem hvalue), hvalue]

namespace Interpreter

theorem AtRest.current_lt {s : Interpreter} (h : s.AtRest) :
    s.chain.current < s.chain.forest.size := by
  obtain ⟨e, he, -⟩ := h.outermost
  rw [h.current]
  exact Forest.lt_size he

section

variable [Machine]

theorem find?_globals_execute {program : List Stmt} {s : Interpreter} (h : s.AtRest) {name : String}
    (hname : name ∉ Stmt.listNames program) :
    (execute program s).2.chain.globals.find? name = s.chain.globals.find? name := by
  have hroot : s.chain.root < s.chain.forest.size := h.current ▸ h.current_lt
  rw [Chain.globals, (keeps_execute program s).root]
  exact find?_execute_of_not_mem program s hroot hname

/-- A program with other names for its variables, run from globals with those other names, prints
the same lines and comes to the same end, and its globals are again those of the program under the
other names. The names of the program and of the globals have to stay different from each other. -/
theorem execute_renameAll {program : List Stmt} {s t : Interpreter} (hs : s.AtRest) (ht : t.AtRest)
    (hr : Set.InjOn r {name | name ∈ Stmt.listNames program ++ s.chain.globals.names})
    (hglobals : s.chain.globals.Renamed r t.chain.globals) (hdepth : t.maxDepth = s.maxDepth)
    (hsignal : t.signal = s.signal) :
    (execute program s).1.Renamed r (execute (Stmt.renameAll r program) t).1 ∧
      (∃ lines, (execute program s).2.printed = lines ++ s.printed ∧
        (execute (Stmt.renameAll r program) t).2.printed = lines ++ t.printed) ∧
      (execute program s).2.chain.globals.Renamed r
        (execute (Stmt.renameAll r program) t).2.chain.globals := by
  have hold : s.chain.globals.names ⊆ Stmt.listNames program ++ s.chain.globals.names :=
    List.subset_append_right _ _
  have hstart : s.Mirrors r (Stmt.listNames program ++ s.chain.globals.names) t := by
    refine ⟨hs.current_lt, ht.current_lt, ?_, ht.level.trans hs.level.symm, hdepth, .inl hsignal⟩
    rw [stack, stack, hs.scopes_eq, ht.scopes_eq]
    exact .cons (hglobals.mirrors hr hold) .nil
  obtain ⟨houtcome, hend, hprinted⟩ :=
    mirrors_execute hr (List.subset_append_left _ _) hstart
  refine ⟨houtcome, hprinted, ?_⟩
  have hstack := hend.stack
  rw [stack, stack, (hs.of_restores (keeps_execute _ s).toRestores).scopes_eq,
    (ht.of_restores (keeps_execute _ t).toRestores).scopes_eq, List.forall₂_cons] at hstack
  refine hstack.1.renamed hglobals hold (fun name hname => ?_) fun name hname => ?_
  · exact find?_globals_execute hs fun hmem => hname (List.mem_append_left _ hmem)
  · refine find?_globals_execute ht fun hmem => hname ?_
    rw [Stmt.listNames_renameAll] at hmem
    rw [List.map_append]
    exact List.mem_append_left _ hmem

end

def exchange (name : String) : String :=
  if name = "x" then "y" else if name = "y" then "x" else name

theorem exchange_injective : Function.Injective exchange := by
  intro a b h
  unfold exchange at h
  grind

/-- A program that takes `y` from the global `x`, assigns `y` in a block with an `x` of its own, and
fails because of `z`. -/
def shadowed : List Stmt :=
  [.var (.ofName "y" 1) (some (.variable (.ofName "x" 1))),
   .block (.ofKind .leftBrace 2)
    [.var (.ofName "x" 3) (some (.literal (.ofKind .string 3) (.text "b"))),
     .expression (.ofName "y" 4) (.assign (.ofName "y" 4) (.variable (.ofName "x" 4)))],
   .print (.ofKind .printWord 5) (.variable (.ofName "y" 5)),
   .print (.ofKind .printWord 6) (.variable (.ofName "z" 6))]

theorem execute_shadowed_exchanged :
    let s := Interpreter.new.defineGlobal "x" (.text "a")
    let t := Interpreter.new.defineGlobal "y" (.text "a")
    (execute shadowed s).1.Renamed exchange (execute (Stmt.renameAll exchange shadowed) t).1 ∧
      (∃ lines, (execute shadowed s).2.printed = lines ++ s.printed ∧
        (execute (Stmt.renameAll exchange shadowed) t).2.printed = lines ++ t.printed) ∧
      (execute shadowed s).2.chain.globals.Renamed exchange
        (execute (Stmt.renameAll exchange shadowed) t).2.chain.globals := by
  have hrest (name : String) : (Interpreter.new.defineGlobal name (.text "a")).AtRest :=
    AtRest.new.of_restores (Session.restores_apply .new (.define name (.text "a")))
  have hglobals (name other : String) :
      (Interpreter.new.defineGlobal name (.text "a")).chain.globals.find? other =
        if other = name then some (.text "a") else none := by
    change (Scope.empty.define name (.text "a")).find? other = _
    rw [Scope.find?_define, Scope.find?_empty]
  refine execute_renameAll (hrest "x") (hrest "y") (fun a _ b _ h => exchange_injective h) ?_ rfl
    rfl
  intro name value
  simp only [hglobals, Option.ite_none_right_eq_some]
  constructor
  · rintro ⟨rfl, hvalue⟩
    exact ⟨"x", rfl, rfl, hvalue⟩
  · rintro ⟨old, rfl, rfl, hvalue⟩
    exact ⟨rfl, hvalue⟩

end Interpreter

end TreeScript
