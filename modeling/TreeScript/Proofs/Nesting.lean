import TreeScript.Proofs.Endings
import TreeScript.Proofs.Restoration

/-!
# The nesting limit

`Expr.visits` and `Stmt.visits` list the nodes that a run comes to, in order, each with its nesting
level and the state in which the run comes to it. A run under a limit is the run without a limit up
to the first node beyond the limit. There it ends, with what has been printed and bound by then.
-/

namespace TreeScript

/-- A node that a run comes to, its level, and the state in which the run comes to it. -/
structure Visit where
  node : Construct
  level : Nat
  state : Interpreter

/-- The nodes that a computation comes to, by the state it starts in. -/
abbrev Visits : Type := Interpreter → List Visit

namespace Visits

def none : Visits := fun _ => []

def node (n : Construct) (level : Nat) (body : Visits) : Visits := fun s =>
  ⟨n, level, s⟩ :: body s.descend

def andThen {α : Type} (run : Run α) (first : Visits) (next : α → Visits) : Visits := fun s =>
  first s ++
    match run s with
    | (.value a, t) => next a t
    | _ => []

def inScope (body : Visits) : Visits := fun s => body { s with chain := s.chain.enter }

/-- What is visited, by the level of the computation. -/
def account : Account (Nat → Visits) where
  nothing _ := none
  andThen run first next level := andThen run (first level) fun a => next a level
  node n body level := node n level (body (level + 1))
  inScope _ body level := inScope (body level)
  look _ _ := none
  write _ _ _ := none
  declare _ _ _ := none
  printLine _ _ := none

end Visits

/-- The nodes that the run of an expression at a level comes to. -/
def Expr.visits [Machine] (e : Expr) : Nat → Visits := Visits.account.expr e

/-- The nodes that the run of a statement at a level comes to. -/
def Stmt.visits [Machine] (stmt : Stmt) : Nat → Visits := Visits.account.stmt stmt

def Stmt.listVisits [Machine] (program : List Stmt) : Nat → Visits := Visits.account.list program

/-! ## Limits -/

namespace Interpreter

def limit (s : Interpreter) (m : Int) : Interpreter := { s with maxDepth := m }

/-- The state of a run from `s` that ends at `visit` under the limit `m`: all is as it is at the
visit, except that the level and the current environment are those of `s` again. -/
def cutAt (s : Interpreter) (visit : Visit) (m : Int) : Interpreter :=
  { visit.state with
    level := s.level
    maxDepth := m
    chain := visit.state.chain.leave s.chain.current }

theorem cutAt_congr {s t : Interpreter} (h : s.Keeps t) (visit : Visit) (m : Int) :
    t.cutAt visit m = s.cutAt visit m := by
  simp only [cutAt, h.level, h.current]

theorem tooDeep_limit {s : Interpreter} {m : Int} (hm : 0 < m) :
    (s.limit m).descend.tooDeep = true ↔ m < (s.level : Int) + 1 := by
  simp only [tooDeep, Bool.and_eq_true, decide_eq_true_eq]
  change 0 < m ∧ m < ((s.level + 1 : Nat) : Int) ↔ _
  omega

end Interpreter

/-! ## Computations under a limit -/

/-- From `s`, a computation under the limit `m` is the one without a limit if that visits no node
beyond `m`, and otherwise it ends at the first node that is beyond `m`. -/
def Run.CutFrom {α : Type} (run : Run α) (visits : Visits) (s : Interpreter) (m : Int) : Prop :=
  (∀ v ∈ visits s, (v.level : Int) ≤ m) ∧
      run (s.limit m) = ((run s).1, (run s).2.limit m) ∨
    ∃ before v after, visits s = before ++ v :: after ∧ (∀ u ∈ before, (u.level : Int) ≤ m) ∧
      (v.level : Int) = m + 1 ∧
      run (s.limit m) = (.error (.tooDeep v.node.token m), s.cutAt v m)

/-- At the given level, a computation is cut off by each limit as its visits say. -/
def Run.Cut {α : Type} (level : Nat) (run : Run α) (visits : Visits) : Prop :=
  ∀ (s : Interpreter) (m : Int), s.maxDepth ≤ 0 → 0 < m → s.level + 1 = level →
    (s.level : Int) ≤ m → run.CutFrom visits s m

namespace Run.Cut

variable {α β : Type} {level : Nat}

theorem of_unlimited {run : Run α}
    (h : ∀ s m, run (s.limit m) = ((run s).1, (run s).2.limit m)) : run.Cut level .none :=
  fun s m _ _ _ _ => .inl ⟨by simp [Visits.none], h s m⟩

theorem of_static {run : Run α} (h : run.Static) : run.Cut level .none := by
  obtain ⟨outcome, hrun⟩ := h
  exact of_unlimited fun s m => by rw [hrun, hrun]

theorem bind {run : Run α} {next : α → Run β} {first : Visits} {later : α → Visits}
    (hframe : run.Respects Interpreter.Keeps) (hrun : run.Cut level first)
    (hnext : ∀ a, (next a).Cut level (later a)) :
    Run.Cut level (run >>= next) (.andThen run first later) := by
  intro s m hfree hm hlevel hle
  have hs := hframe s
  rcases hrs : run s with ⟨outcome, t⟩
  rw [hrs] at hs
  rcases hrun s m hfree hm hlevel hle with ⟨hfirst, hlimit⟩ | ⟨before, v, after, hsplit, hrest⟩
  · -- The first part stays within the limit: what follows starts in the same way as without it.
    rw [hrs] at hlimit
    cases outcome with
    | value a =>
        have hvisits : Visits.andThen run first later s = first s ++ later a t := by
          simp [Visits.andThen, hrs]
        have hwith : (run >>= next) (s.limit m) = next a (t.limit m) :=
          Run.bind_of_value hlimit next
        have hwithout : (run >>= next) s = next a t := Run.bind_of_value hrs next
        have hcut := hnext a t m (by rw [hs.maxDepth]; exact hfree) hm
          (by rw [hs.level]; exact hlevel) (by rw [hs.level]; exact hle)
        unfold CutFrom
        rw [hvisits, hwith, hwithout]
        rcases hcut with ⟨hlater, heq⟩ | ⟨before, v, after, hsplit, hbefore, hv, heq⟩
        · refine .inl ⟨fun v hv => ?_, heq⟩
          rcases List.mem_append.1 hv with hv | hv
          · exact hfirst v hv
          · exact hlater v hv
        · refine .inr ⟨first s ++ before, v, after, ?_, fun u hu => ?_, hv, ?_⟩
          · rw [hsplit, List.append_assoc]
          · rcases List.mem_append.1 hu with hu | hu
            · exact hfirst u hu
            · exact hbefore u hu
          · rw [heq, Interpreter.cutAt_congr hs]
    | error e =>
        refine .inl ⟨by simpa [Visits.andThen, hrs] using hfirst, ?_⟩
        rw [Run.bind_of_error hlimit, Run.bind_of_error hrs]
    | fault f =>
        refine .inl ⟨by simpa [Visits.andThen, hrs] using hfirst, ?_⟩
        rw [Run.bind_of_fault hlimit, Run.bind_of_fault hrs]
  · -- The first part is cut off, and with it the whole.
    obtain ⟨hbefore, hv, heq⟩ := hrest
    have hvisits : ∃ rest, Visits.andThen run first later s = before ++ v :: rest := by
      rw [Visits.andThen, hsplit, List.append_assoc, List.cons_append]
      exact ⟨_, rfl⟩
    obtain ⟨rest, hvisits⟩ := hvisits
    exact .inr ⟨before, v, rest, hvisits, hbefore, hv, Run.bind_of_error heq next⟩

theorem nested {n : Construct} {body : Run α} {visits : Visits}
    (hbody : body.Cut (level + 1) visits) :
    Run.Cut level (Interpreter.nested n.token body) (.node n level visits) := by
  intro s m hfree hm hlevel hle
  have hopen : (Interpreter.nested n.token body) s =
      ((body s.descend).1, (body s.descend).2.ascend) := Interpreter.nested_of_nonpos hfree
  by_cases hdeep : m < (s.level : Int) + 1
  · -- The node itself is the first one beyond the limit.
    have htoo : (s.limit m).descend.tooDeep = true := (Interpreter.tooDeep_limit hm).2 hdeep
    refine .inr ⟨[], ⟨n, level, s⟩, visits s.descend, rfl, by simp, ?_, ?_⟩
    · change (level : Int) = m + 1
      omega
    · simp only [Interpreter.nested, htoo, if_true]
      rfl
  · have htoo : (s.limit m).descend.tooDeep = false :=
      Bool.eq_false_iff.2 fun h => hdeep ((Interpreter.tooDeep_limit hm).1 h)
    have hwith : (Interpreter.nested n.token body) (s.limit m) =
        ((body (s.descend.limit m)).1, (body (s.descend.limit m)).2.ascend) := by
      simp only [Interpreter.nested, htoo]
      rfl
    have hnode : ((⟨n, level, s⟩ : Visit).level : Int) ≤ m := by
      change (level : Int) ≤ m
      omega
    have hcut := hbody s.descend m hfree hm (by rw [← hlevel]; rfl)
      (by change ((s.level + 1 : Nat) : Int) ≤ m; omega)
    unfold CutFrom
    rw [hwith, hopen]
    rcases hcut with ⟨hvisits, heq⟩ | ⟨before, v, after, hsplit, hbefore, hv, heq⟩
    · refine .inl ⟨fun v hv => ?_, by rw [heq]; rfl⟩
      rcases List.mem_cons.1 hv with rfl | hv
      · exact hnode
      · exact hvisits v hv
    · refine .inr ⟨⟨n, level, s⟩ :: before, v, after, ?_, fun u hu => ?_, hv, by rw [heq]; rfl⟩
      · rw [Visits.node, hsplit, List.cons_append]
      · rcases List.mem_cons.1 hu with rfl | hu
        · exact hnode
        · exact hbefore u hu

theorem inScope {body : Run α} {visits : Visits} (hbody : body.Cut level visits) :
    Run.Cut level (Interpreter.inScope body) visits.inScope := by
  intro s m hfree hm hlevel hle
  have hcut := hbody { s with chain := s.chain.enter } m hfree hm hlevel hle
  have hwith : Interpreter.inScope body (s.limit m) =
      ((body (Interpreter.limit { s with chain := s.chain.enter } m)).1,
        let t := (body (Interpreter.limit { s with chain := s.chain.enter } m)).2
        { t with chain := t.chain.leave s.chain.current }) := rfl
  unfold CutFrom
  rw [hwith]
  rcases hcut with ⟨hvisits, heq⟩ | ⟨before, v, after, hsplit, hbefore, hv, heq⟩
  · exact .inl ⟨hvisits, by rw [heq]; rfl⟩
  · exact .inr ⟨before, v, after, hsplit, hbefore, hv, by rw [heq]; rfl⟩

theorem look (token : Token) : Run.Cut level (Interpreter.checkSignal token) .none := by
  refine of_unlimited fun s m => ?_
  simp only [Interpreter.checkSignal, Interpreter.limit]
  split <;> rfl

theorem read (name : Token) : Run.Cut level (Interpreter.read name) .none := by
  refine of_unlimited fun s m => ?_
  simp only [Interpreter.read, Interpreter.limit]
  split <;> rfl

theorem write (name : Token) (value : Value) :
    Run.Cut level (Interpreter.write name value) .none := by
  refine of_unlimited fun s m => ?_
  simp only [Interpreter.write, Interpreter.limit]
  split <;> rfl

theorem does [Machine] {n : Construct} {run : Run α} (h : n.Does run) : run.Cut level .none := by
  rcases h.static_or_read with hstatic | ⟨name, rfl⟩
  · exact of_static hstatic
  · cases h
    exact read name

end Run.Cut

/-! ## Runs under a limit -/

namespace Interpreter

open Run (Cut)

theorem cut_closed [Machine] : Visits.account.Closed (fun _ => True) fun run visits =>
    ∀ level, run.Cut level (visits level) where
  pure a _ := .of_static (Run.static_pure a)
  quiet _ hrun _ := .does hrun
  bind hpart hrun hnext level := .bind (keeps_part hpart) (hrun level) fun a => hnext a level
  node _ _ hbody level := .nested (hbody (level + 1))
  inScope hbody level := .inScope (hbody level)
  look _ _ := .look _
  write v _ _ := .write _ v
  declare _ _ _ := .of_unlimited fun _ _ => rfl
  printLine _ _ := .of_unlimited fun _ _ => rfl
  sequence {stmt _} hstmt hrest level := .bind (keeps_exec stmt) (hstmt level) fun _ => hrest level

theorem cut_eval [Machine] (e : Expr) (level : Nat) : Cut level (eval e) (e.visits level) :=
  cut_closed.eval e (fun _ _ => trivial) level

theorem cut_execute [Machine] (program : List Stmt) (level : Nat) :
    Cut level (execute program) (Stmt.listVisits program level) :=
  cut_closed.execute program (fun _ _ => trivial) level

end Interpreter

/-! ## Heights -/

/-- The number of nodes on the longest way down an expression. -/
def Expr.height : Expr → Nat
  | .literal _ _ => 1
  | .grouping _ inner => inner.height + 1
  | .unary _ right => right.height + 1
  | .binary left _ right => max left.height right.height + 1
  | .logical left _ right => max left.height right.height + 1
  | .variable _ => 1
  | .assign _ value => value.height + 1

mutual

def Stmt.height : Stmt → Nat
  | .expression _ expr => expr.height + 1
  | .print _ expr => expr.height + 1
  | .var _ none => 1
  | .var _ (some init) => init.height + 1
  | .ite _ condition yes none => max condition.height yes.height + 1
  | .ite _ condition yes (some no) => max condition.height (max yes.height no.height) + 1
  | .block _ body => Stmt.listHeight body + 1

def Stmt.listHeight : List Stmt → Nat
  | [] => 0
  | stmt :: rest => max stmt.height (Stmt.listHeight rest)

end

def Visits.Below (bound : Nat) (visits : Visits) : Prop := ∀ s, ∀ v ∈ visits s, v.level ≤ bound

namespace Visits.Below

variable {α : Type} {bound : Nat}

theorem none : Below bound .none := by
  intro s v hv
  cases hv

theorem node {n : Construct} {level : Nat} {body : Visits} (hlevel : level ≤ bound)
    (hbody : body.Below bound) : Below bound (.node n level body) := by
  intro s v hv
  rcases List.mem_cons.1 hv with rfl | hv
  · exact hlevel
  · exact hbody s.descend v hv

theorem andThen {run : Run α} {first : Visits} {next : α → Visits} (hfirst : first.Below bound)
    (hnext : ∀ a, (next a).Below bound) : Below bound (.andThen run first next) := by
  intro s v hv
  rcases List.mem_append.1 hv with hv | hv
  · exact hfirst s v hv
  · split at hv
    next a t _ => exact hnext a t v hv
    next => cases hv

theorem inScope {body : Visits} (hbody : body.Below bound) : Below bound body.inScope :=
  fun s => hbody { s with chain := s.chain.enter }

theorem statement [Machine] {stmt : Stmt} {level : Nat} {body : Nat → Visits}
    (hlevel : level ≤ bound) (hbody : (body (level + 1)).Below bound) :
    Below bound (Visits.account.statement stmt body level) :=
  node hlevel (andThen none fun _ => hbody)

end Visits.Below

theorem Expr.visits_below [Machine] (e : Expr) {level bound : Nat}
    (h : level + e.height ≤ bound + 1) : (e.visits level).Below bound := by
  induction e generalizing level with
  | literal token value =>
      simp only [height] at h
      exact .node (by omega) .none
  | grouping token inner ih =>
      simp only [height] at h
      exact .node (by omega) (ih (by omega))
  | unary op right ih =>
      simp only [height] at h
      exact .node (by omega) (.andThen (ih (by omega)) fun _ => .none)
  | binary left op right ihl ihr =>
      simp only [height] at h
      have hright : (right.visits (level + 1)).Below bound := ihr (by omega)
      exact .node (by omega) (.andThen (ihl (by omega)) fun _ => .andThen hright fun _ => .none)
  | logical left op right ihl ihr =>
      simp only [height] at h
      refine .node (by omega) (.andThen (ihl (by omega)) fun l => .andThen .none fun decided => ?_)
      cases decided with
      | true => exact .none
      | false => exact ihr (by omega)
  | «variable» name =>
      simp only [height] at h
      exact .node (by omega) .none
  | assign name value ih =>
      simp only [height] at h
      exact .node (by omega) (.andThen (ih (by omega)) fun _ => .none)

theorem Stmt.visits_and_listVisits_below [Machine] (bound : Nat) :
    (∀ (stmt : Stmt) (level : Nat), level + stmt.height ≤ bound + 1 →
        (stmt.visits level).Below bound) ∧
      ∀ (program : List Stmt) (level : Nat), level + Stmt.listHeight program ≤ bound + 1 →
        (Stmt.listVisits program level).Below bound := by
  apply Stmt.induction
  case expression =>
    intro token expr level h
    simp only [height] at h
    exact .statement (by omega) (.andThen (expr.visits_below (by omega)) fun _ => .none)
  case print =>
    intro token expr level h
    simp only [height] at h
    exact .statement (by omega) (.andThen (expr.visits_below (by omega)) fun _ => .none)
  case varNil =>
    intro name level h
    simp only [height] at h
    exact .statement (by omega) .none
  case varInit =>
    intro name init level h
    simp only [height] at h
    exact .statement (by omega) (.andThen (init.visits_below (by omega)) fun _ => .none)
  case iteNone =>
    intro token condition yes hyes level h
    simp only [height] at h
    refine .statement (by omega) (.andThen (condition.visits_below (by omega)) fun c => ?_)
    dsimp only
    split
    · exact hyes _ (by omega)
    · exact .none
  case iteSome =>
    intro token condition yes no hyes hno level h
    simp only [height] at h
    refine .statement (by omega) (.andThen (condition.visits_below (by omega)) fun c => ?_)
    dsimp only
    split
    · exact hyes _ (by omega)
    · exact hno _ (by omega)
  case block =>
    intro token body hbody level h
    simp only [height] at h
    exact .statement (by omega) (.inScope (hbody _ (by omega)))
  case nil => exact fun level h => .none
  case cons =>
    intro stmt rest hstmt hrest level h
    simp only [listHeight] at h
    exact .andThen (hstmt level (by omega)) fun _ => hrest level (by omega)

/-! ## Runs that never nest too deeply -/

def Outcome.IsTooDeep {α : Type} : Outcome α → Prop
  | .error e => e.kind = .depthExceeded
  | _ => False

theorem Construct.Raises.limit_pos {limit : Int} {asked : Option Cause} {n : Construct}
    {err : RuntimeError} (h : n.Raises limit asked err) (hkind : err.kind = .depthExceeded) :
    0 < limit := by
  cases h with
  | tooDeep hpos => exact hpos
  | stopped | unsupported | undefinedRead | undefinedWrite | badOperand | badAddends | badOperands
  | zeroDivisor => cases hkind

namespace Run

variable {α : Type}

theorem Ends.not_isTooDeep {run : Run α} {s : Interpreter} {nodes : List Construct}
    {F : Fault → Prop}
    (h : run.Ends s.maxDepth (fun asked err => ∃ n ∈ nodes, n.Raises s.maxDepth asked err) F)
    (hfree : s.maxDepth ≤ 0) : ¬ (run s).1.IsTooDeep := by
  have hwithin := (h s rfl).2
  intro hdeep
  cases hout : (run s).1 with
  | error e =>
      rw [hout] at hwithin hdeep
      obtain ⟨n, -, hraises⟩ := hwithin
      exact absurd (hraises.limit_pos hdeep) (by omega)
  | value a => rw [hout] at hdeep; exact hdeep
  | fault f => rw [hout] at hdeep; exact hdeep

/-- What nesting limits do to a computation of the given height that has no limit from `s`. -/
structure Limited (run : Run α) (visits : Visits) (height : Nat) (s : Interpreter) (m : Int) :
    Prop where
  /-- The limit changes nothing, or ends the run at the first node beyond it. -/
  cut : run.CutFrom visits s m
  /-- A limit that is not below the height is never exceeded. -/
  not_isTooDeep : (height : Int) ≤ m → ¬ (run (s.limit m)).1.IsTooDeep
  /-- Where the limit is not exceeded, a larger one changes nothing. -/
  unchanged : ¬ (run (s.limit m)).1.IsTooDeep → ∀ larger, m ≤ larger →
    run (s.limit larger) = ((run (s.limit m)).1, (run (s.limit m)).2.limit larger)

theorem CutFrom.eq_of_le {run : Run α} {visits : Visits} {s : Interpreter} {m : Int}
    (h : run.CutFrom visits s m) (hle : ∀ v ∈ visits s, (v.level : Int) ≤ m) :
    run (s.limit m) = ((run s).1, (run s).2.limit m) := by
  rcases h with ⟨-, heq⟩ | ⟨before, v, after, hsplit, -, hv, -⟩
  · exact heq
  · have hmem : v ∈ visits s := by
      rw [hsplit]
      exact List.mem_append_right before List.mem_cons_self
    have hlevel := hle v hmem
    omega

theorem Cut.limited {run : Run α} {visits : Visits} {height : Nat} {s : Interpreter} {m : Int}
    (h : run.Cut 1 visits) (hbelow : visits.Below height) (hlevel : s.level = 0)
    (hfree : s.maxDepth ≤ 0) (hm : 0 < m) (hdeep : ¬ (run s).1.IsTooDeep) :
    run.Limited visits height s m := by
  have hcut : ∀ n : Int, 0 < n → run.CutFrom visits s n := fun n hn =>
    h s n hfree hn (by rw [hlevel]) (by rw [hlevel]; omega)
  refine ⟨hcut m hm, fun hheight => ?_, fun havoid larger hlarger => ?_⟩
  · have hle : ∀ v ∈ visits s, (v.level : Int) ≤ m := by
      intro v hv
      have hbound := hbelow s v hv
      omega
    rw [(hcut m hm).eq_of_le hle]
    exact hdeep
  · rcases hcut m hm with ⟨hle, heq⟩ | ⟨before, v, after, -, -, -, heq⟩
    · have hlarge : ∀ v ∈ visits s, (v.level : Int) ≤ larger :=
        fun v hv => Int.le_trans (hle v hv) hlarger
      rw [(hcut larger (by omega)).eq_of_le hlarge, heq]
      rfl
    · rw [heq] at havoid
      exact absurd rfl havoid

end Run

namespace Interpreter

/-- A nesting limit either leaves a run as it is, or ends it at the first node beyond the limit with
everything as the run without a limit had it there. -/
theorem limited_execute_evaluate [Machine] (s : Interpreter) (m : Int) (hlevel : s.level = 0)
    (hfree : s.maxDepth ≤ 0) (hm : 0 < m) :
    (∀ program : List Stmt, (execute program).Limited (Stmt.listVisits program 1)
        (Stmt.listHeight program) s m) ∧
      ∀ e : Expr, (evaluate e).Limited (e.visits 1) e.height s m := by
  refine ⟨fun program => ?_, fun e => ?_⟩
  · have hbelow : (Stmt.listVisits program 1).Below (Stmt.listHeight program) :=
      (Stmt.visits_and_listVisits_below _).2 program 1 (by omega)
    have hdeep := (ends_execute program).not_isTooDeep hfree
    exact (cut_execute program 1).limited hbelow hlevel hfree hm hdeep
  · have hdeep := (ends_eval e).not_isTooDeep hfree
    exact (cut_eval e 1).limited (e.visits_below (by omega)) hlevel hfree hm hdeep

/-- The program `print (x);` with nodes at three levels. -/
def parenthesized : List Stmt :=
  [.print (.ofKind .printWord 1) (.grouping (.ofKind .leftParen 1) (.variable (.ofName "x" 1)))]

theorem limited_parenthesized :
    (new.limit 0).level = 0 ∧ (new.limit 0).maxDepth ≤ 0 ∧ (0 : Int) < 2 ∧
      (execute parenthesized).Limited (Stmt.listVisits parenthesized 1)
        (Stmt.listHeight parenthesized) (new.limit 0) 2 ∧
      execute parenthesized (new.limit 2) = (.error (.tooDeep (.ofName "x" 1) 2), new.limit 2) := by
  refine ⟨rfl, by decide, by decide, ?_, rfl⟩
  exact (limited_execute_evaluate (new.limit 0) 2 rfl (by decide) (by decide)).1 parenthesized

end Interpreter

end TreeScript
