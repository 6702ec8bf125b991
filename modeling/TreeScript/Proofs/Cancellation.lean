import TreeScript.Proofs.Lockstep
import TreeScript.Proofs.Restoration
import TreeScript.Proofs.Trace

/-!
# Runs that are asked to stop

An interpreter looks at its signal only when it comes to a statement. A run that is asked to stop
during one of its writes is therefore the run that is never asked, up to the first statement after
that write: there it ends, with what has been printed and bound by then. Where no statement follows
the write, nothing changes. Expressions do not look at the signal at all.
-/

namespace TreeScript

namespace Interpreter

def signalled (s : Interpreter) (signal : Signal) : Interpreter := { s with signal }

/-- The error of an interpreter that comes to a statement after it has been asked to stop. The
nesting limit is looked at first. -/
def refusal (s : Interpreter) (stmt : Stmt) (cause : Cause) : RuntimeError :=
  if s.descend.tooDeep then .tooDeep stmt.token s.maxDepth else .stopped stmt.token cause

/-- The state of a run from `s` that ends where it has come to `t`: all is as in `t`, except that
the level and the current environment are those of `s` again. -/
def back (s t : Interpreter) : Interpreter :=
  { t with level := s.level, chain := t.chain.leave s.chain.current }

theorem back_congr {s t : Interpreter} (h : s.Keeps t) (u : Interpreter) : t.back u = s.back u := by
  simp only [back, h.level, h.current]

end Interpreter

/-! ## Computations that do not look at the signal -/

inductive Signal.Idle : Signal → Prop where
  | absent : Idle .absent
  | live : Idle .live

namespace Signal.Idle

variable {signal : Signal}

theorem cause?_eq (h : signal.Idle) : signal.cause? = none := by cases h <;> rfl

theorem looked_eq (h : signal.Idle) : signal.looked = signal := by cases h <;> rfl

theorem written_eq (h : signal.Idle) : signal.written = signal := by cases h <;> rfl

end Signal.Idle

/-- For the signals in `P`, which it keeps, the computation does not depend on the signal. -/
def Run.Blind {α : Type} (P : Signal → Prop) (run : Run α) : Prop :=
  ∀ s signal, P s.signal → P signal → (run s).2.signal = s.signal ∧
    run (s.signalled signal) = ((run s).1, (run s).2.signalled signal)

def Interpreter.Signalled (first second : Signal) (s t : Interpreter) : Prop :=
  s.signal = first ∧ t = s.signalled second

theorem Interpreter.lockstep_signalled (first second : Signal) :
    Lockstep (Signalled first second) where
  chain := by rintro s t ⟨-, rfl⟩; rfl
  level := by rintro s t ⟨-, rfl⟩; rfl
  maxDepth := by rintro s t ⟨-, rfl⟩; rfl
  setChain := by rintro s t ⟨hs, rfl⟩ chain; exact ⟨hs, rfl⟩
  setLevel := by rintro s t ⟨hs, rfl⟩ level; exact ⟨hs, rfl⟩

theorem Interpreter.statementLockstep_signalled {first second : Signal} (hfirst : first.Idle)
    (hsecond : second.Idle) : StatementLockstep (Signalled first second) where
  toLockstep := lockstep_signalled first second
  cause := by
    rintro s t ⟨rfl, rfl⟩
    exact hsecond.cause?_eq.trans hfirst.cause?_eq.symm
  look := by
    rintro s t ⟨rfl, rfl⟩
    refine ⟨hfirst.looked_eq, ?_⟩
    simp only [signalled, hsecond.looked_eq]
  printLine := by
    rintro s t ⟨rfl, rfl⟩ line
    refine ⟨hfirst.written_eq, ?_⟩
    simp only [signalled, hsecond.written_eq]

theorem Run.Blind.of_static {α : Type} {P : Signal → Prop} {run : Run α} (h : run.Static) :
    run.Blind P := by
  obtain ⟨outcome, hrun⟩ := h
  intro s signal _ _
  rw [hrun, hrun]
  exact ⟨rfl, rfl⟩

theorem Run.Blind.of_agrees {α : Type} {P : Signal → Prop} {run : Run α}
    (h : ∀ first second, P first → P second → run.Agrees (Interpreter.Signalled first second)) :
    run.Blind P := by
  intro s signal hs hsignal
  obtain ⟨houtcome, hkept, hstate⟩ := h s.signal signal hs hsignal s (s.signalled signal) ⟨rfl, rfl⟩
  exact ⟨hkept, Prod.ext houtcome hstate⟩

namespace Interpreter

open Run (Blind)

theorem blind_look (token : Token) : Blind Signal.Idle (checkSignal token) := by
  intro s signal hs hsignal
  simp only [checkSignal, signalled, hs.cause?_eq, hsignal.cause?_eq, hs.looked_eq,
    hsignal.looked_eq, and_self]

variable [Machine]

theorem blind_does {P : Signal → Prop} {n : Construct} {α : Type} {run : Run α}
    (h : n.Does run) : Blind P run := by
  rcases h.static_or_read with hstatic | ⟨name, rfl⟩
  · exact .of_static hstatic
  · cases h
    intro s signal _ _
    simp only [read, signalled]
    split <;> exact ⟨rfl, rfl⟩

theorem blind_eval {P : Signal → Prop} (e : Expr) : Blind P (eval e) :=
  .of_agrees fun first second _ _ => (lockstep_signalled first second).eval e

theorem blind_exec (stmt : Stmt) : Blind Signal.Idle (exec stmt) :=
  .of_agrees fun _ _ hfirst hsecond => (statementLockstep_signalled hfirst hsecond).exec stmt

theorem blind_execute (program : List Stmt) : Blind Signal.Idle (execute program) :=
  .of_agrees fun _ _ hfirst hsecond => (statementLockstep_signalled hfirst hsecond).execute program

theorem blind_part {S : Type} {A : Account S} {α : Type} {run : Run α} {told : S}
    (h : A.Part run told) : Blind Signal.Idle run := by
  cases h with
  | eval e => exact blind_eval e
  | decides op l => exact .of_static (static_decides op l)
  | look token => exact blind_look token

end Interpreter

/-! ## Stopping at the next statement -/

/-- How a computation from `s` that is asked to stop during the write that follows `n` more writes
ends in `c`, if it has the given events and ends in `r` when it is never asked. -/
inductive Interpreter.StopsAs {α : Type} (s : Interpreter) (n : Nat) (events : List Event)
    (r c : Outcome α × Interpreter) : Prop where
  /-- There are not that many writes. -/
  | never : (linesOf events).length ≤ n →
    c = (r.1, r.2.signalled (.afterWrites (n - (linesOf events).length))) →
    StopsAs s n events r c
  /-- The write is the last event. -/
  | last (before : List Event) (line : String) (p : Interpreter) (blocks : Nat) :
    events = before ++ [⟨.print line, p, blocks⟩] → (linesOf before).length = n →
    r.2 = s.back (printLine line p).2 → c = (r.1, r.2.signalled (.ended .cancelled)) →
    StopsAs s n events r c
  /-- The next event after the write is that the run comes to a statement. -/
  | cut (before : List Event) (line : String) (p : Interpreter) (blocks : Nat) (stmt : Stmt)
    (q : Interpreter) (blocks' : Nat) (after : List Event) :
    events = before ++ ⟨.print line, p, blocks⟩ :: ⟨.start stmt, q, blocks'⟩ :: after →
    (linesOf before).length = n →
    c = (.error (q.refusal stmt .cancelled),
      (s.back (printLine line p).2).signalled (.ended .cancelled)) →
    StopsAs s n events r c

namespace Interpreter.StopsAs

variable {α : Type} {s t : Interpreter} {n : Nat} {events : List Event}
  {r c : Outcome α × Interpreter}

theorem prepend (hk : s.Keeps t) (first : List Event) (h : t.StopsAs n events r c) :
    s.StopsAs ((linesOf first).length + n) (first ++ events) r c := by
  have hcount (before : List Event) :
      (linesOf (first ++ before)).length = (linesOf first).length + (linesOf before).length := by
    rw [linesOf_append, List.length_append]
  cases h with
  | never hfew hc =>
      refine .never ?_ ?_
      · rw [hcount]
        omega
      · rw [hc, hcount, Nat.add_sub_add_left]
  | last before line p blocks hevents hn hr hc =>
      refine .last (first ++ before) line p blocks ?_ ?_ ?_ hc
      · rw [hevents, List.append_assoc]
      · rw [hcount, hn]
      · rw [hr, back_congr hk]
  | cut before line p blocks stmt q blocks' after hevents hn hc =>
      refine .cut (first ++ before) line p blocks stmt q blocks' after ?_ ?_ ?_
      · rw [hevents, List.append_assoc]
      · rw [hcount, hn]
      · rw [hc, back_congr hk]

theorem ascend (h : s.descend.StopsAs n events r c) :
    s.StopsAs n events (r.1, r.2.ascend) (c.1, c.2.ascend) := by
  cases h with
  | never hfew hc => exact .never hfew (by rw [hc]; rfl)
  | last before line p blocks hevents hn hr hc =>
      exact .last before line p blocks hevents hn (by rw [hr]; rfl) (by rw [hc]; rfl)
  | cut before line p blocks stmt q blocks' after hevents hn hc =>
      exact .cut before line p blocks stmt q blocks' after hevents hn (by rw [hc]; rfl)

theorem leave (h : StopsAs { s with chain := s.chain.enter } n events r c) :
    s.StopsAs n (events.map Event.inBlock)
      (r.1, { r.2 with chain := r.2.chain.leave s.chain.current })
      (c.1, { c.2 with chain := c.2.chain.leave s.chain.current }) := by
  cases h with
  | never hfew hc =>
      refine .never ?_ ?_
      · rw [linesOf_inBlock]
        exact hfew
      · rw [linesOf_inBlock, hc]
        rfl
  | last before line p blocks hevents hn hr hc =>
      refine .last (before.map Event.inBlock) line p (blocks + 1) ?_ ?_ ?_ ?_
      · rw [hevents, List.map_append]
        rfl
      · rw [linesOf_inBlock, hn]
      · rw [hr]
        rfl
      · rw [hc]
        rfl
  | cut before line p blocks stmt q blocks' after hevents hn hc =>
      refine .cut (before.map Event.inBlock) line p (blocks + 1) stmt q (blocks' + 1)
        (after.map Event.inBlock) ?_ ?_ ?_
      · rw [hevents, List.map_append]
        rfl
      · rw [linesOf_inBlock, hn]
      · rw [hc]
        rfl

end Interpreter.StopsAs

/-- From every state whose signal never asks to stop, the computation stops as its events say. -/
def Run.Stops {α : Type} (run : Run α) (trace : Trace) : Prop :=
  ∀ (s : Interpreter) (n : Nat), s.signal = .live →
    s.StopsAs n (trace s) (run s) (run (s.signalled (.afterWrites n)))

/-- A computation that does nothing at all once it has been asked to stop: it has no events, or its
first event is that it comes to a statement. -/
def Run.StartsAtOnce {α : Type} (run : Run α) (trace : Trace) : Prop :=
  ∀ (s : Interpreter) (cause : Cause), s.signal = .live →
    (trace s = [] ∧ (run s).2 = s ∧
        run (s.signalled (.ended cause)) = ((run s).1, s.signalled (.ended cause))) ∨
      ∃ stmt after, trace s = ⟨.start stmt, s, 0⟩ :: after ∧
        run (s.signalled (.ended cause)) =
          (.error (s.refusal stmt cause), s.signalled (.ended cause))

namespace Run.Stops

variable {α β : Type}

theorem of_blind {run : Run α} {trace : Trace} (hblind : run.Blind fun _ => True)
    (hquiet : ∀ s, linesOf (trace s) = []) : run.Stops trace := by
  intro s n _
  refine .never ?_ ?_
  · rw [hquiet s]
    exact Nat.zero_le n
  · rw [hquiet s]
    exact (hblind s (.afterWrites n) trivial trivial).2

/-- Whatever follows a write does nothing once the computation has been asked to stop. -/
theorem bind {run : Run α} {next : α → Run β} {first : Trace} {later : α → Trace}
    (hkeeps : run.Respects Interpreter.Keeps) (hidle : run.Blind Signal.Idle)
    (hrun : run.Stops first) (hnext : ∀ a, (next a).Stops (later a))
    (honce : (∀ s, linesOf (first s) = []) ∨ ∀ a, (next a).StartsAtOnce (later a)) :
    Run.Stops (run >>= next) (.andThen run first later) := by
  intro s n hs
  have hk := hkeeps s
  have hlive : (run s).2.signal = .live := by
    rw [(hidle s .live (by rw [hs]; exact .live) .live).1, hs]
  have hstops := hrun s n hs
  rcases hrs : run s with ⟨outcome, t⟩
  rw [hrs] at hk hlive hstops
  cases hstops with
  | cut before line p blocks stmt q blocks' after hevents hn hc =>
      -- The first part is cut off, and with it the whole.
      have htrace : ∃ rest, Trace.andThen run first later s =
          before ++ ⟨.print line, p, blocks⟩ :: ⟨.start stmt, q, blocks'⟩ :: rest := by
        rw [Trace.andThen, hevents]
        simp only [List.append_assoc, List.cons_append]
        exact ⟨_, rfl⟩
      obtain ⟨rest, htrace⟩ := htrace
      exact .cut before line p blocks stmt q blocks' rest htrace hn (Run.bind_of_error hc next)
  | never hfew hc =>
      cases outcome with
      | value a =>
          have hlater := (hnext a t (n - (linesOf (first s)).length) hlive).prepend hk (first s)
          rw [Nat.add_sub_cancel' hfew] at hlater
          rw [Trace.andThen_of_value hrs, Run.bind_of_value hrs, Run.bind_of_value hc]
          exact hlater
      | error e =>
          rw [Trace.andThen_of_error hrs, Run.bind_of_error hrs, Run.bind_of_error hc]
          exact .never hfew rfl
      | fault f =>
          rw [Trace.andThen_of_fault hrs, Run.bind_of_fault hrs, Run.bind_of_fault hc]
          exact .never hfew rfl
  | last before line p blocks hevents hn hr hc =>
      cases outcome with
      | value a =>
          rw [Trace.andThen_of_value hrs, Run.bind_of_value hrs, Run.bind_of_value hc]
          have honce : (next a).StartsAtOnce (later a) := by
            rcases honce with hquiet | honce
            · have hlines := hquiet s
              rw [hevents, linesOf_append] at hlines
              simp [linesOf, Event.line?] at hlines
            · exact honce a
          have hback : t = s.back (Interpreter.printLine line p).2 := hr
          rcases honce t .cancelled hlive with ⟨hnone, hsame, heq⟩ | ⟨stmt, after, hsome, heq⟩
          · refine .last before line p blocks ?_ hn ?_ ?_
            · rw [hevents, hnone, List.append_nil]
            · rw [hsame, hback]
            · rw [heq, hsame]
          · refine .cut before line p blocks stmt t 0 after ?_ hn ?_
            · rw [hevents, hsome, List.append_assoc]
              rfl
            · rw [heq, ← hback]
      | error e =>
          rw [Trace.andThen_of_error hrs, Run.bind_of_error hrs, Run.bind_of_error hc]
          exact .last before line p blocks hevents hn hr rfl
      | fault f =>
          rw [Trace.andThen_of_fault hrs, Run.bind_of_fault hrs, Run.bind_of_fault hc]
          exact .last before line p blocks hevents hn hr rfl

theorem nested (token : Token) {body : Run α} {trace : Trace} (hbody : body.Stops trace) :
    Run.Stops (Interpreter.nested token body) (.nested trace) := by
  intro s n hs
  have hdeep : (s.signalled (.afterWrites n)).descend.tooDeep = s.descend.tooDeep := rfl
  simp only [Interpreter.nested, Trace.nested, hdeep]
  split
  · exact .never (Nat.zero_le n) rfl
  · exact (hbody s.descend n hs).ascend

theorem inScope {body : Run α} {trace : Trace} (hbody : body.Stops trace) :
    Run.Stops (Interpreter.inScope body) trace.inScope :=
  fun s n hs => (hbody { s with chain := s.chain.enter } n hs).leave

theorem printLine (line : String) :
    Run.Stops (Interpreter.printLine line) (.one (.print line)) := by
  intro s n hs
  cases n with
  | zero =>
      refine .last [] line s 0 rfl rfl rfl ?_
      rfl
  | succ n =>
      refine .never ?_ ?_
      · exact Nat.le_add_left 1 n
      · rfl

theorem look (token : Token) : Run.Stops (Interpreter.checkSignal token) .none := by
  intro s n hs
  refine .never (Nat.zero_le n) ?_
  simp only [Interpreter.checkSignal, hs, Signal.cause?, Signal.looked, Interpreter.signalled]
  rfl

theorem write (name : Token) (value : Value) :
    Run.Stops (Interpreter.write name value) (.assigned name value) := by
  intro s n _
  simp only [Interpreter.write, Trace.assigned, Interpreter.signalled]
  cases s.chain.assign name value with
  | ok chain => exact .never (Nat.zero_le n) rfl
  | error e => exact .never (Nat.zero_le n) rfl

theorem started (stmt : Stmt) {body : Run α} {trace : Trace} (hbody : body.Stops trace) :
    Run.Stops (Interpreter.nested stmt.token body) (.statement stmt trace) := by
  intro s n hs
  have hrest := nested stmt.token hbody s n hs
  have hstart := hrest.prepend (Interpreter.Keeps.stepClosed.refl s) [⟨.start stmt, s, 0⟩]
  have hnone : (linesOf [⟨.start stmt, s, 0⟩]).length + n = n := Nat.zero_add n
  rw [hnone] at hstart
  exact hstart

end Run.Stops

namespace Interpreter

open Run (Blind Stops)

theorem statement_of_ended {s : Interpreter} {cause : Cause} (h : s.signal = .ended cause)
    (stmt : Stmt) (body : Run Unit) :
    statement stmt.token body s = (.error (s.refusal stmt cause), s) := by
  have hlook : checkSignal stmt.token s.descend =
      (.error (.stopped stmt.token cause), s.descend) := by
    have hsignal : s.descend.signal = .ended cause := h
    simp only [checkSignal, hsignal, Signal.cause?]
  have hbody := Run.bind_of_error hlook fun _ => body
  simp only [statement, nested, refusal]
  split
  · rfl
  · rw [hbody]
    rfl

theorem stops_declare (name : Token) (value : Value) :
    Stops (declare name value) (.one (.declare name value)) :=
  .of_blind (fun _ _ _ _ => ⟨rfl, rfl⟩) fun _ => rfl

/-- However a run is asked to stop during a write, its lines are the first ones of the run that is
not asked, up to and with that write. -/
theorem StopsAs.printed_eq {α : Type} {s t : Interpreter} {n : Nat} {events : List Event}
    {outcome : Outcome α} {c : Outcome α × Interpreter} (h : s.StopsAs n events (outcome, t) c)
    (hwrites : s.Writes events t) :
    c.2.printed = ((linesOf events).take (n + 1)).reverse ++ s.printed := by
  cases h with
  | never hfew hc =>
      rw [List.take_of_length_le (by omega), hc]
      exact hwrites.printed
  | last before line p blocks hevents hn hr hc =>
      have hlines : linesOf events = linesOf before ++ [line] := by
        rw [hevents, linesOf_append]
        rfl
      rw [List.take_of_length_le (by simp [hlines, hn]), hc]
      exact hwrites.printed
  | cut before line p blocks stmt q blocks' after hevents hn hc =>
      have hlines : linesOf events = linesOf before ++ line :: linesOf after := by
        rw [hevents, linesOf_append]
        rfl
      have htake : (linesOf events).take (n + 1) = linesOf before ++ [line] := by
        rw [hlines, List.take_append, List.take_of_length_le (by omega), ← hn,
          Nat.add_sub_cancel_left]
        rfl
      have hat : p.printed = (linesOf before).reverse ++ s.printed :=
        hwrites.atEvent before ⟨.print line, p, blocks⟩ _ hevents
      rw [htake, hc, List.reverse_append, List.append_assoc, ← hat]
      rfl

variable [Machine]

theorem exec_of_ended {s : Interpreter} {cause : Cause} (h : s.signal = .ended cause)
    (stmt : Stmt) : exec stmt s = (.error (s.refusal stmt cause), s) := by
  match stmt with
  | .expression token expr => exact statement_of_ended h (.expression token expr) _
  | .print token expr => exact statement_of_ended h (.print token expr) _
  | .var name none => exact statement_of_ended h (.var name none) _
  | .var name (some init) => exact statement_of_ended h (.var name (some init)) _
  | .ite token condition yes none =>
    exact statement_of_ended h (.ite token condition yes none) _
  | .ite token condition yes (some no) =>
    exact statement_of_ended h (.ite token condition yes (some no)) _
  | .block token body => exact statement_of_ended h (.block token body) _

theorem exists_trace_eq_start (stmt : Stmt) (s : Interpreter) :
    ∃ after, stmt.trace s = ⟨.start stmt, s, 0⟩ :: after := by
  match stmt with
  | .expression .. | .print .. | .var _ none | .var _ (some _) | .ite _ _ _ none
  | .ite _ _ _ (some _) | .block .. => exact ⟨_, rfl⟩

theorem linesOf_part {α : Type} {run : Run α} {told : Trace} (h : Trace.account.Part run told)
    (s : Interpreter) : linesOf (told s) = [] := by
  cases h with
  | eval e => exact e.onlyAssigns_trace.linesOf_eq s
  | decides op l => rfl
  | look token => rfl

theorem startsAtOnce_execute (program : List Stmt) :
    Run.StartsAtOnce (execute program) (Stmt.listTrace program) := by
  intro s cause hs
  cases program with
  | nil => exact .inl ⟨rfl, rfl, rfl⟩
  | cons stmt rest =>
      obtain ⟨after, htrace⟩ := exists_trace_eq_start stmt s
      have hexec : exec stmt (s.signalled (.ended cause)) =
          (.error (s.refusal stmt cause), s.signalled (.ended cause)) := exec_of_ended rfl stmt
      have hstart : ∃ after, Stmt.listTrace (stmt :: rest) s = ⟨.start stmt, s, 0⟩ :: after := by
        change ∃ after, stmt.trace s ++ _ = _
        rw [htrace, List.cons_append]
        exact ⟨_, rfl⟩
      obtain ⟨after, hstart⟩ := hstart
      exact .inr ⟨stmt, after, hstart, Run.bind_of_error hexec fun _ => execute rest⟩

theorem stops_closed :
    Trace.account.Closed (fun _ => True) fun run trace => run.Stops trace where
  pure a := .of_blind (.of_static (Run.static_pure a)) fun _ => rfl
  quiet _ hrun := .of_blind (blind_does hrun) fun _ => rfl
  bind hpart hrun hnext :=
    .bind (keeps_part hpart) (blind_part hpart) hrun hnext (.inl (linesOf_part hpart))
  node {_ n _ _} _ _ hbody :=
    match n with
    | .expression e => .nested e.token hbody
    | .statement stmt => .started stmt hbody
  inScope hbody := .inScope hbody
  look _ := .look _
  write v _ := .write _ v
  declare := stops_declare
  printLine := .printLine
  sequence {stmt rest} hstmt hrest :=
    .bind (keeps_exec stmt) (blind_exec stmt) hstmt (fun _ => hrest)
      (.inr fun _ => startsAtOnce_execute rest)

/-- A run that is asked to stop during a write ends at the first statement after that write, with
the output and the bindings of that moment, and is otherwise not changed. A signal that never asks
to stop is as good as none. After having been asked to stop, an interpreter does not execute
anything, but it still evaluates expressions. -/
theorem stopped_at_next_statement (s : Interpreter) :
    (∀ (program : List Stmt) (n : Nat),
      let live := s.signalled .live
      let events := Stmt.listTrace program live
      let r := execute program live
      let c := execute program (s.signalled (.afterWrites n))
      live.StopsAs n events r c ∧
        r.2.printed = (linesOf events).reverse ++ s.printed ∧
        c.2.printed = ((linesOf events).take (n + 1)).reverse ++ s.printed) ∧
    (∀ program : List Stmt,
      let r := execute program (s.signalled .live)
      execute program (s.signalled .absent) = (r.1, r.2.signalled .absent)) ∧
    (∀ (stmt : Stmt) (rest : List Stmt) (cause : Cause),
      execute (stmt :: rest) (s.signalled (.ended cause)) =
        (.error (s.refusal stmt cause), s.signalled (.ended cause))) ∧
    ∀ (e : Expr) (signal : Signal),
      evaluate e (s.signalled signal) = ((evaluate e s).1, (evaluate e s).2.signalled signal) := by
  refine ⟨fun program n => ?_, fun program => ?_, fun stmt rest cause => ?_, fun e signal => ?_⟩
  · have hstops := stops_closed.execute program (fun _ _ => trivial) (s.signalled .live) n rfl
    have hwrites := Writes.traceClosed.execute program (s.signalled .live)
    exact ⟨hstops, hwrites.printed, hstops.printed_eq hwrites⟩
  · exact (blind_execute program (s.signalled .live) .absent .live .absent).2
  · exact Run.bind_of_error (exec_of_ended rfl stmt) fun _ => execute rest
  · have hblind : Blind (fun _ => True) (eval e) := blind_eval e
    exact (hblind s signal trivial trivial).2

end Interpreter

end TreeScript
