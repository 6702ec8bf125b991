import Mathlib
import TreeScript.Proofs.Commutation
import TreeScript.Proofs.Record

/-!
# Programs in pieces

A program may be cut anywhere between its top-level statements. Its pieces, run in turn by calls of
their own up to the first that does not end well, do what the whole program does, and so do jobs
that carry the pieces to one interpreter.

A call hands on its globals and its signal, and nothing else: in a `Relay` each piece is run by a
new interpreter that is given just these, and again the same is printed and the same end is come to.
-/

namespace TreeScript

theorem Run.bind_assoc {α β γ : Type} (run : Run α) (next : α → Run β) (last : β → Run γ) :
    (run >>= next) >>= last = run >>= fun a => next a >>= last := by
  funext s
  rcases hrun : run s with ⟨outcome, t⟩
  cases outcome with
  | value a =>
      rw [bind_of_value hrun]
      rcases hnext : next a t with ⟨outcome', u⟩
      have hboth : (run >>= next) s = (outcome', u) := (bind_of_value hrun next).trans hnext
      cases outcome' with
      | value b => rw [bind_of_value hboth, bind_of_value hnext]
      | error e => rw [bind_of_error hboth, bind_of_error hnext]
      | fault f => rw [bind_of_fault hboth, bind_of_fault hnext]
  | error e => rw [bind_of_error hrun, bind_of_error (bind_of_error hrun next)]
  | fault f => rw [bind_of_fault hrun, bind_of_fault (bind_of_fault hrun next)]

namespace Interpreter

/-! ## One call after the other -/

section

variable [Machine]

def executeEach : List (List Stmt) → Run Unit
  | [] => pure ()
  | piece :: rest => do
    execute piece
    executeEach rest

theorem execute_append (first later : List Stmt) :
    execute (first ++ later) = execute first >>= fun _ => execute later := by
  induction first with
  | nil => rfl
  | cons stmt rest ih =>
      change (exec stmt >>= fun _ => execute (rest ++ later)) =
        (exec stmt >>= fun _ => execute rest) >>= fun _ => execute later
      rw [ih, Run.bind_assoc]

theorem executeEach_eq (pieces : List (List Stmt)) :
    executeEach pieces = execute pieces.flatten := by
  induction pieces with
  | nil => rfl
  | cons piece rest ih =>
      rw [List.flatten_cons, execute_append, ← ih]
      rfl

section Each

variable {piece : List Stmt} {rest : List (List Stmt)} {s t : Interpreter}

theorem executeEach_of_value (h : execute piece s = (.value (), t)) :
    executeEach (piece :: rest) s = executeEach rest t :=
  Run.bind_of_value h _

theorem executeEach_of_ne_value {outcome : Outcome Unit} (h : execute piece s = (outcome, t))
    (hends : outcome ≠ .value ()) : executeEach (piece :: rest) s = (outcome, t) := by
  cases outcome with
  | value => exact absurd rfl hends
  | error e => exact Run.bind_of_error h _
  | fault f => exact Run.bind_of_fault h _

end Each

/-- If all pieces end well, calling them without looking at how they end comes to the same. -/
theorem foldl_execute_of_value (pieces : List (List Stmt)) (s : Interpreter)
    (h : (executeEach pieces s).1 = .value ()) :
    (pieces.map Session.Action.execute).foldl Session.Action.apply s =
      (executeEach pieces s).2 := by
  induction pieces generalizing s with
  | nil => rfl
  | cons piece rest ih =>
      rcases hpiece : execute piece s with ⟨outcome, t⟩
      have hnext : Session.Action.apply s (.execute piece) = t := congrArg Prod.snd hpiece
      rw [List.map_cons, List.foldl_cons, hnext]
      cases outcome with
      | value a =>
          rw [executeEach_of_value hpiece] at h ⊢
          exact ih t h
      | error e | fault f =>
          rw [executeEach_of_ne_value hpiece nofun] at h
          cases h

end

/-! ## What one call hands on to the next -/

/-- What a call leaves behind that a later call can see. -/
structure Legacy where
  globals : Scope
  signal : Signal

def legacy (s : Interpreter) : Legacy := ⟨s.chain.globals, s.signal⟩

def Legacy.heir (l : Legacy) (maxDepth : Int) : Interpreter :=
  { chain := .ofGlobal l.globals, maxDepth, signal := l.signal }

theorem Legacy.atRest_heir (l : Legacy) (maxDepth : Int) : (l.heir maxDepth).AtRest :=
  ⟨rfl, rfl, _, rfl, rfl⟩

/-- Two interpreters that see the same scopes and are otherwise in the same state. -/
structure Twins (s t : Interpreter) : Prop where
  current : s.chain.current < s.chain.forest.size
  current' : t.chain.current < t.chain.forest.size
  stack : t.stack = s.stack
  level : t.level = s.level
  maxDepth : t.maxDepth = s.maxDepth
  signal : t.signal = s.signal

variable [Machine]

theorem twins_execute {s t : Interpreter} (h : s.Twins t) (program : List Stmt) :
    (execute program t).1 = (execute program s).1 ∧
      (∃ lines, (execute program s).2.printed = lines ++ s.printed ∧
        (execute program t).2.printed = lines ++ t.printed) ∧
      (execute program s).2.Twins (execute program t).2 := by
  have hstart : View.same.State s.printed t.printed () s t :=
    ⟨h.current, h.current', h.stack, .inr h.level, h.maxDepth, h.signal.symm, [], rfl, rfl⟩
  have hruns := (View.lawful_same.onStatements s.printed t.printed).execute_self (fun _ => rfl)
    program () (.inl trivial)
  obtain ⟨houtcome, hend⟩ := (hruns s t hstart).eq rfl fun _ _ => id
  have hlevel : (execute program t).2.level = (execute program s).2.level := by
    rw [(keeps_execute program t).level, (keeps_execute program s).level, h.level]
  exact ⟨houtcome, hend.printed, hend.current, hend.current', hend.stack, hlevel, hend.maxDepth,
    hend.signal.symm⟩

/-- Between calls, interpreters with the same globals, limit and signal run a program alike, and
leave the same to the next call. -/
theorem execute_of_legacy {s t : Interpreter} (hs : s.AtRest) (ht : t.AtRest)
    (hlegacy : t.legacy = s.legacy) (hdepth : t.maxDepth = s.maxDepth) (program : List Stmt) :
    (execute program t).1 = (execute program s).1 ∧
      (∃ lines, (execute program s).2.printed = lines ++ s.printed ∧
        (execute program t).2.printed = lines ++ t.printed) ∧
      (execute program t).2.legacy = (execute program s).2.legacy := by
  have hglobals : t.chain.globals = s.chain.globals := congrArg Legacy.globals hlegacy
  have hstack : t.stack = s.stack := by
    rw [stack, stack, hs.scopes_eq, ht.scopes_eq, hglobals]
  obtain ⟨houtcome, hprinted, htwins⟩ :=
    twins_execute ⟨hs.current_lt, ht.current_lt, hstack, ht.level.trans hs.level.symm, hdepth,
      congrArg Legacy.signal hlegacy⟩ program
  refine ⟨houtcome, hprinted, ?_⟩
  have hstack' := htwins.stack
  rw [stack, stack, (hs.of_restores (keeps_execute _ s).toRestores).scopes_eq,
    (ht.of_restores (keeps_execute _ t).toRestores).scopes_eq] at hstack'
  rw [legacy, legacy, List.singleton_inj.1 hstack', htwins.signal]

/-- An heir runs a program like the interpreter itself. -/
theorem execute_heir {s : Interpreter} (hs : s.AtRest) (program : List Stmt) :
    ∃ u, execute program (s.legacy.heir s.maxDepth) = ((execute program s).1, u) ∧
      (execute program s).2.printed = u.printed ++ s.printed ∧
      u.legacy = (execute program s).2.legacy := by
  obtain ⟨houtcome, ⟨lines, hprinted, hprinted'⟩, hlegacy⟩ :=
    execute_of_legacy hs (s.legacy.atRest_heir s.maxDepth) rfl rfl program
  have hlines : (execute program (s.legacy.heir s.maxDepth)).2.printed = lines :=
    hprinted'.trans (List.append_nil lines)
  rw [← hlines] at hprinted
  exact ⟨(execute program (s.legacy.heir s.maxDepth)).2, Prod.ext houtcome rfl, hprinted, hlegacy⟩

/-- Each piece is run by a new interpreter that is given the legacy of the one before, up to the
first piece that does not end in a value. The lines that are printed on the way come last one
first. -/
inductive Relay (maxDepth : Int) :
    Legacy → List (List Stmt) → Outcome Unit → List String → Legacy → Prop where
  | done {l} : Relay maxDepth l [] (.value ()) [] l
  | next {l piece rest t outcome lines l'} :
    execute piece (l.heir maxDepth) = (.value (), t) →
    Relay maxDepth t.legacy rest outcome lines l' →
    Relay maxDepth l (piece :: rest) outcome (lines ++ t.printed) l'
  | stopped {l piece rest t outcome} :
    execute piece (l.heir maxDepth) = (outcome, t) → outcome ≠ .value () →
    Relay maxDepth l (piece :: rest) outcome t.printed t.legacy

theorem Relay.deterministic {maxDepth : Int} {l m m' : Legacy} {pieces : List (List Stmt)}
    {outcome outcome' : Outcome Unit} {lines lines' : List String}
    (h : Relay maxDepth l pieces outcome lines m)
    (h' : Relay maxDepth l pieces outcome' lines' m') :
    outcome = outcome' ∧ lines = lines' ∧ m = m' := by
  induction h generalizing outcome' lines' with
  | done =>
      cases h'
      exact ⟨rfl, rfl, rfl⟩
  | next hpiece _ ih =>
      cases h' with
      | next hpiece' hrest' =>
          cases hpiece.symm.trans hpiece'
          obtain ⟨rfl, rfl, rfl⟩ := ih hrest'
          exact ⟨rfl, rfl, rfl⟩
      | stopped hpiece' hends =>
          cases hpiece.symm.trans hpiece'
          exact absurd rfl hends
  | stopped hpiece hends =>
      cases h' with
      | next hpiece' =>
          cases hpiece.symm.trans hpiece'
          exact absurd rfl hends
      | stopped hpiece' =>
          cases hpiece.symm.trans hpiece'
          exact ⟨rfl, rfl, rfl⟩

/-- An interpreter that runs all pieces does what a relay does. -/
theorem relay_executeEach {s : Interpreter} (hs : s.AtRest) (pieces : List (List Stmt)) :
    ∃ lines, (executeEach pieces s).2.printed = lines ++ s.printed ∧
      Relay s.maxDepth s.legacy pieces (executeEach pieces s).1 lines
        (executeEach pieces s).2.legacy := by
  induction pieces generalizing s with
  | nil => exact ⟨[], rfl, .done⟩
  | cons piece rest ih =>
      obtain ⟨u, hheir, hprinted, hlegacy⟩ := execute_heir hs piece
      have hkeeps := keeps_execute piece s
      rcases hpiece : execute piece s with ⟨outcome, t⟩
      rw [hpiece] at hheir hprinted hlegacy hkeeps
      cases outcome with
      | value a =>
          obtain ⟨later, hlater, hrelay⟩ := ih (hs.of_restores hkeeps.toRestores)
          rw [hkeeps.maxDepth, ← hlegacy] at hrelay
          rw [executeEach_of_value hpiece]
          refine ⟨later ++ u.printed, ?_, .next hheir hrelay⟩
          rw [hlater, hprinted, List.append_assoc]
      | error e | fault f =>
          rw [executeEach_of_ne_value hpiece nofun, ← hlegacy]
          exact ⟨u.printed, hprinted, .stopped hheir nofun⟩

end Interpreter

/-! ## Jobs that carry the pieces -/

namespace Pipeline

/-- A job that comes to run the given statements: a program that is there already, or one that is
read from a document or a file first. -/
inductive Carries (fs : FileSystem) : List Stage → Context → List Stmt → Prop where
  | document {file source p} : Context.readProgram fs { file, source } = .ok p →
    Carries fs [.load, .execute] { file, source } p.statements
  | program {c p stage} : c.program = some p → c.failures = [] → c.stop = none →
    stage = .execute ∨ stage = .run → Carries fs [stage] c p.statements

variable [Machine]

/-- Jobs go through their stages one after the other, with one interpreter, up to the first job that
stops. -/
def processEach (fs : FileSystem) :
    List (List Stage × Context) → Interpreter → Option Stop × Interpreter
  | [], s => (none, s)
  | (stages, c) :: rest, s =>
    let job := process fs stages ⟨c, s⟩
    match job.context.stop with
    | some stop => (some stop, job.interpreter)
    | none => processEach fs rest job.interpreter

section Carries

variable {fs : FileSystem} {stages : List Stage} {c : Context} {piece : List Stmt}

theorem start_eq {p : Program} (hstop : c.stop = none) (s : Interpreter) :
    (Job.start ⟨c, s⟩ p).context.stop = Stop.of? (Interpreter.execute p.statements s).1 ∧
      (Job.start ⟨c, s⟩ p).interpreter = (Interpreter.execute p.statements s).2 := by
  unfold Job.start
  rcases hrun : Interpreter.execute p.statements s with ⟨outcome, t⟩
  cases outcome with
  | value a => exact ⟨hstop, rfl⟩
  | error e => exact ⟨rfl, rfl⟩
  | fault f => exact ⟨rfl, rfl⟩

theorem Carries.process_eq (h : Carries fs stages c piece) (s : Interpreter) :
    (process fs stages ⟨c, s⟩).context.stop = Stop.of? (Interpreter.execute piece s).1 ∧
      (process fs stages ⟨c, s⟩).interpreter = (Interpreter.execute piece s).2 := by
  cases h with
  | @document file source p hread =>
      have hload : ∃ source', Context.load fs { file, source } =
          { file, source := source', program := some p } := by
        rcases Context.load_cases fs { file, source } with
          ⟨p', source', hread', -, -, hload⟩ | ⟨e, source', hread', -⟩
        · cases hread.symm.trans hread'
          exact ⟨source', hload⟩
        · cases hread.symm.trans hread'
      obtain ⟨source', hload⟩ := hload
      change (Job.execute ⟨Context.load fs { file, source }, s⟩).context.stop = _ ∧
        (Job.execute ⟨Context.load fs { file, source }, s⟩).interpreter = _
      rw [hload]
      exact start_eq rfl s
  | @program c p stage hp hfailures hstop hstage =>
      rcases hstage with rfl | rfl
      · change (Job.execute ⟨c, s⟩).context.stop = _ ∧ (Job.execute ⟨c, s⟩).interpreter = _
        have hstart : Job.execute ⟨c, s⟩ = Job.start ⟨c, s⟩ p := by
          simp only [Job.execute, hp, hfailures, List.isEmpty_nil, if_true]
        rw [hstart]
        exact start_eq hstop s
      · change (Job.run ⟨c, s⟩).context.stop = _ ∧ (Job.run ⟨c, s⟩).interpreter = _
        have hstart : Job.run ⟨c, s⟩ = Job.start ⟨c, s⟩ p := by
          simp only [Job.run, hp]
        rw [hstart]
        exact start_eq hstop s

end Carries

theorem processEach_eq {fs : FileSystem} {jobs : List (List Stage × Context)}
    {pieces : List (List Stmt)}
    (h : List.Forall₂ (fun job piece => Carries fs job.1 job.2 piece) jobs pieces)
    (s : Interpreter) :
    processEach fs jobs s =
      (Stop.of? (Interpreter.executeEach pieces s).1, (Interpreter.executeEach pieces s).2) := by
  induction h generalizing s with
  | nil => rfl
  | @cons job piece jobs pieces hjob _ ih =>
      obtain ⟨stages, c⟩ := job
      obtain ⟨hstop, hinterpreter⟩ := hjob.process_eq s
      rcases hpiece : Interpreter.execute piece s with ⟨outcome, t⟩
      rw [hpiece] at hstop hinterpreter
      cases outcome with
      | value a =>
          rw [Interpreter.executeEach_of_value hpiece, ← ih t]
          simp only [processEach, hstop, Stop.of?, hinterpreter]
      | error e | fault f =>
          rw [Interpreter.executeEach_of_ne_value hpiece nofun]
          simp only [processEach, hstop, Stop.of?, hinterpreter]

end Pipeline

namespace Interpreter

open Pipeline (Carries Stop processEach)

/-- A program may be cut into any pieces. Executed by one call after the other up to the first piece
that does not end well, they come to the same end in the same state as the whole program, and so do
jobs that carry them; and if all of them end well, nobody has to look at how they end. Between two
calls nothing but the globals is handed on, beside the signal: new interpreters that are given just
these print the same, end in the same way and leave the same globals and signal. -/
theorem execute_pieces [Machine] (pieces : List (List Stmt)) (s : Interpreter) :
    executeEach pieces s = execute pieces.flatten s ∧
      ((execute pieces.flatten s).1 = .value () →
        (pieces.map Session.Action.execute).foldl Session.Action.apply s =
          (execute pieces.flatten s).2) ∧
      (∀ fs jobs, List.Forall₂ (fun job piece => Carries fs job.1 job.2 piece) jobs pieces →
        processEach fs jobs s =
          (Stop.of? (execute pieces.flatten s).1, (execute pieces.flatten s).2)) ∧
      (s.AtRest → ∀ outcome lines l, Relay s.maxDepth s.legacy pieces outcome lines l ↔
        outcome = (execute pieces.flatten s).1 ∧
          (execute pieces.flatten s).2.printed = lines ++ s.printed ∧
          l = (execute pieces.flatten s).2.legacy) := by
  rw [← executeEach_eq]
  refine ⟨rfl, foldl_execute_of_value pieces s, fun fs jobs h => Pipeline.processEach_eq h s, ?_⟩
  intro hs outcome lines l
  obtain ⟨lines', hlines', hrelay⟩ := relay_executeEach hs pieces
  constructor
  · intro h
    obtain ⟨rfl, rfl, rfl⟩ := h.deterministic hrelay
    exact ⟨rfl, hlines', rfl⟩
  · rintro ⟨rfl, hlines, rfl⟩
    rw [hlines'] at hlines
    obtain rfl := List.append_cancel_right hlines
    exact hrelay

/-- The first of three pieces: `x` is declared. -/
def firstPiece : Program :=
  ⟨"a", [.var (.ofName "x" 1) (some (.literal (.ofKind .string 1) (.text "b")))]⟩

/-- The last of them: there is no `y` to print. The one between prints an `a`, and then `x`. -/
def lastPiece : Program :=
  ⟨"c", [.print (.ofKind .printWord 1) (.variable (.ofName "y" 1)),
    .print (.ofKind .printWord 2) (.variable (.ofName "x" 2))]⟩

def threePieces : List (List Stmt) :=
  [firstPiece.statements, Pipeline.failing, lastPiece.statements]

def threeJobs : List (List Pipeline.Stage × Pipeline.Context) :=
  [([.run], { file := "a", program := some firstPiece }),
    ([.load, .execute], { file := "", source := some Pipeline.failingSource }),
    ([.execute], { file := "c", program := some lastPiece })]

theorem execute_threePieces :
    let e := RuntimeError.undefined (.ofName "y" 1)
    processEach Pipeline.noFiles threeJobs .new =
        (some (.error e), (execute threePieces.flatten .new).2) ∧
      (processEach Pipeline.noFiles threeJobs .new).2.printed = ["b", "a"] ∧
      ∃ l, Relay Interpreter.new.maxDepth Interpreter.new.legacy threePieces (.error e)
        ["b", "a"] l := by
  intro e
  obtain ⟨-, -, hjobs, hrelay⟩ := execute_pieces threePieces .new
  have hcarries : List.Forall₂ (fun job piece => Carries Pipeline.noFiles job.1 job.2 piece)
      threeJobs threePieces := by
    have hfirst : Carries Pipeline.noFiles [.run] { file := "a", program := some firstPiece }
        firstPiece.statements := .program rfl rfl rfl (.inr rfl)
    have hmiddle : Carries Pipeline.noFiles [.load, .execute]
        { file := "", source := some Pipeline.failingSource } Pipeline.failing :=
      @Carries.document _ _ _ ⟨"", Pipeline.failing⟩ (Pipeline.ofText_failingSource "")
    have hlast : Carries Pipeline.noFiles [.execute] { file := "c", program := some lastPiece }
        lastPiece.statements := .program rfl rfl rfl (.inl rfl)
    exact .cons hfirst (.cons hmiddle (.cons hlast .nil))
  have herror : (execute threePieces.flatten .new).1 = .error e := by cbv
  have hlines : (execute threePieces.flatten .new).2.printed = ["b", "a"] := by cbv
  have hall := hjobs Pipeline.noFiles threeJobs hcarries
  rw [herror] at hall
  exact ⟨hall, by rw [hall, hlines],
    _, (hrelay .new _ _ _).2 ⟨herror.symm, hlines.trans (List.append_nil _).symm, rfl⟩⟩

end Interpreter

end TreeScript
