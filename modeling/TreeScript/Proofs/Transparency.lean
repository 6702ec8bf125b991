import TreeScript.Proofs.Commutation

/-!
# Blocks that declare nothing of their own

The scope of a block is there for the declarations that stand in the block outside of further
blocks: `Stmt.declares`. Without such a declaration the scope stays empty, and a run does not notice
empty scopes among those that it sees: `View.lawful_padding`. So the block runs as its statements do
without it. What a block does declare is gone with its scope: no later run can tell what it was.
-/

namespace TreeScript

/-! ## An empty scope among others -/

namespace BigStep.Stack

/-- The stack with an empty scope put in below its `depth` innermost scopes. -/
def padded : Nat → Stack → Stack
  | 0, σ => .empty :: σ
  | _ + 1, [] => []
  | depth + 1, scope :: outer => scope :: padded depth outer

theorem find?_padded (name : String) (depth : Nat) (σ : Stack) :
    find? name (padded depth σ) = find? name σ := by
  induction depth generalizing σ with
  | zero => rfl
  | succ depth ih =>
      cases σ with
      | nil => rfl
      | cons scope outer => rw [padded, find?, find?, ih]

theorem assign?_padded (name : String) (value : Value) (depth : Nat) (σ : Stack) :
    assign? name value (padded depth σ) = (assign? name value σ).map (padded depth) := by
  induction depth generalizing σ with
  | zero => rfl
  | succ depth ih =>
      cases σ with
      | nil => rfl
      | cons scope outer =>
          rw [padded, assign?, assign?, ih]
          split
          · rfl
          · cases assign? name value outer <;> rfl

end BigStep.Stack

/-- The second run sees an empty scope more, below as many scopes as the place says. Declarations
must not go to it. -/
def View.padding : View where
  Place := Nat
  scope := (· + 1)
  stack depth σ τ := τ = σ.padded depth
  declares depth := 0 < depth

theorem View.lawful_padding [Machine] : padding.Lawful where
  values := Value.congruence_eq
  signals := Signal.congruence_eq
  error := by
    rintro token token' kind message (rfl | rfl) _
    · rfl
    · rfl
  undefined := by
    rintro name _ rfl
    rfl
  find? := by
    rintro depth σ _ name _ rfl rfl
    have hfind := BigStep.Stack.find?_padded name.lexeme depth σ
    exact hfind ▸ .refl fun _ => rfl
  assign? := by
    rintro depth σ _ name _ v _ rfl rfl rfl
    have hassign := BigStep.Stack.assign?_padded name.lexeme v depth σ
    generalize BigStep.Stack.assign? name.lexeme v (BigStep.Stack.padded depth σ) = other at hassign
    subst hassign
    cases σ.assign? name.lexeme v with
    | none => exact .none
    | some τ => exact .some rfl
  define := by
    rintro depth a b name _ v _ σ τ hstack hdepth rfl rfl
    cases depth with
    | zero => exact absurd hdepth (Nat.lt_irrefl 0)
    | succ depth =>
        obtain ⟨rfl, rfl⟩ := List.cons.inj hstack
        rfl
  enter := by
    rintro depth σ _ rfl
    rfl
  leave hstack := (List.cons.inj hstack).2
  declares_scope := Nat.succ_pos

/-! ## The environments that were there before -/

namespace Forest

variable {f g : Forest} {n : Nat}

theorem path_congr (h : ∀ i < n, g.get? i = f.get? i) {i : Nat} (hi : i < f.size) (hn : i < n) :
    g.path i = f.path i := by
  induction i, hi using rec_path with
  | root i e he ho => rw [path_root he ho, path_root ((h i hn).trans he) ho]
  | inner i e o he ho hlt _ ih =>
      rw [path_inner he ho, path_inner ((h i hn).trans he) ho, ih (Nat.lt_trans hlt hn)]

theorem Extends.get?_eq {f' g' : Forest} (hf : f.Extends f') (hg : g.Extends g') {i : Nat}
    (hi : i < f.size) (h : g.get? i = f.get? i) (hscope : g'.scope i = f'.scope i) :
    g'.get? i = f'.get? i := by
  obtain ⟨e, he⟩ := exists_get? hi
  obtain ⟨a, ha, hfouter, -⟩ := hf i e he
  obtain ⟨b, hb, hgouter, -⟩ := hg i e (h.trans he)
  rw [scope_of_get? ha, scope_of_get? hb] at hscope
  rw [ha, hb, Option.some.injEq]
  cases a
  cases b
  cases hscope
  cases hfouter.trans hgouter.symm
  rfl

end Forest

namespace Interpreter

/-- `t` is `s` with other environments from number `n` on. -/
structure SameBelow (n : Nat) (s t : Interpreter) : Prop where
  root : t.chain.root = s.chain.root
  current : t.chain.current = s.chain.current
  level : t.level = s.level
  maxDepth : t.maxDepth = s.maxDepth
  signal : t.signal = s.signal
  printed : t.printed = s.printed
  reported : t.reported = s.reported
  environments : ∀ i < n, t.chain.forest.get? i = s.chain.forest.get? i

variable {α : Type} {n : Nat} {s t s' t' : Interpreter}

theorem stack_congr (hcurrent : s.chain.current < n) (hn : n ≤ s.chain.forest.size)
    (hsame : t.chain.current = s.chain.current)
    (h : ∀ i < n, t.chain.forest.get? i = s.chain.forest.get? i) : t.stack = s.stack := by
  have hsize : s.chain.current < s.chain.forest.size := Nat.lt_of_lt_of_le hcurrent hn
  rw [stack, stack, hsame, Forest.scopes, Forest.scopes, Forest.path_congr h hsize hcurrent]
  apply List.map_congr_left
  intro i hi
  have hi : i < n := Nat.lt_of_le_of_lt (Forest.le_of_mem_path hsize hi) hcurrent
  rw [Forest.scope, Forest.scope, h i hi]

/-- Two runs from the same environments below `n` that see the same scopes at their end: all
environments below `n` are the same again, those that can be seen and those that cannot. -/
theorem environments_congr (hcurrent : s.chain.current < n) (hn : n ≤ s.chain.forest.size)
    (hsame : t.chain.current = s.chain.current)
    (h : ∀ i < n, t.chain.forest.get? i = s.chain.forest.get? i) (hs : s.Spares s')
    (ht : t.Spares t') (hstack : t'.stack = s'.stack) :
    ∀ i < n, t'.chain.forest.get? i = s'.chain.forest.get? i := by
  intro i hi
  have hsize : s.chain.current < s.chain.forest.size := Nat.lt_of_lt_of_le hcurrent hn
  have hsize' : t.chain.current < t.chain.forest.size := by
    rw [hsame, ← Forest.get?_eq_some_iff_lt, h _ hcurrent, Forest.get?_eq_some_iff_lt]
    exact hsize
  have hpath : t.chain.forest.path t.chain.current = s.chain.forest.path s.chain.current := by
    rw [hsame, Forest.path_congr h hsize hcurrent]
  have hi' : i < s.chain.forest.size := Nat.lt_of_lt_of_le hi hn
  have hit : i < t.chain.forest.size := by
    rw [← Forest.get?_eq_some_iff_lt, h i hi, Forest.get?_eq_some_iff_lt]
    exact hi'
  refine hs.forest.get?_eq ht.forest hi' (h i hi) ?_
  by_cases hseen : i ∈ s.chain.forest.path s.chain.current
  · rw [hs.toKeeps.stack_eq hsize, ht.toKeeps.stack_eq hsize', hpath] at hstack
    exact List.map_inj_left.1 hstack i hseen
  · rw [hs.unseen hsize i hi' hseen, ht.unseen hsize' i hit (by rwa [hpath]), Forest.scope,
      Forest.scope, h i hi]

theorem SameBelow.state (h : s.SameBelow n t) (hcurrent : s.chain.current < n)
    (hn : n ≤ s.chain.forest.size) : View.same.State s.printed s.printed () s t := by
  have hsize : s.chain.current < s.chain.forest.size := Nat.lt_of_lt_of_le hcurrent hn
  refine ⟨hsize, ?_, ?_, .inr h.level, h.maxDepth, h.signal.symm, [], rfl, h.printed⟩
  · rw [h.current, ← Forest.get?_eq_some_iff_lt, h.environments _ hcurrent,
      Forest.get?_eq_some_iff_lt]
    exact hsize
  · exact stack_congr hcurrent hn h.current h.environments

/-- From interpreters that are the same below `n`, a computation that looks at nothing but the
scopes it sees comes to the same end, and to interpreters that are the same below `n` again. -/
theorem SameBelow.run [Machine] (h : s.SameBelow n t) (hcurrent : s.chain.current < n)
    (hn : n ≤ s.chain.forest.size) {run : Run α}
    (hrun : (View.same.comparison s.printed s.printed).Compares () Eq run run)
    (hspares : run.Respects Spares) :
    (run t).1 = (run s).1 ∧ (run s).2.SameBelow n (run t).2 := by
  obtain ⟨houtcome, hafter⟩ := (hrun s t (h.state hcurrent hn)).eq rfl fun _ _ => id
  have hs := hspares s
  have ht := hspares t
  obtain ⟨lines, hlines, hlines'⟩ := hafter.printed
  refine ⟨houtcome, ?_, ?_, ?_, hafter.maxDepth, hafter.signal.symm, hlines'.trans hlines.symm, ?_,
    environments_congr hcurrent hn h.current h.environments hs ht hafter.stack⟩
  · rw [ht.root, hs.root, h.root]
  · rw [ht.current, hs.current, h.current]
  · rw [ht.level, hs.level, h.level]
  · rw [ht.reported, hs.reported, h.reported]

/-! ## Blocks -/

/-- After two runs from one state that see the same scopes at their end, all environments that were
there before are the same. -/
theorem sameBelow_of_spares (hcurrent : s.chain.current < s.chain.forest.size) (hs : s.Spares s')
    (ht : s.Spares t') (printed : List String) (h : View.same.State printed printed () s' t') :
    s'.SameBelow s.chain.forest.size t' := by
  obtain ⟨lines, hlines, hlines'⟩ := h.printed
  refine ⟨?_, ?_, ?_, h.maxDepth, h.signal.symm, hlines'.trans hlines.symm, ?_,
    environments_congr hcurrent (Nat.le_refl _) rfl (fun _ _ => rfl) hs ht h.stack⟩
  · rw [ht.root, hs.root]
  · rw [ht.current, hs.current]
  · rw [ht.level, hs.level]
  · rw [ht.reported, hs.reported]

section

variable [Machine]

/-- Without a nesting limit, and with a signal that no look at it ends. -/
structure Unhindered (s : Interpreter) : Prop where
  maxDepth : s.maxDepth ≤ 0
  cause : s.signal.cause? = none
  look : s.signal.looked = s.signal

section Block

variable (token : Token) (body : List Stmt)

theorem exec_block_cases (s : Interpreter) :
    (∃ e, exec (.block token body) s = (.error e, s) ∧
      (e = .tooDeep token s.maxDepth ∨ ∃ cause, e = .stopped token cause)) ∨
    exec (.block token body) s =
      ((inScope (execute body) { s.descend with signal := s.signal.looked }).1,
        (inScope (execute body) { s.descend with signal := s.signal.looked }).2.ascend) := by
  rw [exec, statement, nested]
  split
  · exact .inl ⟨_, rfl, .inl rfl⟩
  · cases hcause : s.signal.cause? with
    | some cause =>
        have hcheck : checkSignal token s.descend = (.error (.stopped token cause), s.descend) := by
          simp only [checkSignal, descend, hcause]
        rw [Run.bind_of_error hcheck]
        exact .inl ⟨_, rfl, .inr ⟨cause, rfl⟩⟩
    | none =>
        have hcheck : checkSignal token s.descend =
            (.value (), { s.descend with signal := s.signal.looked }) := by
          simp only [checkSignal, descend, hcause]
        rw [Run.bind_of_value hcheck]
        exact .inr rfl

variable (hcurrent : s.chain.current < s.chain.forest.size) (hfree : s.Unhindered)

include hfree

theorem exec_block_eq :
    exec (.block token body) s = ((inScope (execute body) s.descend).1,
      (inScope (execute body) s.descend).2.ascend) := by
  have hcheck : checkSignal token s.descend = (.value (), s.descend) := by
    simp only [checkSignal, descend, hfree.cause, hfree.look]
  rw [exec, statement, nested_of_nonpos hfree.maxDepth, Run.bind_of_value hcheck]

include hcurrent

theorem exec_block_inScope :
    (exec (.block token body) s).1 = (inScope (execute body) s).1 ∧
      (inScope (execute body) s).2.SameBelow s.chain.forest.size
        (exec (.block token body) s).2 := by
  have hstart : View.same.State s.printed s.printed () s s.descend :=
    ⟨hcurrent, hcurrent, rfl, .inl hfree.maxDepth, rfl, rfl, [], rfl, rfl⟩
  have hsame := View.lawful_same.onStatements s.printed s.printed
  have hbody := hsame.execute_self (fun _ => rfl) body () (.inl trivial)
  obtain ⟨houtcome, hafter⟩ := (hsame.inScope (keeps_execute body) (keeps_execute body) hbody s
    s.descend hstart).eq rfl fun _ _ => id
  have hinside : s.Spares (inScope (execute body) s).2 :=
    Spares.stepClosed.inScope_respects (Spares.stepClosed.execute body) s
  have hblock : s.Spares (exec (.block token body) s).2 :=
    Spares.stepClosed.exec (.block token body) s
  rw [exec_block_eq token body hfree] at hblock ⊢
  refine ⟨houtcome, sameBelow_of_spares hcurrent hinside hblock s.printed ?_⟩
  refine { hafter with level := .inl ?_ }
  rw [hinside.maxDepth]
  exact hfree.maxDepth

/-- A block without declarations of its own does what its statements do in the scope around it. -/
theorem exec_block_execute (hbody : body.any Stmt.declares = false) :
    (exec (.block token body) s).1 = (execute body s).1 ∧
      (execute body s).2.SameBelow s.chain.forest.size (exec (.block token body) s).2 := by
  have hstart : View.padding.State s.printed s.printed (0 : Nat) s
      { s.descend with chain := s.chain.enter } := by
    refine ⟨hcurrent, ?_, ?_, .inl hfree.maxDepth, rfl, rfl, [], rfl, rfl⟩
    · exact Nat.lt_of_lt_of_eq (Nat.lt_succ_self _) (Forest.size_enclose _ _).symm
    · exact stack_enter hcurrent
  have hpadding := View.lawful_padding.onStatements s.printed s.printed
  have hboth := hpadding.execute_self (fun _ => rfl) body (0 : Nat) (.inr hbody)
  obtain ⟨houtcome, hafter⟩ := (hboth _ _ hstart).eq rfl fun _ _ => id
  have hplain : s.Spares (execute body s).2 := Spares.stepClosed.execute body s
  have hblock : s.Spares (exec (.block token body) s).2 :=
    Spares.stepClosed.exec (.block token body) s
  rw [exec_block_eq token body hfree] at hblock ⊢
  refine ⟨houtcome, sameBelow_of_spares hcurrent hplain hblock s.printed ?_⟩
  -- What the block drops at its end is its scope, the empty one that was put in.
  obtain ⟨inner, hinner⟩ := exists_stack_eq_leave (s := s.descend) hcurrent (keeps_execute body _)
  have hstack := hafter.stack
  have hleft := hinner.symm.trans hstack
  refine { hafter with current' := ?_, stack := ?_, level := .inl ?_ }
  · rw [hblock.current]
    exact hblock.forest.lt_size hcurrent
  · exact (List.cons.inj hleft).2
  · rw [hplain.maxDepth]
    exact hfree.maxDepth

end Block

/-- A block that declares nothing outside of further blocks might as well not be there: without a
nesting limit, and if nobody stops the run, its statements do the same in the scope around it. Any
block changes the environments that were there before it only as its statements do in a new scope,
one level deeper if there is a nesting limit, unless it is refused as a whole. What it leaves behind
in other environments, the new scope among them, makes no difference to anything that is run
later. -/
theorem exec_block_transparent {s : Interpreter}
    (hcurrent : s.chain.current < s.chain.forest.size) (token : Token) (body : List Stmt) :
    let block := exec (.block token body) s
    let inside := execute body { s with chain := s.chain.enter }
    let deeper := execute body { s.descend with
      chain := s.chain.enter, signal := s.signal.looked }
    let n := s.chain.forest.size
    (s.Unhindered →
      (body.any Stmt.declares = false →
        block.1 = (execute body s).1 ∧ (execute body s).2.SameBelow n block.2) ∧
      block.1 = inside.1 ∧
      SameBelow n { inside.2 with chain := inside.2.chain.leave s.chain.current } block.2) ∧
    ((∃ e, block = (.error e, s) ∧
        (e = .tooDeep token s.maxDepth ∨ ∃ cause, e = .stopped token cause)) ∨
      block.1 = deeper.1 ∧
      block.2 = { deeper.2.ascend with chain := deeper.2.chain.leave s.chain.current }) ∧
    ∀ other : Interpreter, block.2.SameBelow n other →
      (∀ program : List Stmt, (execute program other).1 = (execute program block.2).1 ∧
        (execute program block.2).2.SameBelow n (execute program other).2) ∧
      ∀ e : Expr, (evaluate e other).1 = (evaluate e block.2).1 ∧
        (evaluate e block.2).2.SameBelow n (evaluate e other).2 := by
  intro block inside deeper n
  refine ⟨fun hfree => ⟨exec_block_execute token body hcurrent hfree,
    exec_block_inScope token body hcurrent hfree⟩, ?_, fun other hother => ?_⟩
  · exact (exec_block_cases token body s).imp id fun hrun => ⟨congrArg (·.1) hrun,
      congrArg (·.2) hrun⟩
  · have hblock : s.Keeps block.2 := keeps_exec (.block token body) s
    have hcurrent' : block.2.chain.current < n := by
      rw [hblock.current]
      exact hcurrent
    have hsize : n ≤ block.2.chain.forest.size := hblock.forest.size_le
    have hsame := View.lawful_same.onStatements block.2.printed block.2.printed
    exact ⟨fun program => hother.run hcurrent' hsize
        (hsame.execute_self (fun _ => rfl) program () (.inl trivial))
        (Spares.stepClosed.execute program),
      fun e => hother.run hcurrent' hsize (hsame.eval (.refl (fun _ => rfl) e) ())
        (Spares.stepClosed.eval e)⟩

end

/-- The statements `if (x) { var y = "c"; x = y; } print x; z;`, which end in an error about `z`. -/
def branching : List Stmt :=
  let x : Token := .ofName "x" 1
  let y : Token := .ofName "y" 1
  [.ite (.ofKind .ifWord 1) (.variable x)
      (.block (.ofKind .leftBrace 1)
        [.var y (some (.literal (.ofKind .string 1) (.text "c"))),
          .expression x (.assign x (.variable y))])
      none,
    .print (.ofKind .printWord 2) (.variable x),
    .expression (.ofName "z" 3) (.variable (.ofName "z" 3))]

/-- An interpreter with the globals `x` and `y` and without a nesting limit. -/
def unlimited : Interpreter := { twoGlobals with maxDepth := 0, signal := .live }

theorem exec_block_branching :
    unlimited.Unhindered ∧ branching.any Stmt.declares = false ∧
      (execute branching unlimited).1 = .error (.undefined (.ofName "z" 3)) ∧
      (execute branching unlimited).2.printed = ["c"] ∧
      (exec (.block (.ofKind .leftBrace 1) branching) unlimited).1 =
        (execute branching unlimited).1 ∧
      (execute branching unlimited).2.SameBelow unlimited.chain.forest.size
        (exec (.block (.ofKind .leftBrace 1) branching) unlimited).2 := by
  have hfree : unlimited.Unhindered := ⟨by decide, rfl, rfl⟩
  have hnone : branching.any Stmt.declares = false := by decide
  refine ⟨hfree, hnone, by cbv, by cbv, ?_⟩
  exact ((exec_block_transparent (by decide) _ branching).1 hfree).1 hnone

end Interpreter

end TreeScript
