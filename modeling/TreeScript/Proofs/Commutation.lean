import Mathlib
import TreeScript.Proofs.Renaming

/-!
# Statements with nothing in common

Two interpreters that agree on the names that a statement mentions run it alike. The statement in
turn leaves all other names alone, so two statements without a common name do not notice each other:
they can change places, unless both of them print.
-/

namespace TreeScript

/-! ## Scopes with the same bindings -/

theorem Scope.find?_eq_some_iff {a : Scope} {name : String} {value : Value} :
    a.find? name = some value ↔ (name, value) ∈ a.entries := by
  rw [Scope.find?, List.lookup_eq_some_iff]
  constructor
  · rintro ⟨before, after, heq, -⟩
    rw [heq]
    exact List.mem_append_right _ List.mem_cons_self
  · intro hmem
    obtain ⟨before, after, heq⟩ := List.append_of_mem hmem
    have hordered := a.ordered
    rw [heq, List.pairwise_append] at hordered
    refine ⟨before, after, heq, fun p hp => ?_⟩
    have hlt : p.1 < name := hordered.2.2 p hp (name, value) List.mem_cons_self
    refine bne_iff_ne.2 ?_
    rintro rfl
    exact String.lt_irrefl _ hlt

theorem Scope.ext_find? {a b : Scope} (h : ∀ name, a.find? name = b.find? name) : a = b := by
  have hantisymm : Std.Antisymm fun p q : String × Value => p.1 < q.1 :=
    ⟨fun p q hpq hqp => absurd (String.lt_trans hpq hqp) (String.lt_irrefl _)⟩
  have hirrefl : Std.Irrefl fun p q : String × Value => p.1 < q.1 :=
    ⟨fun p => String.lt_irrefl p.1⟩
  have hentries : a.entries = b.entries := by
    refine a.ordered.eq_of_mem_iff b.ordered fun p => ?_
    obtain ⟨name, value⟩ := p
    rw [← Scope.find?_eq_some_iff, ← Scope.find?_eq_some_iff, h name]
  cases a
  cases b
  cases hentries
  rfl

namespace Interpreter

/-! ## Interpreters that agree -/

variable {s t u : Interpreter} {names : List String}

/-- A run goes back to the environments that it started in, so the stack after it has a scope for
each of them. -/
theorem Keeps.stack_eq (hcurrent : s.chain.current < s.chain.forest.size) (h : s.Keeps t) :
    t.stack = (s.chain.forest.path s.chain.current).map t.chain.forest.scope := by
  rw [stack, Forest.scopes, h.current, Forest.path_extends h.forest hcurrent]

/-- After two runs from the same state, to agree on names is to agree on them in each environment
that can be seen. -/
theorem Keeps.forall₂_stack_iff (hcurrent : s.chain.current < s.chain.forest.size)
    (ht : s.Keeps t) (hu : s.Keeps u) :
    List.Forall₂ (Scope.Mirrors id names) t.stack u.stack ↔
      ∀ i ∈ s.chain.forest.path s.chain.current, ∀ name ∈ names,
        (u.chain.forest.scope i).find? name = (t.chain.forest.scope i).find? name := by
  rw [ht.stack_eq hcurrent, hu.stack_eq hcurrent, List.forall₂_map_left_iff,
    List.forall₂_map_right_iff, List.forall₂_same]
  rfl

section

variable [Machine]

/-- After a statement the interpreter agrees with the one before it on all names that the statement
does not mention. -/
theorem mirrors_exec_of_disjoint {stmt : Stmt} (hcurrent : s.chain.current < s.chain.forest.size)
    (hidle : s.signal.Idle) (hnames : ∀ name ∈ names, name ∉ stmt.names) :
    s.Mirrors id names (exec stmt s).2 := by
  have hkeeps := keeps_exec stmt s
  refine ⟨hcurrent, ?_, ?_, hkeeps.level, hkeeps.maxDepth, ?_⟩
  · rw [hkeeps.current]
    exact hkeeps.forest.lt_size hcurrent
  · rw [Keeps.forall₂_stack_iff hcurrent (Keeps.stepClosed.refl s) hkeeps]
    intro i hi name hname
    have hsize : i < s.chain.forest.size :=
      Nat.lt_of_le_of_lt (Forest.le_of_mem_path hcurrent hi) hcurrent
    exact find?_exec_of_not_mem stmt s hsize (hnames name hname)
  · exact .inl (blind_exec stmt s s.signal hidle hidle).1

/-- Two interpreters that agree on the names that a statement mentions run it alike. -/
theorem exec_of_mirrors (stmt : Stmt) (h : s.Mirrors id stmt.names t) :
    (exec stmt t).1 = (exec stmt s).1 ∧
      (∃ lines, (exec stmt s).2.printed = lines ++ s.printed ∧
        (exec stmt t).2.printed = lines ++ t.printed) ∧
      (exec stmt s).2.Mirrors id stmt.names (exec stmt t).2 := by
  have hrun := mirrors_exec (Set.injOn_id _) (List.Subset.refl stmt.names) h
  rw [Stmt.rename_id] at hrun
  exact ⟨hrun.outcome.eq_of_id, hrun.printed, hrun.state⟩

theorem execute_cons_iff {stmt : Stmt} {rest : List Stmt} :
    execute (stmt :: rest) s = (.value (), u) ↔
      ∃ t, exec stmt s = (.value (), t) ∧ execute rest t = (.value (), u) := by
  change (exec stmt >>= fun _ => execute rest) s = _ ↔ _
  rcases hexec : exec stmt s with ⟨outcome, t⟩
  cases outcome with
  | value a =>
      rw [Run.bind_of_value hexec]
      constructor
      · exact fun hrest => ⟨t, rfl, hrest⟩
      · rintro ⟨t', ht, hrest⟩
        cases ht
        exact hrest
  | error e =>
      rw [Run.bind_of_error hexec]
      constructor
      · exact fun h => by cases h
      · rintro ⟨t', ht, -⟩
        cases ht
  | fault f =>
      rw [Run.bind_of_fault hexec]
      constructor
      · exact fun h => by cases h
      · rintro ⟨t', ht, -⟩
        cases ht

theorem execute_pair_iff {first second : Stmt} :
    execute [first, second] s = (.value (), u) ↔
      ∃ t, exec first s = (.value (), t) ∧ exec second t = (.value (), u) := by
  have hone (t : Interpreter) : execute [second] t = (.value (), u) ↔
      exec second t = (.value (), u) := by
    rw [execute_cons_iff]
    constructor
    · rintro ⟨t', ht, hnil⟩
      cases hnil
      exact ht
    · exact fun ht => ⟨u, ht, rfl⟩
  simp only [execute_cons_iff, hone]

/-! ## Two statements change places -/

section Exchange

variable {a b c d : Interpreter} {first second : Stmt}

/-- The states around two statements that run one after the other in both orders. The corners are
`s`, then `a` and `b` with `first` run before `second`, and `c` and `d` with `second` run before
`first`. -/
structure Exchange (first second : Stmt) (s a b c d : Interpreter) : Prop where
  current : s.chain.current < s.chain.forest.size
  disjoint : ∀ name ∈ first.names, name ∉ second.names
  first_before : exec first s = (.value (), a)
  second_after : exec second a = (.value (), b)
  second_before : exec second s = (.value (), c)
  first_after : exec first c = (.value (), d)
  /-- The statement does the same on its names, before the other one and after it. -/
  first_alike : a.Mirrors id first.names d
  second_alike : c.Mirrors id second.names b
  first_lines : ∃ lines, a.printed = lines ++ s.printed ∧ d.printed = lines ++ c.printed
  second_lines : ∃ lines, c.printed = lines ++ s.printed ∧ b.printed = lines ++ a.printed

/-- Statements without a common name run in the other order too. -/
theorem Exchange.exists (hcurrent : s.chain.current < s.chain.forest.size) (hidle : s.signal.Idle)
    (hdisjoint : ∀ name ∈ first.names, name ∉ second.names)
    (hfirst : exec first s = (.value (), a)) (hsecond : exec second a = (.value (), b)) :
    ∃ c d, Exchange first second s a b c d := by
  have hsa : s.Mirrors id second.names (exec first s).2 :=
    mirrors_exec_of_disjoint hcurrent hidle fun name hname hmem => hdisjoint name hmem hname
  rw [hfirst] at hsa
  obtain ⟨hsame, hlines, halike⟩ := exec_of_mirrors second hsa
  rcases hbefore : exec second s with ⟨outcome, c⟩
  rw [hsecond, hbefore] at hsame hlines halike
  have hsc : s.Mirrors id first.names (exec second s).2 :=
    mirrors_exec_of_disjoint hcurrent hidle hdisjoint
  rw [hbefore] at hsc
  obtain ⟨hsame', hlines', halike'⟩ := exec_of_mirrors first hsc
  rcases hafter : exec first c with ⟨outcome', d⟩
  rw [hfirst, hafter] at hsame' hlines' halike'
  cases hsame
  cases hsame'
  exact ⟨c, d, hcurrent, hdisjoint, hfirst, hsecond, hbefore, hafter, halike', halike, hlines',
    hlines⟩

namespace Exchange

theorem spares (h : Exchange first second s a b c d) : s.Spares b ∧ s.Spares d := by
  have hb := Spares.stepClosed.execute [first, second] s
  have hd := Spares.stepClosed.execute [second, first] s
  rw [execute_pair_iff.2 ⟨a, h.first_before, h.second_after⟩] at hb
  rw [execute_pair_iff.2 ⟨c, h.second_before, h.first_after⟩] at hd
  exact ⟨hb, hd⟩

theorem printed_eq (h : Exchange first second s a b c d)
    (hprints : first.prints = false ∨ second.prints = false) : d.printed = b.printed := by
  rcases hprints with hsilent | hsilent
  · obtain ⟨lines, hc, hb⟩ := h.second_lines
    have ha : a.printed = s.printed := by
      simpa only [h.first_before] using printed_exec_of_not_prints hsilent s
    calc d.printed = c.printed := by
          simpa only [h.first_after] using printed_exec_of_not_prints hsilent c
      _ = b.printed := by rw [hc, hb, ha]
  · obtain ⟨lines, ha, hd⟩ := h.first_lines
    have hc : c.printed = s.printed := by
      simpa only [h.second_before] using printed_exec_of_not_prints hsilent s
    calc d.printed = a.printed := by rw [ha, hd, hc]
      _ = b.printed := by
          simpa only [h.second_after] using (printed_exec_of_not_prints hsilent a).symm

/-- In an environment that can be seen, each name gets its value from the one statement that
mentions it, or from none. -/
theorem find?_eq (h : Exchange first second s a b c d) {i : Nat}
    (hi : i ∈ s.chain.forest.path s.chain.current) (name : String) :
    (d.chain.forest.scope i).find? name = (b.chain.forest.scope i).find? name := by
  have ha : s.Keeps a := by simpa only [h.first_before] using keeps_exec first s
  have hc : s.Keeps c := by simpa only [h.second_before] using keeps_exec second s
  have hsize : i < s.chain.forest.size :=
    Nat.lt_of_le_of_lt (Forest.le_of_mem_path h.current hi) h.current
  have hab (hname : name ∉ second.names) :
      (b.chain.forest.scope i).find? name = (a.chain.forest.scope i).find? name := by
    simpa only [h.second_after] using
      find?_exec_of_not_mem second a (ha.forest.lt_size hsize) hname
  have hcd (hname : name ∉ first.names) :
      (d.chain.forest.scope i).find? name = (c.chain.forest.scope i).find? name := by
    simpa only [h.first_after] using find?_exec_of_not_mem first c (hc.forest.lt_size hsize) hname
  by_cases hfirst : name ∈ first.names
  · rw [hab (h.disjoint name hfirst)]
    exact (Keeps.forall₂_stack_iff h.current ha h.spares.2.toKeeps).1 h.first_alike.stack i hi name
      hfirst
  · rw [hcd hfirst]
    by_cases hsecond : name ∈ second.names
    · exact ((Keeps.forall₂_stack_iff h.current hc h.spares.1.toKeeps).1 h.second_alike.stack i hi
        name hsecond).symm
    · have hsa : (a.chain.forest.scope i).find? name = (s.chain.forest.scope i).find? name := by
        simpa only [h.first_before] using find?_exec_of_not_mem first s hsize hfirst
      have hsc : (c.chain.forest.scope i).find? name = (s.chain.forest.scope i).find? name := by
        simpa only [h.second_before] using find?_exec_of_not_mem second s hsize hsecond
      rw [hab hsecond, hsa, hsc]

theorem scope_eq (h : Exchange first second s a b c d) {i : Nat} (hi : i < s.chain.forest.size) :
    d.chain.forest.scope i = b.chain.forest.scope i := by
  by_cases hseen : i ∈ s.chain.forest.path s.chain.current
  · exact Scope.ext_find? (h.find?_eq hseen)
  · rw [h.spares.2.unseen h.current i hi hseen, h.spares.1.unseen h.current i hi hseen]

end Exchange

end Exchange

/-- A statement looks at nothing and touches nothing beyond the names that it mentions. From two
interpreters that agree on these names, scope by scope, it prints the same, comes to the same end
and leads to interpreters that agree on them again; all other names keep their values in every
environment. So two statements without a common name can change places if at most one of them
prints. -/
theorem exec_footprint :
    (∀ (stmt : Stmt) (s t : Interpreter), s.Mirrors id stmt.names t →
      (exec stmt t).1 = (exec stmt s).1 ∧
        (∃ lines, (exec stmt s).2.printed = lines ++ s.printed ∧
          (exec stmt t).2.printed = lines ++ t.printed) ∧
        (exec stmt s).2.Mirrors id stmt.names (exec stmt t).2) ∧
    (∀ (stmt : Stmt) (s : Interpreter), ∀ i < s.chain.forest.size, ∀ name ∉ stmt.names,
      ((exec stmt s).2.chain.forest.scope i).find? name =
        (s.chain.forest.scope i).find? name) ∧
    ∀ (first second : Stmt) (s t : Interpreter), s.chain.current < s.chain.forest.size →
      s.signal.Idle → (∀ name ∈ first.names, name ∉ second.names) →
      (first.prints = false ∨ second.prints = false) →
      execute [first, second] s = (.value (), t) →
      ∃ u, execute [second, first] s = (.value (), u) ∧ u.printed = t.printed ∧
        u.stack = t.stack ∧
        ∀ i < s.chain.forest.size, u.chain.forest.scope i = t.chain.forest.scope i := by
  refine ⟨fun stmt s t h => exec_of_mirrors stmt h, ?_, ?_⟩
  · exact fun stmt s i hi name hname => find?_exec_of_not_mem stmt s hi hname
  · intro first second s t hcurrent hidle hdisjoint hprints hrun
    obtain ⟨a, hfirst, hsecond⟩ := execute_pair_iff.1 hrun
    obtain ⟨c, u, h⟩ := Exchange.exists hcurrent hidle hdisjoint hfirst hsecond
    refine ⟨u, execute_pair_iff.2 ⟨c, h.second_before, h.first_after⟩, h.printed_eq hprints, ?_,
      fun i hi => h.scope_eq hi⟩
    rw [h.spares.1.stack_eq hcurrent, h.spares.2.stack_eq hcurrent]
    exact List.map_congr_left fun i hi => Scope.ext_find? (h.find?_eq hi)

end

def assigning : Stmt :=
  .block (.ofKind .leftBrace 2)
    [.expression (.ofName "y" 2)
      (.assign (.ofName "y" 2) (.literal (.ofKind .string 2) (.text "c")))]

def twoGlobals : Interpreter :=
  (Interpreter.new.defineGlobal "x" (.text "a")).defineGlobal "y" (.text "b")

theorem execute_printing_assigning :
    (execute [printing, assigning] twoGlobals).1 = .value () ∧
      (execute [printing, assigning] twoGlobals).2.printed = ["a"] := by
  constructor <;> cbv

theorem execute_assigning_printing :
    ∃ u, execute [assigning, printing] twoGlobals = (.value (), u) ∧ u.printed = ["a"] ∧
      u.stack = (execute [printing, assigning] twoGlobals).2.stack ∧
      ∀ i < twoGlobals.chain.forest.size, u.chain.forest.scope i =
        (execute [printing, assigning] twoGlobals).2.chain.forest.scope i := by
  obtain ⟨hvalue, hlines⟩ := execute_printing_assigning
  obtain ⟨u, hrun, hprinted, hstack, hscope⟩ :=
    exec_footprint.2.2 printing assigning twoGlobals
      (execute [printing, assigning] twoGlobals).2 (by decide) .absent (by decide) (.inr rfl)
      (Prod.ext hvalue rfl)
  exact ⟨u, hrun, hprinted.trans hlines, hstack, hscope⟩

end Interpreter

end TreeScript
