import TreeScript.Proofs.Restoration
import TreeScript.Proofs.Trace

/-!
# What a run leaves alone

Blocks do not leak and expressions do not bind. A run gives names only to the current scope, and
only those that it declares outside of the blocks of its tree. It changes the value of a name in a
scope only by declaring the name there, or by assigning it while that scope is the nearest one that
binds it. All this is said of every environment that was there before the run, however the run
ends.
-/

namespace TreeScript

namespace Event

def Declares (name : String) (e : Event) : Prop :=
  ∃ token value, e.act = .declare token value ∧ token.lexeme = name

/-- The event assigns a name, and environment `i` is the nearest one that binds it. -/
def Assigns (i : Nat) (name : String) (e : Event) : Prop :=
  ∃ token value, e.act = .assign token value ∧ token.lexeme = name ∧
    e.state.chain.forest.resolve? e.state.chain.current name = some i

def sets? (i : Nat) (name : String) (e : Event) : Option Value :=
  match e.act with
  | .declare token value =>
    if e.state.chain.current = i ∧ token.lexeme = name then some value else none
  | .assign token value =>
    if e.state.chain.forest.resolve? e.state.chain.current token.lexeme = some i ∧
      token.lexeme = name then some value else none
  | _ => none

theorem cases_of_sets? {i : Nat} {name : String} {e : Event} (h : (e.sets? i name).isSome) :
    e.Declares name ∧ e.state.chain.current = i ∨ e.Assigns i name := by
  unfold sets? at h
  split at h
  next token value hact =>
    split at h
    next hcond => exact .inl ⟨⟨token, value, hact, hcond.2⟩, hcond.1⟩
    next => cases h
  next token value hact =>
    split at h
    next hcond =>
      obtain ⟨hresolve, rfl⟩ := hcond
      exact .inr ⟨token, value, hact, rfl, hresolve⟩
    next => cases h
  next => cases h

@[simp] theorem sets?_inBlock (i : Nat) (name : String) (e : Event) :
    e.inBlock.sets? i name = e.sets? i name := rfl

end Event

def valueAfter (i : Nat) (name : String) (events : List Event) (old : Option Value) :
    Option Value :=
  events.foldl (fun value e => (e.sets? i name).or value) old

theorem valueAfter_append (i : Nat) (name : String) (events later : List Event)
    (old : Option Value) :
    valueAfter i name (events ++ later) old =
      valueAfter i name later (valueAfter i name events old) :=
  List.foldl_append

theorem valueAfter_inBlock (i : Nat) (name : String) (events : List Event) (old : Option Value) :
    valueAfter i name (events.map Event.inBlock) old = valueAfter i name events old :=
  List.foldl_map

theorem exists_sets?_of_valueAfter_ne {i : Nat} {name : String} {events : List Event}
    {old : Option Value} (h : valueAfter i name events old ≠ old) :
    ∃ e ∈ events, (e.sets? i name).isSome := by
  induction events generalizing old with
  | nil => exact absurd rfl h
  | cons e rest ih =>
      cases hsets : e.sets? i name with
      | some value => exact ⟨e, List.mem_cons_self, by rw [hsets]; rfl⟩
      | none =>
          have hrest : valueAfter i name rest old ≠ old := by
            simpa [valueAfter, hsets] using h
          obtain ⟨e', hmem, hsome⟩ := ih hrest
          exact ⟨e', List.mem_cons_of_mem e hmem, hsome⟩

namespace Interpreter

/-- What events do to the environments that were there before them. -/
structure Changes (s : Interpreter) (events : List Event) (t : Interpreter) : Prop where
  keeps : s.Keeps t
  /-- Outside of blocks the current environment stays, and inside it is a new one. -/
  outside : ∀ e ∈ events, e.blocks = 0 → e.state.chain.current = s.chain.current
  inside : ∀ e ∈ events, e.blocks ≠ 0 → s.chain.forest.size ≤ e.state.chain.current
  bound : ∀ i < s.chain.forest.size, ∀ name, ((t.chain.forest.scope i).find? name).isSome ↔
    ((s.chain.forest.scope i).find? name).isSome ∨
      ∃ e ∈ events, e.Declares name ∧ e.state.chain.current = i
  value : ∀ i < s.chain.forest.size, ∀ name, (t.chain.forest.scope i).find? name =
    valueAfter i name events ((s.chain.forest.scope i).find? name)

namespace Changes

variable {s t u : Interpreter} {events later : List Event}

theorem none (hkeeps : s.Keeps t) (hforest : t.chain.forest = s.chain.forest) :
    s.Changes [] t := by
  refine ⟨hkeeps, by simp, by simp, ?_, ?_⟩
  · intro i _ name
    simp [hforest]
  · intro i _ name
    rw [hforest]
    rfl

theorem trans (hst : s.Changes events t) (htu : t.Changes later u) :
    s.Changes (events ++ later) u := by
  have hle : s.chain.forest.size ≤ t.chain.forest.size := hst.keeps.forest.size_le
  have hsize {i : Nat} (hi : i < s.chain.forest.size) : i < t.chain.forest.size :=
    Nat.lt_of_lt_of_le hi hle
  refine ⟨Keeps.stepClosed.trans hst.keeps htu.keeps, ?_, ?_, ?_, ?_⟩
  · intro e he hblocks
    rcases List.mem_append.1 he with he | he
    · exact hst.outside e he hblocks
    · exact (htu.outside e he hblocks).trans hst.keeps.current
  · intro e he hblocks
    rcases List.mem_append.1 he with he | he
    · exact hst.inside e he hblocks
    · exact Nat.le_trans hle (htu.inside e he hblocks)
  · intro i hi name
    rw [htu.bound i (hsize hi) name, hst.bound i hi name, or_assoc]
    simp only [List.mem_append, or_and_right, exists_or]
  · intro i hi name
    rw [htu.value i (hsize hi) name, hst.value i hi name, valueAfter_append]

theorem one {act : Act} {j : Nat} {name : String} {value : Value}
    (hkeeps : s.Keeps t) (hforest : t.chain.forest = s.chain.forest.define j name value)
    (hsets : ∀ i other, Event.sets? i other ⟨act, s, 0⟩ =
      if j = i ∧ name = other then some value else Option.none)
    (hbound : ((s.chain.forest.scope j).find? name).isSome ∨
      Event.Declares name ⟨act, s, 0⟩ ∧ s.chain.current = j)
    (hdeclares : ∀ other, Event.Declares other ⟨act, s, 0⟩ → name = other ∧ s.chain.current = j) :
    s.Changes [⟨act, s, 0⟩] t := by
  have hfind (i : Nat) (hi : i < s.chain.forest.size) (other : String) :
      (t.chain.forest.scope i).find? other =
        if j = i ∧ name = other then some value else (s.chain.forest.scope i).find? other := by
    rw [hforest, Forest.find?_scope_define hi]
  refine ⟨hkeeps, by simp, by simp, ?_, ?_⟩
  · intro i hi other
    rw [hfind i hi other]
    simp only [List.mem_singleton, exists_eq_left]
    split
    next h =>
      obtain ⟨rfl, rfl⟩ := h
      simpa using hbound
    next h =>
      refine ⟨.inl, fun hor => hor.elim id fun hdeclared => ?_⟩
      obtain ⟨hname, hcurrent⟩ := hdeclares other hdeclared.1
      exact absurd ⟨hcurrent.symm.trans hdeclared.2, hname⟩ h
  · intro i hi other
    rw [hfind i hi other]
    simp only [valueAfter, List.foldl_cons, List.foldl_nil, hsets]
    split <;> rfl

theorem unbinding {act : Act} (hkeeps : s.Keeps t) (hforest : t.chain.forest = s.chain.forest)
    (hact : ∀ i other, Event.sets? i other ⟨act, s, 0⟩ = Option.none)
    (hdeclares : ∀ other, ¬ Event.Declares other ⟨act, s, 0⟩) : s.Changes [⟨act, s, 0⟩] t := by
  refine ⟨hkeeps, by simp, by simp, ?_, ?_⟩
  · intro i _ other
    simp [hforest, hdeclares]
  · intro i _ other
    rw [hforest]
    simp [valueAfter, hact]

theorem inBlock {s t : Interpreter} {events : List Event}
    (h : Changes { s with chain := s.chain.enter } events t) :
    s.Changes (events.map Event.inBlock)
      { t with chain := t.chain.leave s.chain.current } := by
  have henter : ∀ i < s.chain.forest.size, i < s.chain.enter.forest.size := by
    intro i hi
    have hsize : s.chain.enter.forest.size = s.chain.forest.size + 1 := Forest.size_enclose _ _
    omega
  have hscope : ∀ i < s.chain.forest.size,
      s.chain.enter.forest.scope i = s.chain.forest.scope i :=
    fun i hi => Forest.scope_enclose hi s.chain.current
  refine ⟨Keeps.stepClosed.inScope h.keeps, ?_, ?_, ?_, ?_⟩
  · intro e he hblocks
    obtain ⟨e', -, rfl⟩ := List.mem_map.1 he
    cases hblocks
  · intro e he _
    obtain ⟨e', he', rfl⟩ := List.mem_map.1 he
    change s.chain.forest.size ≤ e'.state.chain.current
    by_cases hblocks : e'.blocks = 0
    · exact Nat.le_of_eq (h.outside e' he' hblocks).symm
    · exact Nat.le_trans (Forest.extends_enclose _ _).size_le (h.inside e' he' hblocks)
  · intro i hi name
    rw [← hscope i hi]
    refine (h.bound i (henter i hi) name).trans (or_congr Iff.rfl ⟨?_, ?_⟩)
    · rintro ⟨e, he, hdeclares, hcurrent⟩
      exact ⟨e.inBlock, List.mem_map_of_mem he, hdeclares, hcurrent⟩
    · rintro ⟨e, he, hdeclares, hcurrent⟩
      obtain ⟨e', he', rfl⟩ := List.mem_map.1 he
      exact ⟨e', he', hdeclares, hcurrent⟩
  · intro i hi name
    rw [valueAfter_inBlock, ← hscope i hi]
    exact h.value i (henter i hi) name

theorem traceClosed : TraceClosed Changes where
  refl s := .none (Keeps.stepClosed.refl s) rfl
  trans hst htu := hst.trans htu
  nested h := ⟨Keeps.stepClosed.nested h.keeps, h.outside, h.inside, h.bound, h.value⟩
  inScope h := h.inBlock
  look s := .none (Keeps.stepClosed.look s) rfl
  start s stmt := by
    refine .unbinding (Keeps.stepClosed.refl s) rfl (fun _ _ => rfl) ?_
    rintro other ⟨_, _, hact, -⟩
    cases hact
  write {s name value chain} h := by
    have hkeeps := Keeps.stepClosed.write h
    obtain ⟨forest, hassign, rfl⟩ := Chain.assign_eq h
    obtain ⟨j, hj, rfl⟩ := Forest.assign_eq_define hassign
    refine .one hkeeps rfl ?_ (.inl (Forest.isSome_find?_of_resolve? hj)) ?_
    · intro i other
      simp [Event.sets?, hj]
    · rintro other ⟨_, _, hact, -⟩
      cases hact
  declare s name value := by
    refine .one (Keeps.stepClosed.declare s name.lexeme value) rfl (fun _ _ => rfl) ?_ ?_
    · exact .inr ⟨⟨name, value, rfl, rfl⟩, rfl⟩
    · rintro other ⟨_, _, hact, hname⟩
      cases hact
      exact ⟨hname, rfl⟩
  printLine s line := by
    refine .unbinding (Keeps.stepClosed.printLine s line) rfl (fun _ _ => rfl) ?_
    rintro other ⟨_, _, hact, -⟩
    cases hact

end Changes

/-! ## Runs -/

/-- What a run from `s` to `t` with the given events does to the environments that were there before
it. A declaration counts for the current scope if no block of the tree is around it. -/
structure Framed (s : Interpreter) (events : List Event) (t : Interpreter) : Prop where
  current : t.chain.current = s.chain.current
  outer : ∀ i < s.chain.forest.size, t.chain.forest.outer? i = s.chain.forest.outer? i
  path : ∀ i < s.chain.forest.size, t.chain.forest.path i = s.chain.forest.path i
  /-- The current scope gets the declared names, and no other scope gets or loses one. -/
  names : ∀ i < s.chain.forest.size, ∀ name, name ∈ t.chain.forest.names i ↔
    name ∈ s.chain.forest.names i ∨
      i = s.chain.current ∧ ∃ e ∈ events, e.blocks = 0 ∧ e.Declares name
  /-- A value has changed only through a declaration in the current scope, or through an assignment
  for which the scope was the nearest one that binds the name. -/
  changed : ∀ i < s.chain.forest.size, ∀ name,
    (t.chain.forest.scope i).find? name ≠ (s.chain.forest.scope i).find? name →
      (i = s.chain.current ∧ ∃ e ∈ events, e.blocks = 0 ∧ e.Declares name) ∨
        ∃ e ∈ events, e.Assigns i name
  /-- The value is that of the last such event. -/
  value : ∀ i < s.chain.forest.size, ∀ name, (t.chain.forest.scope i).find? name =
    valueAfter i name events ((s.chain.forest.scope i).find? name)

namespace Changes

variable {s t : Interpreter} {events : List Event}

theorem declared_iff (h : s.Changes events t) {i : Nat} (hi : i < s.chain.forest.size)
    (name : String) :
    (∃ e ∈ events, e.Declares name ∧ e.state.chain.current = i) ↔
      i = s.chain.current ∧ ∃ e ∈ events, e.blocks = 0 ∧ e.Declares name := by
  constructor
  · rintro ⟨e, he, hdeclares, hcurrent⟩
    by_cases hblocks : e.blocks = 0
    · exact ⟨hcurrent.symm.trans (h.outside e he hblocks), e, he, hblocks, hdeclares⟩
    · have hnew := h.inside e he hblocks
      omega
  · rintro ⟨rfl, e, he, hblocks, hdeclares⟩
    exact ⟨e, he, hdeclares, h.outside e he hblocks⟩

theorem framed (h : s.Changes events t) : s.Framed events t where
  current := h.keeps.current
  outer _ hi := h.keeps.forest.outer?_eq hi
  path _ hi := Forest.path_extends h.keeps.forest hi
  names i hi name := by
    rw [Forest.mem_names, Forest.mem_names, h.bound i hi name, h.declared_iff hi]
  changed i hi name hne := by
    rw [h.value i hi name] at hne
    obtain ⟨e, he, hsets⟩ := exists_sets?_of_valueAfter_ne hne
    rcases Event.cases_of_sets? hsets with ⟨hdeclares, hcurrent⟩ | hassigns
    · exact .inl ((h.declared_iff hi name).1 ⟨e, he, hdeclares, hcurrent⟩)
    · exact .inr ⟨e, he, hassigns⟩
  value := h.value

end Changes

/-- However a run ends, it gives names only to the current scope, and only those that are declared
outside of the blocks of its tree; it changes values only by these declarations and by assignments.
An expression gives no names to any scope and writes nothing. -/
theorem framed_exec_eval [Machine] (s : Interpreter) :
    (∀ stmt : Stmt, s.Framed (stmt.trace s) (exec stmt s).2) ∧
    ∀ e : Expr, s.Framed (e.trace s) (eval e s).2 ∧
      (∀ i < s.chain.forest.size, ∀ name,
        name ∈ (eval e s).2.chain.forest.names i ↔ name ∈ s.chain.forest.names i) ∧
      (eval e s).2.printed = s.printed ∧ (eval e s).2.reported = s.reported := by
  refine ⟨fun stmt => (Changes.traceClosed.exec stmt s).framed, fun e => ?_⟩
  have hframed := (Changes.traceClosed.eval e s).framed
  have hwrites := Writes.traceClosed.eval e s
  refine ⟨hframed, ?_, ?_, hwrites.reported⟩
  · intro i hi name
    rw [hframed.names i hi name, or_iff_left]
    rintro ⟨-, event, hevent, -, token, value, hdeclare, -⟩
    obtain ⟨_, _, hassign⟩ := e.onlyAssigns_trace s event hevent
    rw [hdeclare] at hassign
    cases hassign
  · have hprinted := hwrites.printed
    rwa [e.onlyAssigns_trace.linesOf_eq s] at hprinted

end Interpreter

end TreeScript
