import TreeScript.Proofs.Adequacy
import TreeScript.Proofs.Comparison

/-!
# Runs that see related scopes

Of its environments a run sees the scopes from the current one outwards, and it sees them as a
stack. A `View` says how what two runs see is related; `View.Lawful` lists what has to be shown of
the stacks alone. Then the runs print the same lines, and end in the way that the view says.
-/

namespace Option.Rel

variable {α β γ δ : Type} {rel : α → β → Prop} {x : Option α} {y : Option β}

theorem refl {rel : α → α → Prop} (hrel : ∀ a, rel a a) {x : Option α} : Option.Rel rel x x := by
  cases x with
  | none => exact .none
  | some a => exact .some (hrel a)

theorem isSome_eq (h : Option.Rel rel x y) : y.isSome = x.isSome := by
  cases h <;> rfl

theorem orElse {x' : Option α} {y' : Option β} (h : Option.Rel rel x y)
    (h' : Option.Rel rel x' y') : Option.Rel rel (x.orElse fun _ => x') (y.orElse fun _ => y') := by
  cases h with
  | some hab => exact .some hab
  | none => exact h'

theorem map {rel' : γ → δ → Prop} {f : α → γ} {g : β → δ} (h : Option.Rel rel x y)
    (hmap : ∀ a b, rel a b → rel' (f a) (g b)) : Option.Rel rel' (x.map f) (y.map g) := by
  cases h with
  | some hab => exact .some (hmap _ _ hab)
  | none => exact .none

end Option.Rel

namespace TreeScript

open BigStep (Stack)

structure View where
  Place : Type := Unit
  /-- The place in a new scope. -/
  scope : Place → Place := id
  stack : Place → Stack → Stack → Prop
  signal : Signal → Signal → Prop := Eq
  value : Value → Value → Prop := Eq
  error : RuntimeError → RuntimeError → Prop := Eq
  name : Token → Token → Prop := Eq
  /-- Names may be declared at the place. -/
  declares : Place → Prop := fun _ => True

structure Signal.Congruence (rel : Signal → Signal → Prop) : Prop where
  cause : ∀ {a b}, rel a b → b.cause? = a.cause?
  looked : ∀ {a b}, rel a b → rel a.looked b.looked
  written : ∀ {a b}, rel a b → rel a.written b.written

theorem Signal.congruence_eq : Signal.Congruence Eq where
  cause h := by rw [h]
  looked h := by rw [h]
  written h := by rw [h]

namespace View

/-- The two interpreters see what the view says, and have printed the same lines after `printed` and
`printed'`. The level does not matter without a nesting limit. -/
structure State (V : View) (printed printed' : List String) (place : V.Place) (s t : Interpreter) :
    Prop where
  current : s.chain.current < s.chain.forest.size
  current' : t.chain.current < t.chain.forest.size
  stack : V.stack place s.stack t.stack
  level : s.maxDepth ≤ 0 ∨ t.level = s.level
  maxDepth : t.maxDepth = s.maxDepth
  signal : V.signal s.signal t.signal
  printed : ∃ lines, s.printed = lines ++ printed ∧ t.printed = lines ++ printed'

def comparison (V : View) (printed printed' : List String) : Comparison where
  Place := V.Place
  scope := V.scope
  state := V.State printed printed'
  value := V.value
  error := V.error
  name := V.name
  declares := V.declares

/-- What has to be shown of a view. -/
structure Lawful [Machine] (V : View) : Prop where
  values : Value.Congruence V.value
  signals : Signal.Congruence V.signal
  error : ∀ {token token' kind message}, token' = token ∨ V.name token token' →
    kind ≠ .undefinedVariable → V.error ⟨kind, token, message⟩ ⟨kind, token', message⟩
  undefined : ∀ {name name'}, V.name name name' → V.error (.undefined name) (.undefined name')
  find? : ∀ {place σ τ name name'}, V.stack place σ τ → V.name name name' →
    Option.Rel V.value (σ.find? name.lexeme) (τ.find? name'.lexeme)
  assign? : ∀ {place σ τ name name' v w}, V.stack place σ τ → V.name name name' → V.value v w →
    Option.Rel (V.stack place) (σ.assign? name.lexeme v) (τ.assign? name'.lexeme w)
  define : ∀ {place a b name name' v w} {σ τ : Stack}, V.stack place (a :: σ) (b :: τ) →
    V.declares place → V.name name name' → V.value v w →
    V.stack place (a.define name.lexeme v :: σ) (b.define name'.lexeme w :: τ)
  enter : ∀ {place σ τ}, V.stack place σ τ →
    V.stack (V.scope place) (.empty :: σ) (.empty :: τ)
  leave : ∀ {place a b} {σ τ : Stack}, V.stack (V.scope place) (a :: σ) (b :: τ) →
    V.stack place σ τ
  declares_scope : ∀ place, V.declares (V.scope place)

variable {V : View} {printed printed' : List String} {place : V.Place} {s t : Interpreter}

namespace State

theorem descend (h : V.State printed printed' place s t) :
    V.State printed printed' place s.descend t.descend :=
  { h with level := h.level.imp id (congrArg (· + 1)) }

theorem ascend (h : V.State printed printed' place s t) :
    V.State printed printed' place s.ascend t.ascend :=
  { h with level := h.level.imp id (congrArg (· - 1)) }

theorem tooDeep_eq (h : V.State printed printed' place s t) : t.tooDeep = s.tooDeep := by
  unfold Interpreter.tooDeep
  rw [h.maxDepth]
  rcases h.level with hfree | hlevel
  · have hnot : ¬ 0 < s.maxDepth := by omega
    simp [hnot]
  · rw [hlevel]

end State

namespace Lawful

variable [Machine] (h : V.Lawful)

include h

theorem lookup (hst : V.State printed printed' place s t) {name name' : Token}
    (hname : V.name name name') :
    (∃ v w, s.chain.read name = .ok v ∧ t.chain.read name' = .ok w ∧ V.value v w) ∨
      s.chain.read name = .error (.undefined name) ∧
        t.chain.read name' = .error (.undefined name') := by
  have hfind := h.find? hst.stack hname
  obtain ⟨v, hs, hv⟩ | ⟨hs, hv⟩ := Forest.read_cases hst.current name <;>
    obtain ⟨w, ht, hw⟩ | ⟨ht, hw⟩ := Forest.read_cases hst.current' name' <;>
    rw [Interpreter.stack, Interpreter.stack, hv, hw] at hfind
  · cases hfind with | some hvw =>
    exact .inl ⟨v, w, hs, ht, hvw⟩
  · cases hfind
  · cases hfind
  · exact .inr ⟨hs, ht⟩

theorem assign (hst : V.State printed printed' place s t) {name name' : Token} {v w : Value}
    (hname : V.name name name') (hvw : V.value v w) :
    (∃ chain chain', s.chain.assign name v = .ok chain ∧ t.chain.assign name' w = .ok chain' ∧
        V.State printed printed' place { s with chain } { t with chain := chain' }) ∨
      s.chain.assign name v = .error (.undefined name) ∧
        t.chain.assign name' w = .error (.undefined name') := by
  have hassign := h.assign? hst.stack hname hvw
  rw [Chain.assign, Chain.assign]
  obtain ⟨f, hs, hf⟩ | ⟨hs, hf⟩ := Forest.assign_cases hst.current name v <;>
    obtain ⟨g, ht, hg⟩ | ⟨ht, hg⟩ := Forest.assign_cases hst.current' name' w <;>
    rw [Interpreter.stack, Interpreter.stack, hf, hg] at hassign <;> rw [hs, ht]
  · cases hassign with | some hafter =>
    refine .inl ⟨_, _, rfl, rfl, { hst with current := ?_, current' := ?_, stack := hafter }⟩
    · exact (Forest.extends_assign hs).lt_size hst.current
    · exact (Forest.extends_assign ht).lt_size hst.current'
  · cases hassign
  · cases hassign
  · exact .inr ⟨rfl, rfl⟩

theorem state_define (hst : V.State printed printed' place s t) (hdeclares : V.declares place)
    {name name' : Token} {v w : Value} (hname : V.name name name') (hvw : V.value v w) :
    V.State printed printed' place { s with chain := s.chain.define name.lexeme v }
      { t with chain := t.chain.define name'.lexeme w } := by
  obtain ⟨a, σ, hs⟩ := Interpreter.exists_stack_eq_cons hst.current
  obtain ⟨b, τ, ht⟩ := Interpreter.exists_stack_eq_cons hst.current'
  have hstack := hst.stack
  rw [hs, ht] at hstack
  refine { hst with current := ?_, current' := ?_, stack := ?_ }
  · exact (Forest.extends_define _ _ _ _).lt_size hst.current
  · exact (Forest.extends_define _ _ _ _).lt_size hst.current'
  · have hs' : Interpreter.stack { s with chain := s.chain.define name.lexeme v } =
        a.define name.lexeme v :: σ := Forest.scopes_define hst.current hs _ _
    have ht' : Interpreter.stack { t with chain := t.chain.define name'.lexeme w } =
        b.define name'.lexeme w :: τ := Forest.scopes_define hst.current' ht _ _
    rw [hs', ht']
    exact h.define hstack hdeclares hname hvw

theorem state_enter (hst : V.State printed printed' place s t) :
    V.State printed printed' (V.scope place) { s with chain := s.chain.enter }
      { t with chain := t.chain.enter } := by
  refine { hst with current := ?_, current' := ?_, stack := ?_ }
  · exact Nat.lt_of_lt_of_eq (Nat.lt_succ_self _) (Forest.size_enclose _ _).symm
  · exact Nat.lt_of_lt_of_eq (Nat.lt_succ_self _) (Forest.size_enclose _ _).symm
  · rw [Interpreter.stack_enter hst.current, Interpreter.stack_enter hst.current']
    exact h.enter hst.stack

theorem state_leave {s' t' : Interpreter} (hst : V.State printed printed' place s t)
    (hafter : V.State printed printed' (V.scope place) s' t')
    (hs : Interpreter.Keeps { s with chain := s.chain.enter } s')
    (ht : Interpreter.Keeps { t with chain := t.chain.enter } t') :
    V.State printed printed' place { s' with chain := s'.chain.leave s.chain.current }
      { t' with chain := t'.chain.leave t.chain.current } := by
  obtain ⟨inner, hinner⟩ := Interpreter.exists_stack_eq_leave hst.current hs
  obtain ⟨inner', hinner'⟩ := Interpreter.exists_stack_eq_leave hst.current' ht
  have hstack := hafter.stack
  rw [hinner, hinner'] at hstack
  refine { hafter with current := ?_, current' := ?_, stack := h.leave hstack }
  · exact (Interpreter.Keeps.stepClosed.inScope hs).forest.lt_size hst.current
  · exact (Interpreter.Keeps.stepClosed.inScope ht).forest.lt_size hst.current'

theorem onStatements (printed printed' : List String) :
    (V.comparison printed printed').OnStatements where
  descend hst := hst.descend
  ascend hst := hst.ascend
  tooDeep hst hdeep := .inr ⟨hst.descend.tooDeep_eq.trans hdeep, hst.maxDepth⟩
  opens hst hopen := hst.descend.tooDeep_eq.trans hopen
  ungroup := False.elim
  congruence := h.values
  error := h.error
  undefined := h.undefined
  lookup hst hname := h.lookup hst hname
  assign hst hname hvw := h.assign hst hname hvw
  cause hst := h.signals.cause hst.signal
  look hst := { hst with signal := h.signals.looked hst.signal }
  enter := h.state_enter
  leave := h.state_leave
  define hst hdeclares hname hvw := h.state_define hst hdeclares hname hvw
  print {_ s t} hst line := by
    obtain ⟨lines, hs, ht⟩ := hst.printed
    refine { hst with signal := h.signals.written hst.signal, printed := ⟨line :: lines, ?_, ?_⟩ }
    · rw [hs, List.cons_append]
    · rw [ht, List.cons_append]
  declares_node := id
  declares_scope := h.declares_scope

end Lawful

end View

def View.same : View where
  stack _ σ τ := τ = σ

theorem View.lawful_same [Machine] : same.Lawful where
  values := Value.congruence_eq
  signals := Signal.congruence_eq
  error := by
    rintro token token' kind message (rfl | rfl) _
    · rfl
    · rfl
  undefined := by
    rintro name _ rfl
    rfl
  find? := by
    rintro _ σ _ name _ rfl rfl
    exact .refl fun _ => rfl
  assign? := by
    rintro _ σ _ name _ v _ rfl rfl rfl
    cases Stack.assign? name.lexeme v _ with
    | none => exact .none
    | some τ => exact .some rfl
  define := by
    rintro _ a b name _ v _ σ τ hstack - rfl rfl
    obtain ⟨rfl, rfl⟩ := List.cons.inj hstack
    rfl
  enter := by
    rintro _ σ _ rfl
    rfl
  leave hstack := (List.cons.inj hstack).2
  declares_scope _ := trivial

/-! ## Scope by scope -/

structure Scope.Congruence (rel : Scope → Scope → Prop) (name : Token → Token → Prop)
    (value : Value → Value → Prop) : Prop where
  empty : rel .empty .empty
  find? : ∀ {a b n n'}, rel a b → name n n' →
    Option.Rel value (a.find? n.lexeme) (b.find? n'.lexeme)
  define : ∀ {a b n n' v w}, rel a b → name n n' → value v w →
    rel (a.define n.lexeme v) (b.define n'.lexeme w)

namespace Scope.Congruence

variable {rel : Scope → Scope → Prop} {name : Token → Token → Prop} {value : Value → Value → Prop}
  (h : Scope.Congruence rel name value) {σ τ : Stack} {n n' : Token}

include h

theorem find?_stack (hstack : List.Forall₂ rel σ τ) (hname : name n n') :
    Option.Rel value (σ.find? n.lexeme) (τ.find? n'.lexeme) := by
  induction hstack with
  | nil => exact .none
  | cons hscope _ ih => exact (h.find? hscope hname).orElse ih

theorem assign?_stack (hstack : List.Forall₂ rel σ τ) (hname : name n n') {v w : Value}
    (hvw : value v w) :
    Option.Rel (List.Forall₂ rel) (σ.assign? n.lexeme v) (τ.assign? n'.lexeme w) := by
  induction hstack with
  | nil => exact .none
  | @cons a b σ τ hscope hrest ih =>
      rw [Stack.assign?, Stack.assign?, (h.find? hscope hname).isSome_eq]
      split
      · exact .some (.cons (h.define hscope hname hvw) hrest)
      · exact ih.map fun _ _ => .cons hscope

end Scope.Congruence

namespace View

/-- Two runs see as many scopes, related one by one. -/
def scopewise (rel : Scope → Scope → Prop) (signal : Signal → Signal → Prop)
    (value : Value → Value → Prop) (error : RuntimeError → RuntimeError → Prop)
    (name : Token → Token → Prop) : View where
  stack _ := List.Forall₂ rel
  signal := signal
  value := value
  error := error
  name := name

theorem lawful_scopewise [Machine] {rel : Scope → Scope → Prop} {signal : Signal → Signal → Prop}
    {value : Value → Value → Prop} {error : RuntimeError → RuntimeError → Prop}
    {name : Token → Token → Prop} (hscopes : Scope.Congruence rel name value)
    (hsignals : Signal.Congruence signal) (hvalues : Value.Congruence value)
    (herror : ∀ {token token' kind message}, token' = token ∨ name token token' →
      kind ≠ .undefinedVariable → error ⟨kind, token, message⟩ ⟨kind, token', message⟩)
    (hundefined : ∀ {n n'}, name n n' → error (.undefined n) (.undefined n')) :
    (scopewise rel signal value error name).Lawful where
  values := hvalues
  signals := hsignals
  error := herror
  undefined := hundefined
  find? := hscopes.find?_stack
  assign? hstack hname hvw := hscopes.assign?_stack hstack hname hvw
  define hstack _ hname hvw :=
    .cons (hscopes.define (List.forall₂_cons.1 hstack).1 hname hvw) (List.forall₂_cons.1 hstack).2
  enter := .cons hscopes.empty
  leave hstack := (List.forall₂_cons.1 hstack).2
  declares_scope _ := trivial

end View

end TreeScript
