import TreeScript.Program.Decode

/-!
# Documents layer by layer

A place is a node with the role that it has in a program. `places` checks one layer of a document at
a place and gives the places below it. Decoding succeeds at a place if its layer is fine and it
succeeds at all places below, and otherwise fails with the first error in this order (`check_eq`),
so that facts about errors can be shown for all roles at once, by induction over the layers.
-/

namespace TreeScript.Program

open Yaml (Node)

/-- What a node of a program document is read as. -/
inductive Role where
  | expr
  | stmt
  | stmts

abbrev Place : Type := Role × Node

/-! ## Layers -/

def ExprLayer.places (l : ExprLayer) : List Place := l.children.map (Role.expr, ·)

def StmtLayer.places : StmtLayer → List Place
  | .expression expr => [(.expr, expr)]
  | .print _ expr => [(.expr, expr)]
  | .var _ init => init.toList.map (Role.expr, ·)
  | .ite _ condition yes no =>
    (.expr, condition) :: (.stmt, yes) :: no.toList.map (Role.stmt, ·)
  | .block _ body => [(.stmts, body)]

def places : Place → Except DecodeError (List Place)
  | (.expr, n) => (exprLayer n).map ExprLayer.places
  | (.stmt, n) => (stmtLayer n).map StmtLayer.places
  | (.stmts, n) =>
    match n.deref with
    | .sequence _ items => .ok (items.map (Role.stmt, ·))
    | other => refuse other .notStatements

theorem map_snd_role (role : Role) (nodes : List Node) :
    (nodes.map (role, ·)).map Prod.snd = nodes := by
  rw [List.map_map]
  exact List.map_id nodes

theorem map_snd_exprPlaces (l : ExprLayer) : l.places.map Prod.snd = l.children :=
  map_snd_role .expr l.children

theorem map_snd_stmtPlaces (l : StmtLayer) : l.places.map Prod.snd = l.children := by
  cases l with
  | expression _ | print _ _ | block _ _ => rfl
  | var name init => exact map_snd_role .expr init.toList
  | ite token condition yes no =>
      simp only [StmtLayer.places, StmtLayer.children, List.map_cons, map_snd_role]

theorem map_eq_ok {ε α β : Type} {x : Except ε α} {f : α → β} {b : β} (h : x.map f = .ok b) :
    ∃ a, x = .ok a ∧ f a = b := by
  cases x with
  | ok a => exact ⟨a, rfl, Except.ok.inj h⟩
  | error e => cases h

theorem sizeOf_places {p : Place} {below : List Place} (h : places p = .ok below) :
    ∀ c ∈ below, sizeOf c.2 < sizeOf p.2 := by
  intro c hc
  have hsnd : c.2 ∈ below.map Prod.snd := List.mem_map_of_mem hc
  obtain ⟨role, n⟩ := p
  cases role with
  | expr =>
      obtain ⟨l, hlayer, rfl⟩ := map_eq_ok h
      rw [map_snd_exprPlaces] at hsnd
      exact sizeOf_exprLayer hlayer hsnd
  | stmt =>
      obtain ⟨l, hlayer, rfl⟩ := map_eq_ok h
      rw [map_snd_stmtPlaces] at hsnd
      exact sizeOf_stmtLayer hlayer hsnd
  | stmts =>
      have hderef := sizeOf_deref_le n
      rw [places] at h
      split at h
      next label items heq =>
        cases h
        rw [map_snd_role] at hsnd
        have hitem := List.sizeOf_lt_of_mem hsnd
        rw [heq] at hderef
        simp only [Node.sequence.sizeOf_spec] at hderef
        change sizeOf c.2 < sizeOf n
        omega
      next => cases h

/-- What holds at a place once it holds at the places below holds everywhere. -/
theorem Place.induction {P : Place → Prop}
    (step : ∀ p, (∀ below, places p = .ok below → ∀ c ∈ below, P c) → P p) (p : Place) : P p :=
  step p fun _ hbelow c hc =>
    have := sizeOf_places hbelow c hc
    Place.induction step c
termination_by sizeOf p.2

/-! ## Decoding -/

/-- Whether decoding succeeds at a place, and otherwise its error. -/
def check : Place → Except DecodeError Unit
  | (.expr, n) => (decodeExpr n).map fun _ => ()
  | (.stmt, n) => (decodeStmt n).map fun _ => ()
  | (.stmts, n) => (decodeStmts n).map fun _ => ()

theorem forget_bind {ε α β : Type} {x : Except ε α} {next : α → Except ε β} {rest : Except ε Unit}
    (h : ∀ a, (next a).map (fun _ => ()) = rest) :
    (x >>= next).map (fun _ => ()) = (do x.map (fun _ => ()); rest) := by
  cases x with
  | error e => rfl
  | ok a => exact h a

theorem check_expr (n : Node) :
    check (.expr, n) = (do forM (← places (.expr, n)) check) := by
  cases hlayer : exprLayer n with
  | error e =>
      rw [check, decodeExpr, places, hlayer]
      rfl
  | ok l =>
      rw [check, decodeExpr, places, hlayer]
      cases l with
      | literal token value | «variable» name => rfl
      | grouping token inner | unary op inner | assign name inner =>
          change _ = (do check (.expr, inner); return ())
          exact forget_bind fun _ => rfl
      | binary left op right | logical left op right =>
          change _ = (do check (.expr, left); check (.expr, right); return ())
          exact forget_bind fun _ => forget_bind fun _ => rfl

theorem check_stmt (n : Node) :
    check (.stmt, n) = (do forM (← places (.stmt, n)) check) := by
  cases hlayer : stmtLayer n with
  | error e =>
      rw [check, decodeStmt, places, hlayer]
      rfl
  | ok l =>
      rw [check, decodeStmt, places, hlayer]
      cases l with
      | expression expr | print token expr =>
          change _ = (do check (.expr, expr); return ())
          exact forget_bind fun _ => rfl
      | var name init =>
          cases init with
          | none => rfl
          | some init =>
              change _ = (do check (.expr, init); return ())
              exact forget_bind fun _ => rfl
      | ite token condition yes no =>
          cases no with
          | none =>
              change _ = (do check (.expr, condition); check (.stmt, yes); return ())
              exact forget_bind fun _ => forget_bind fun _ => rfl
          | some no =>
              change _ = (do
                check (.expr, condition)
                check (.stmt, yes)
                check (.stmt, no)
                return ())
              exact forget_bind fun _ => forget_bind fun _ => forget_bind fun _ => rfl
      | block token body =>
          change _ = (do check (.stmts, body); return ())
          exact forget_bind fun _ => rfl

theorem check_items (items : List Node) :
    (decodeItems items).map (fun _ => ()) = forM (items.map (Role.stmt, ·)) check := by
  induction items with
  | nil =>
      rw [decodeItems]
      rfl
  | cons item rest ih =>
      rw [List.map_cons, List.forM_cons, ← ih, decodeItems, check]
      cases decodeStmt item with
      | error e => rfl
      | ok stmt => cases decodeItems rest <;> rfl

theorem check_eq (p : Place) : check p = (do forM (← places p) check) := by
  obtain ⟨role, n⟩ := p
  cases role with
  | expr => exact check_expr n
  | stmt => exact check_stmt n
  | stmts =>
      rw [check, decodeStmts, places]
      cases n.deref with
      | sequence label items => exact check_items items
      | scalar _ _ | mapping _ _ | «alias» _ _ _ | endless _ => rfl

theorem forM_eq_error {below : List Place} {e : DecodeError} (h : forM below check = .error e) :
    ∃ c ∈ below, check c = .error e := by
  induction below with
  | nil => cases h
  | cons first rest ih =>
      rw [List.forM_cons] at h
      cases hfirst : check first with
      | error e' =>
          rw [hfirst] at h
          cases h
          exact ⟨first, List.mem_cons_self, hfirst⟩
      | ok _ =>
          rw [hfirst] at h
          obtain ⟨c, hc, he⟩ := ih h
          exact ⟨c, List.mem_cons_of_mem _ hc, he⟩

theorem forM_eq_ok {below : List Place} (h : forM below check = .ok ()) :
    ∀ c ∈ below, check c = .ok () := by
  induction below with
  | nil => simp
  | cons first rest ih =>
      rw [List.forM_cons] at h
      obtain ⟨_, hfirst, hrest⟩ := bind_eq_ok h
      exact List.forall_mem_cons.2 ⟨hfirst, ih hrest⟩

/-- The error at a place is the one of its layer, or else the one at a place right below. -/
theorem check_eq_error {p : Place} {e : DecodeError} (h : check p = .error e) :
    places p = .error e ∨ ∃ below, places p = .ok below ∧ ∃ c ∈ below, check c = .error e := by
  rw [check_eq] at h
  cases hplaces : places p with
  | error e' =>
      rw [hplaces] at h
      cases h
      exact .inl rfl
  | ok below =>
      rw [hplaces] at h
      exact .inr ⟨below, rfl, forM_eq_error h⟩

theorem check_eq_ok {p : Place} (h : check p = .ok ()) :
    ∃ below, places p = .ok below ∧ ∀ c ∈ below, check c = .ok () := by
  rw [check_eq] at h
  obtain ⟨below, hbelow, h⟩ := bind_eq_ok h
  exact ⟨below, hbelow, forM_eq_ok h⟩

end TreeScript.Program
