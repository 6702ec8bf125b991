import TreeScript.Proofs.ExplicitLine
import TreeScript.Proofs.Reordering

/-!
# Documents with other lines

Two documents that differ in what is written as lines, and in nothing else, have the same layers. If
one of them is decoded, the other one is decoded too or has an error at one of its lines, one that
is no number that may be a line.
-/

namespace TreeScript

namespace Yaml.Node

mutual

/-- The node is the other one but for the values of entries with the key `line`. Both have no
aliases but as keys. -/
inductive Relined : Node → Node → Prop where
  | scalar {label text} : Relined (.scalar label text) (.scalar label text)
  | sequence {label items items'} : RelinedItems items items' →
    Relined (.sequence label items) (.sequence label items')
  | mapping {label entries entries'} : RelinedEntries entries entries' →
    Relined (.mapping label entries) (.mapping label entries')

inductive RelinedItems : List Node → List Node → Prop where
  | nil : RelinedItems [] []
  | cons {item item' rest rest'} : Relined item item' → RelinedItems rest rest' →
    RelinedItems (item :: rest) (item' :: rest')

inductive RelinedEntries : List (Node × Node) → List (Node × Node) → Prop where
  | nil : RelinedEntries [] []
  | line {key value value' rest rest'} : key.text = "line" → RelinedEntries rest rest' →
    RelinedEntries ((key, value) :: rest) ((key, value') :: rest')
  | other {key value value' rest rest'} : Relined value value' → RelinedEntries rest rest' →
    RelinedEntries ((key, value) :: rest) ((key, value') :: rest')

end

theorem RelinedItems.forall₂ {items items' : List Node} (h : RelinedItems items items') :
    List.Forall₂ Relined items items' := by
  induction items generalizing items' with
  | nil =>
      cases h
      exact .nil
  | cons item rest ih =>
      cases h with
      | cons hitem hrest => exact .cons hitem (ih hrest)

theorem RelinedEntries.forall₂ {entries entries' : List (Node × Node)}
    (h : RelinedEntries entries entries') : List.Forall₂
      (fun a b => a.1 = b.1 ∧ (a.1.text = "line" ∨ Relined a.2 b.2)) entries entries' := by
  induction entries generalizing entries' with
  | nil =>
      cases h
      exact .nil
  | cons entry rest ih =>
      cases h with
      | line hline hrest => exact .cons ⟨rfl, .inl hline⟩ (ih hrest)
      | other hvalue hrest => exact .cons ⟨rfl, .inr hvalue⟩ (ih hrest)

theorem RelinedEntries.keys_eq {entries entries' : List (Node × Node)}
    (h : RelinedEntries entries entries') : entries.map Prod.fst = entries'.map Prod.fst := by
  rw [← List.forall₂_eq_eq_eq, List.forall₂_map_left_iff, List.forall₂_map_right_iff]
  exact h.forall₂.imp fun _ _ hentry => hentry.1

theorem RelinedEntries.exists_mem {entries entries' : List (Node × Node)}
    (h : RelinedEntries entries entries') {key value' : Node} (hmem : (key, value') ∈ entries')
    (hkey : key.text ≠ "line") : ∃ value, (key, value) ∈ entries ∧ Relined value value' := by
  obtain ⟨⟨_, value⟩, hentry, rfl, hline | hvalue⟩ := exists_mem_of_forall₂ h.forall₂.flip hmem
  · exact absurd hline hkey
  · exact ⟨value, hentry, hvalue⟩

end Yaml.Node

namespace Program

open Yaml (Node Label Scalar)

open Format

/-! ## Two computations -/

/-- The error stands at a line of the node that is no number that may be a line. -/
def LineError (n : Node) (e : DecodeError) : Prop :=
  ∃ v, HasLine n v ∧ (∀ q, ¬ LineNumber v q) ∧ e = ⟨v.position, .badLine⟩

/-- If the second computation has a result, the first one has a result that belongs to it, unless it
has one of the given errors. -/
def Follows (E : DecodeError → Prop) {α β : Type} (R : α → β → Prop) (x : Except DecodeError α)
    (x' : Except DecodeError β) : Prop :=
  ∀ b, x' = .ok b → Yields (R · b) E x

section Follows

variable {α β γ δ : Type} {E : DecodeError → Prop} {P : α → β → Prop} {R : γ → δ → Prop}

theorem Follows.ok {a : α} {b : β} (h : P a b) : Follows E P (.ok a) (.ok b) := by
  intro b' hb
  cases hb
  exact h

theorem Follows.error {x : Except DecodeError α} {e : DecodeError} :
    Follows (β := β) E P x (.error e) := by
  intro b hb
  cases hb

theorem Follows.bind {x : Except DecodeError α} {x' : Except DecodeError β}
    {next : α → Except DecodeError γ} {next' : β → Except DecodeError δ} (hx : Follows E P x x')
    (hnext : ∀ a b, P a b → Follows E R (next a) (next' b)) :
    Follows E R (x >>= next) (x' >>= next') := by
  intro d hd
  obtain ⟨b, hb, hd⟩ := bind_eq_ok hd
  exact (hx b hb).bind fun a ha => hnext a b ha d hd

end Follows

/-! ## Fields -/

section Fields

variable {n m m' key body body' : Node} {kind : String} {f f' : Fields} {E : DecodeError → Prop}

structure Fields.Relined (n : Node) (f f' : Fields) : Prop where
  line : ∀ v, f.lookup "line" = some v → HasLine n v
  other : ∀ name, name ≠ "line" → Option.Rel Node.Relined (f.lookup name) (f'.lookup name)

theorem record_of_relined {label : Label} {allowed : List String} {entries entries' : Entries}
    (h : Node.RelinedEntries entries entries')
    (hrecord : Record (.mapping label entries') allowed entries') :
    Record (.mapping label entries) allowed entries := by
  apply (record_congr _).2 hrecord
  have htexts := congrArg (List.map Node.text) h.keys_eq
  rw [List.map_map, List.map_map] at htexts
  exact .of_eq htexts

theorem follows_fields (hvariant : Variant n kind key body) (hkind : kind ∈ fieldKinds)
    (hbody : body.Resolved) (hbody' : body'.Resolved) (h : body.Relined body')
    (allowed : List String) :
    Follows E (Fields.Relined n) (fields body allowed) (fields body' allowed) := by
  intro f' hf'
  obtain ⟨entries', hrecord', rfl⟩ := (fields_iff hbody').1 hf'
  obtain ⟨label, rfl⟩ := hrecord'.mapping
  cases h with
  | @mapping _ entries _ hentries =>
      have hrecord := record_of_relined hentries hrecord'
      rw [(fields_iff hbody).2 ⟨entries, hrecord, rfl⟩]
      constructor
      · intro v hv
        exact ⟨kind, key, label, entries, hvariant, hkind, (lookup_iff hrecord).1 hv⟩
      · intro name hname
        cases hv' : (fieldsOf entries').lookup name with
        | some v' =>
            obtain ⟨key, hmem, rfl⟩ := (lookup_iff hrecord').1 hv'
            obtain ⟨v, hv, hsame⟩ := hentries.exists_mem hmem hname
            rw [(lookup_iff hrecord).2 ⟨key, hv, rfl⟩]
            exact .some hsame
        | none =>
            cases hv : (fieldsOf entries).lookup name with
            | none => exact .none
            | some v =>
                obtain ⟨key, hmem, hkey⟩ := (lookup_iff hrecord).1 hv
                have hkeys : key ∈ entries'.map Prod.fst := by
                  rw [← hentries.keys_eq]
                  exact List.mem_map_of_mem hmem
                obtain ⟨entry, hentry, rfl⟩ := List.mem_map.1 hkeys
                exact absurd hkey ((lookup_none_iff hrecord').1 hv' entry hentry)

theorem follows_lineOf (hf : f.Relined n f') (key' : Node) :
    Follows (LineError n) (fun _ _ => True) (lineOf f key) (lineOf f' key') := by
  intro _ _
  cases hv : f.lookup "line" with
  | none =>
      rw [lineOf, hv]
      exact trivial
  | some v =>
      by_cases hnone : ∀ q, ¬ LineNumber v q
      · rw [lineOf_of_not_lineNumber hv hnone]
        exact ⟨v, hf.line v hv, hnone, rfl⟩
      · push Not at hnone
        obtain ⟨q, hq⟩ := hnone
        rw [lineOf_of_lineNumber hv hq]
        exact trivial

theorem follows_required (hf : f.Relined n f') {name : String} (hname : name ≠ "line") :
    Follows E Node.Relined (required m f name) (required m' f' name) := by
  intro v' hv'
  have hsame := hf.other name hname
  rw [lookup_of_required hv'] at hsame
  unfold required
  generalize f.lookup name = v at hsame
  cases hsame with
  | some hsame => exact hsame

theorem follows_identifier (h : m.Relined m') (what : String) :
    Follows E Eq (identifier m what) (identifier m' what) := by
  intro name hname
  cases h with
  | scalar =>
      rw [hname]
      exact rfl
  | sequence _ | mapping _ => cases hname

theorem follows_operator (hf : f.Relined n f') (line line' : Int) (kinds : List Token.Kind) :
    Follows E (fun _ _ => True) (operator m f line kinds) (operator m' f' line' kinds) := by
  refine (follows_required hf (by decide)).bind fun op op' hop => ?_
  cases hop with
  | scalar =>
      dsimp only
      split
      · exact .ok trivial
      · exact .error
  | sequence _ | mapping _ => exact .error

end Fields

/-! ## Layers -/

abbrev SamePlaces : List Place → List Place → Prop :=
  List.Forall₂ fun c c' => c.1 = c'.1 ∧ c.2.Relined c'.2

def ExprLayer.Relined (l l' : ExprLayer) : Prop := SamePlaces l.places l'.places

def StmtLayer.Relined (l l' : StmtLayer) : Prop := SamePlaces l.places l'.places

theorem samePlaces_one {role : Role} {n n' : Node} (h : n.Relined n') :
    SamePlaces [(role, n)] [(role, n')] :=
  .cons ⟨rfl, h⟩ .nil

theorem samePlaces_two {role role' : Role} {m m' n n' : Node} (hm : m.Relined m')
    (hn : n.Relined n') : SamePlaces [(role, m), (role', n)] [(role, m'), (role', n')] :=
  .cons ⟨rfl, hm⟩ (samePlaces_one hn)

theorem samePlaces_toList {role : Role} {a a' : Option Node} (h : Option.Rel Node.Relined a a') :
    SamePlaces (a.toList.map (role, ·)) (a'.toList.map (role, ·)) := by
  cases h with
  | some h => exact samePlaces_one h
  | none => exact .nil

theorem ExprLayer.relined_of_places {l : ExprLayer} (h : l.children = []) : l.Relined l := by
  rw [ExprLayer.Relined, ExprLayer.places, h]
  exact .nil

section Layers

variable {n key body body' : Node} {kind : String}

theorem follows_literalLayer {E : DecodeError → Prop} (h : body.Relined body') :
    Follows E ExprLayer.Relined (literalLayer key body) (literalLayer key body') := by
  cases h with
  | scalar =>
      intro l hl
      rw [hl]
      exact l.relined_of_places (children_literalLayer hl)
  | sequence _ | mapping _ => exact .error

variable (hvariant : Variant n kind key body) (hbody : body.Resolved) (hbody' : body'.Resolved)
  (h : body.Relined body')

include hvariant hbody hbody' h

theorem follows_unaryLayer (hkind : kind ∈ fieldKinds) :
    Follows (LineError n) ExprLayer.Relined (unaryLayer key body) (unaryLayer key body') := by
  refine (follows_fields hvariant hkind hbody hbody' h _).bind fun f f' hf => ?_
  refine (follows_lineOf hf key).bind fun line line' _ => ?_
  refine (follows_operator hf line line' _).bind fun op op' _ => ?_
  refine (follows_required hf (by decide)).bind fun right right' hright => ?_
  exact .ok (samePlaces_one hright)

theorem follows_operands (hkind : kind ∈ fieldKinds) (kinds : List Token.Kind) :
    Follows (LineError n) (fun parts parts' => parts.1.Relined parts'.1 ∧
      parts.2.2.Relined parts'.2.2) (operands key body kinds) (operands key body' kinds) := by
  refine (follows_fields hvariant hkind hbody hbody' h _).bind fun f f' hf => ?_
  refine (follows_lineOf hf key).bind fun line line' _ => ?_
  refine (follows_operator hf line line' kinds).bind fun op op' _ => ?_
  refine (follows_required hf (by decide)).bind fun left left' hleft => ?_
  refine (follows_required hf (by decide)).bind fun right right' hright => ?_
  exact .ok ⟨hleft, hright⟩

theorem follows_variableLayer (hkind : kind ∈ fieldKinds) :
    Follows (LineError n) ExprLayer.Relined (variableLayer key body)
      (variableLayer key body') := by
  have hfields := fun allowed =>
    follows_fields (E := LineError n) hvariant hkind hbody hbody' h allowed
  cases h with
  | scalar =>
      intro l hl
      rw [hl]
      exact l.relined_of_places (children_variableLayer hl)
  | sequence _ => exact .error
  | mapping _ =>
      refine (hfields ["name", "line"]).bind fun f f' hf => ?_
      refine (follows_required hf (by decide)).bind fun named named' hnamed => ?_
      refine (follows_identifier hnamed _).bind fun name name' _ => ?_
      exact (follows_lineOf hf key).bind fun line line' _ => .ok .nil

theorem follows_assignLayer (hkind : kind ∈ fieldKinds) :
    Follows (LineError n) ExprLayer.Relined (assignLayer key body) (assignLayer key body') := by
  refine (follows_fields hvariant hkind hbody hbody' h _).bind fun f f' hf => ?_
  refine (follows_required hf (by decide)).bind fun named named' hnamed => ?_
  refine (follows_identifier hnamed _).bind fun name name' _ => ?_
  refine (follows_lineOf hf key).bind fun line line' _ => ?_
  refine (follows_required hf (by decide)).bind fun value value' hvalue => ?_
  exact .ok (samePlaces_one hvalue)

theorem follows_varLayer (hkind : kind ∈ fieldKinds) :
    Follows (LineError n) StmtLayer.Relined (varLayer key body) (varLayer key body') := by
  refine (follows_fields hvariant hkind hbody hbody' h _).bind fun f f' hf => ?_
  refine (follows_required hf (by decide)).bind fun named named' hnamed => ?_
  refine (follows_identifier hnamed _).bind fun name name' _ => ?_
  refine (follows_lineOf hf key).bind fun line line' _ => ?_
  exact .ok (samePlaces_toList (hf.other "init" (by decide)))

theorem follows_iteLayer (hkind : kind ∈ fieldKinds) :
    Follows (LineError n) StmtLayer.Relined (iteLayer key body) (iteLayer key body') := by
  refine (follows_fields hvariant hkind hbody hbody' h _).bind fun f f' hf => ?_
  refine (follows_lineOf hf key).bind fun line line' _ => ?_
  refine (follows_required hf (by decide)).bind fun condition condition' hcondition => ?_
  refine (follows_required hf (by decide)).bind fun yes yes' hyes => ?_
  have hno := hf.other "else" (by decide)
  exact .ok (.cons ⟨rfl, hcondition⟩ (.cons ⟨rfl, hyes⟩ (samePlaces_toList hno)))

end Layers

section Nodes

variable {n n' key body body' : Node}

theorem follows_exprBody (hvariant : Variant n key.text key body) (hbody : body.Resolved)
    (hbody' : body'.Resolved) (h : body.Relined body') :
    Follows (LineError n) ExprLayer.Relined (exprBody key body) (exprBody key body') := by
  unfold exprBody
  split
  next => exact follows_literalLayer h
  next => exact .ok (samePlaces_one h)
  next hkind =>
    exact follows_unaryLayer hvariant hbody hbody' h (by rw [hkind]; decide)
  next hkind =>
    refine (follows_operands hvariant hbody hbody' h (by rw [hkind]; decide) _).bind ?_
    intro parts parts' hparts
    exact .ok (samePlaces_two hparts.1 hparts.2)
  next hkind =>
    refine (follows_operands hvariant hbody hbody' h (by rw [hkind]; decide) _).bind ?_
    intro parts parts' hparts
    exact .ok (samePlaces_two hparts.1 hparts.2)
  next hkind =>
    exact follows_variableLayer hvariant hbody hbody' h (by rw [hkind]; decide)
  next hkind =>
    exact follows_assignLayer hvariant hbody hbody' h (by rw [hkind]; decide)
  next => exact .error

theorem follows_stmtBody (hvariant : Variant n key.text key body) (hbody : body.Resolved)
    (hbody' : body'.Resolved) (h : body.Relined body') :
    Follows (LineError n) StmtLayer.Relined (stmtBody key body) (stmtBody key body') := by
  unfold stmtBody
  split
  next => exact .ok (samePlaces_one h)
  next => exact .ok (samePlaces_one h)
  next hkind =>
    exact follows_varLayer hvariant hbody hbody' h (by rw [hkind]; decide)
  next hkind =>
    exact follows_iteLayer hvariant hbody hbody' h (by rw [hkind]; decide)
  next => exact .ok (samePlaces_one h)
  next => exact .error

variable (hn : n.Resolved) (hn' : n'.Resolved) (h : n.Relined n')

include hn hn' h

theorem follows_variant {α : Type} {R : α → α → Prop} {next : Node → Node → Except DecodeError α}
    (hline : ∀ key body, key.text = "line" → ∃ e, next key body = .error e)
    (hnext : ∀ {key body body'}, Variant n key.text key body → body.Resolved → body'.Resolved →
      body.Relined body' → Follows (LineError n) R (next key body) (next key body')) :
    Follows (LineError n) R (do let (key, body) ← variant n; next key body)
      (do let (key, body) ← variant n'; next key body) := by
  intro a ha
  obtain ⟨⟨key, body'⟩, hvariant', ha'⟩ := bind_eq_ok ha
  change next key body' = .ok a at ha'
  obtain ⟨label, rfl⟩ := (variant_iff hn').1 hvariant'
  have hbody' : body'.Resolved := hn'.value _ List.mem_cons_self
  cases h with
  | @mapping _ entries _ hentries =>
      cases hentries with
      | line hkey hrest =>
          obtain ⟨e, he⟩ := hline key body' hkey
          rw [he] at ha'
          cases ha'
      | @other _ body _ _ _ hsame hrest =>
          cases hrest
          have hvariant : variant _ = .ok (key, body) := (variant_iff hn).2 ⟨label, rfl⟩
          have hbody : body.Resolved := hn.value _ List.mem_cons_self
          rw [hvariant]
          exact hnext ⟨rfl, label, rfl⟩ hbody hbody' hsame a ha'

theorem follows_exprLayer :
    Follows (LineError n) ExprLayer.Relined (exprLayer n) (exprLayer n') := by
  apply follows_variant hn hn' h _ follows_exprBody
  intro key body hkey
  exact ⟨_, by rw [exprBody, hkey]; rfl⟩

theorem follows_stmtLayer :
    Follows (LineError n) StmtLayer.Relined (stmtLayer n) (stmtLayer n') := by
  apply follows_variant hn hn' h _ follows_stmtBody
  intro key body hkey
  exact ⟨_, by rw [stmtBody, hkey]; rfl⟩

end Nodes

theorem follows_places (role : Role) {n n' : Node} (hn : n.Resolved) (hn' : n'.Resolved)
    (h : n.Relined n') :
    Follows (LineError n) SamePlaces (places (role, n)) (places (role, n')) := by
  intro below' hbelow'
  cases role with
  | expr =>
      obtain ⟨l', hl', rfl⟩ := map_eq_ok hbelow'
      have hl := follows_exprLayer hn hn' h l' hl'
      rw [places]
      generalize exprLayer n = x at hl
      cases x <;> exact hl
  | stmt =>
      obtain ⟨l', hl', rfl⟩ := map_eq_ok hbelow'
      have hl := follows_stmtLayer hn hn' h l' hl'
      rw [places]
      generalize stmtLayer n = x at hl
      cases x <;> exact hl
  | stmts =>
      rw [places, hn'.deref] at hbelow'
      rw [places, hn.deref]
      cases h with
      | sequence hitems =>
          cases hbelow'
          apply List.forall₂_map_left_iff.2
          apply List.forall₂_map_right_iff.2
          exact hitems.forall₂.imp fun _ _ hitem => ⟨rfl, hitem⟩
      | scalar | mapping _ => cases hbelow'

/-! ## Documents -/

/-- If decoding succeeds at a place, and fails once other lines are written there, then its error
is at one of these lines. -/
theorem lineError_of_relined (p' : Place) (hp' : p'.2.Resolved) (hok : check p' = .ok ()) :
    ∀ {n : Node}, n.Resolved → n.Relined p'.2 → ∀ {e : DecodeError},
      check (p'.1, n) = .error e → ∃ m, Relation.ReflTransGen Part n m ∧ LineError m e := by
  -- The layers of the decoded document lead the way: below them, the other one has the same places.
  induction p' using Place.induction with
  | step p' ih =>
      intro n hn hsame e he
      obtain ⟨role, n'⟩ := p'
      obtain ⟨below', hbelow', hok⟩ := check_eq_ok hok
      have hfollows := follows_places role hn hp' hsame below' hbelow'
      rcases check_eq_error he with hplaces | ⟨below, hbelow, c, hc, he⟩
      · exact ⟨n, .refl, hfollows.of_error hplaces⟩
      · obtain ⟨c', hc', hrole, hsame⟩ := exists_mem_of_forall₂ (hfollows.of_ok hbelow) hc
        have hpart := (part_iff_places hn hbelow).2 (List.mem_map_of_mem hc)
        have hpart' := (part_iff_places hp' hbelow').2 (List.mem_map_of_mem hc')
        have he : check (c'.1, c.2) = .error e := by
          rw [← hrole]
          exact he
        obtain ⟨m, hm, herror⟩ := ih below' hbelow' c' hc' (hpart'.resolved hp') (hok c' hc')
          (hpart.resolved hn) hsame he
        exact ⟨m, .head hpart hm, herror⟩

/-- In a document that is decoded, all lines that are written out are numbers from one on, and the
tokens stand there, on the line that is the number if it is an integer. A document with any other
line is refused. If nothing else is wrong with it, so that it is decoded with some other lines, the
error stands at such a line. -/
theorem decodeStmts_explicit_line (document : Node) :
    (∀ program, decodeStmts document = .ok program → ∀ m v, NodeOf document m → HasLine m v →
      ∃ q, LineNumber v q ∧ ∃ node ∈ Stmt.listNodes program, DecodesTo m node ∧
        node.token.line = ⌊q⌋ ∧ ∀ i : Int, q = i → node.token.line = i) ∧
    (∀ m v, NodeOf document m → HasLine m v → (∀ q, ¬ LineNumber v q) →
      ∃ e, decodeStmts document = .error e) ∧
    ∀ other program, document.resolved.Relined other.resolved →
      decodeStmts other = .ok program → ∀ e, decodeStmts document = .error e →
      ∃ m v, NodeOf document m ∧ HasLine m v ∧ (∀ q, ¬ LineNumber v q) ∧
        e = ⟨v.position, .badLine⟩ := by
  refine ⟨?_, ?_, ?_⟩
  · intro program h m v hm hline
    obtain ⟨q, hq, node, hnode, hdecodes, hfloor⟩ := line_of_nodeOf h hm hline
    refine ⟨q, hq, node, hnode, hdecodes, hfloor, ?_⟩
    rintro i rfl
    rw [hfloor, Int.floor_intCast]
  · intro m v hm hline hnone
    cases h : decodeStmts document with
    | error e => exact ⟨e, rfl⟩
    | ok program =>
        obtain ⟨q, hq, -⟩ := line_of_nodeOf h hm hline
        exact absurd hq (hnone q)
  · intro other program hsame hother e he
    have hok : check (.stmts, other.resolved) = .ok () := by
      rw [check, decodeStmts_resolved, hother]
      rfl
    have he : check (.stmts, document.resolved) = .error e := by
      rw [check, decodeStmts_resolved, he]
      rfl
    obtain ⟨m, hm, v, hline, hnone, herror⟩ :=
      lineError_of_relined (.stmts, other.resolved) other.resolved_resolved hok
        document.resolved_resolved hsame he
    exact ⟨m, v, hm, hline, hnone, herror⟩

def declaration (line : Node) : Node :=
  pair 1 3 (leaf 1 3 "var") (.mapping ⟨⟨1, 8⟩, "!!map", none⟩
    [(leaf 1 9 "name", leaf 1 15 "x"), (leaf 1 18 "line", line)])

def declaredOn (tag text : String) : Node :=
  .sequence ⟨⟨1, 1⟩, "!!seq", none⟩ [declaration (.scalar ⟨⟨1, 24⟩, tag, none⟩ text)]

theorem nodeOf_declaredOn (tag text : String) :
    NodeOf (declaredOn tag text) (declaration (.scalar ⟨⟨1, 24⟩, tag, none⟩ text)) :=
  .single (.item List.mem_cons_self)

theorem hasLine_declaration (line : Node) : HasLine (declaration line) line := by
  refine ⟨"var", leaf 1 3 "var", ⟨⟨1, 8⟩, "!!map", none⟩, _, ⟨rfl, _, rfl⟩, by decide, ?_⟩
  exact ⟨leaf 1 18 "line", List.mem_cons_of_mem _ List.mem_cons_self, rfl⟩

theorem relined_declaredOn (tag tag' text text' : String) :
    (declaredOn tag text).resolved.Relined (declaredOn tag' text').resolved := by
  have hfields (line line' : Node) :
      Node.RelinedEntries [(leaf 1 9 "name", leaf 1 15 "x"), (leaf 1 18 "line", line)]
        [(leaf 1 9 "name", leaf 1 15 "x"), (leaf 1 18 "line", line')] :=
    .other .scalar (.line rfl .nil)
  exact .sequence (.cons (.mapping (.other (.mapping (hfields _ _)) .nil)) .nil)

theorem decodeStmts_declaredOn_of_lineNumber {tag text : String} {q : ℚ}
    (h : LineNumber (.scalar ⟨⟨1, 24⟩, tag, none⟩ text) q) :
    decodeStmts (declaredOn tag text) = .ok [.var (.ofName "x" ⌊q⌋) none] := by
  let line : Node := .scalar ⟨⟨1, 24⟩, tag, none⟩ text
  let fields : Fields := [("line", line), ("name", leaf 1 15 "x")]
  have hline : lineOf fields (leaf 1 3 "var") = .ok ⌊q⌋ := lineOf_of_lineNumber rfl h _
  have hlayer : stmtLayer (declaration line) = .ok (.var (.ofName "x" ⌊q⌋) none) := by
    refine bind_of_ok (a := (leaf 1 3 "var", _)) rfl ?_
    refine bind_of_ok (a := fields) rfl ?_
    refine bind_of_ok (a := leaf 1 15 "x") rfl ?_
    refine bind_of_ok (a := "x") rfl ?_
    exact bind_of_ok hline rfl
  rw [declaredOn, decodeStmts_sequence, decodeItems, decodeStmt, hlayer, decodeItems]
  rfl

/-- The declaration stands on line 7 if this is written there. Zero is refused, where it is
written. -/
theorem decodeStmts_declaredOn :
    decodeStmts (declaredOn "!!int" "7") = .ok [.var (.ofName "x" 7) none] ∧
      (∃ q, LineNumber (.scalar ⟨⟨1, 24⟩, "!!int", none⟩ "7") q ∧ ⌊q⌋ = 7) ∧
      decodeStmts (declaredOn "!!int" "0") = .error ⟨⟨1, 24⟩, .badLine⟩ ∧
      ∃ m v, NodeOf (declaredOn "!!int" "0") m ∧ HasLine m v ∧ (∀ q, ¬ LineNumber v q) ∧
        v.position = ⟨1, 24⟩ := by
  have hseven : decodeStmts (declaredOn "!!int" "7") = .ok [.var (.ofName "x" 7) none] := by cbv
  have hzero : decodeStmts (declaredOn "!!int" "0") = .error ⟨⟨1, 24⟩, .badLine⟩ := by cbv
  obtain ⟨q, hq, node, hnode, -, hfloor, -⟩ := (decodeStmts_explicit_line _).1 _ hseven _ _
    (nodeOf_declaredOn _ _) (hasLine_declaration _)
  obtain ⟨m, v, hm, hline, hnone, herror⟩ := (decodeStmts_explicit_line _).2.2 _ _
    (relined_declaredOn _ _ _ _) hseven _ hzero
  refine ⟨hseven, ⟨q, hq, ?_⟩, hzero, m, v, hm, hline, hnone, ?_⟩
  · obtain rfl := List.mem_singleton.1 hnode
    exact hfloor.symm
  · exact (congrArg DecodeError.position herror).symm

open Decimal (Binary64.value Binary64.significand Binary64.exponent Binary64.hiddenBit
  Binary64.infinity)

def oneAndHalf : Double := .ofPattern false 0x3FF8000000000000

theorem ofTag_oneAndHalf : Scalar.ofTag "!!float" "1.5" = some (.float oneAndHalf) := by
  decide +kernel

theorem magnitude_oneAndHalf : oneAndHalf.magnitude = 0x3FF8000000000000 := by
  decide +kernel

theorem exact_oneAndHalf : Scalar.exact oneAndHalf = 3 / 2 := by
  have hpositive : oneAndHalf.isNegative = false := by decide +kernel
  have hvalue : Binary64.value 0x3FF8000000000000 = 3 / 2 := by
    norm_num [Binary64.value, Binary64.significand, Binary64.exponent, Binary64.hiddenBit]
  rw [Scalar.exact, hpositive, magnitude_oneAndHalf, if_neg (by decide), hvalue]

theorem lineNumber_oneAndHalf_iff {label : Label} (htag : label.tag = "!!float") {q : ℚ} :
    LineNumber (.scalar label "1.5") q ↔ q = 3 / 2 := by
  constructor
  · rintro ⟨_, _, meaning, heq, hmeaning, hnumber, -⟩
    cases heq
    rw [htag, ofTag_oneAndHalf] at hmeaning
    cases hmeaning
    cases hnumber
    exact exact_oneAndHalf
  · rintro rfl
    have hfinite : oneAndHalf.magnitude < Binary64.infinity := by
      rw [magnitude_oneAndHalf]
      decide
    have hnumber := Scalar.IsNumber.float hfinite
    rw [exact_oneAndHalf] at hnumber
    refine ⟨label, "1.5", _, rfl, ?_, hnumber, by norm_num, by norm_num⟩
    rw [htag, ofTag_oneAndHalf]

/-- A line that is no integer is accepted: at line 1.5, the declaration stands on line 1. -/
theorem decodeStmts_declaredOn_oneAndHalf :
    decodeStmts (declaredOn "!!float" "1.5") = .ok [.var (.ofName "x" 1) none] ∧
      ∃ m v, NodeOf (declaredOn "!!float" "1.5") m ∧ HasLine m v ∧ LineNumber v (3 / 2) ∧
        ∀ i : Int, ¬ LineNumber v i := by
  have hnumber := @lineNumber_oneAndHalf_iff ⟨⟨1, 24⟩, "!!float", none⟩ rfl
  have hdecoded := decodeStmts_declaredOn_of_lineNumber (hnumber.2 rfl)
  have hfloor : ⌊(3 / 2 : ℚ)⌋ = 1 := by norm_num
  rw [hfloor] at hdecoded
  refine ⟨hdecoded, _, _, nodeOf_declaredOn _ _, hasLine_declaration _, hnumber.2 rfl, ?_⟩
  intro i hi
  have hhalf : (i : ℚ) = 3 / 2 := hnumber.1 hi
  have hdouble : ((2 * i : Int) : ℚ) = (3 : Int) := by
    push_cast
    rw [hhalf]
    norm_num
  have hthree : 2 * i = 3 := Int.cast_injective hdouble
  omega

end Program

end TreeScript
