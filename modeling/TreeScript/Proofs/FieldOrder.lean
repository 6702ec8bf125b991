import TreeScript.Proofs.Reordering

/-!
# The order of fields

A document with the entries of its mappings in another order is decoded into the same program, or
into none. The errors need not be the same, since of several fields that nobody knows the first one
is blamed; where all fields are known and come once, the errors are the same too.
-/

namespace TreeScript.Program

open Yaml (Node Label)

section Layers

variable {P : Prop} {key key' body body' : Node}

/-! ## Layers -/

inductive ExprLayer.Reordered : ExprLayer → ExprLayer → Prop where
  | literal {token value} : Reordered (.literal token value) (.literal token value)
  | grouping {token inner inner'} : inner.Reordered inner' →
    Reordered (.grouping token inner) (.grouping token inner')
  | unary {op right right'} : right.Reordered right' →
    Reordered (.unary op right) (.unary op right')
  | binary {left left' op right right'} : left.Reordered left' → right.Reordered right' →
    Reordered (.binary left op right) (.binary left' op right')
  | logical {left left' op right right'} : left.Reordered left' → right.Reordered right' →
    Reordered (.logical left op right) (.logical left' op right')
  | variable {name} : Reordered (.variable name) (.variable name)
  | assign {name value value'} : value.Reordered value' →
    Reordered (.assign name value) (.assign name value')

inductive StmtLayer.Reordered : StmtLayer → StmtLayer → Prop where
  | expression {expr expr'} : expr.Reordered expr' →
    Reordered (.expression expr) (.expression expr')
  | print {token expr expr'} : expr.Reordered expr' →
    Reordered (.print token expr) (.print token expr')
  | var {name init init'} : Option.Rel Node.Reordered init init' →
    Reordered (.var name init) (.var name init')
  | ite {token condition condition' yes yes' no no'} : condition.Reordered condition' →
    yes.Reordered yes' → Option.Rel Node.Reordered no no' →
    Reordered (.ite token condition yes no) (.ite token condition' yes' no')
  | block {token body body'} : body.Reordered body' →
    Reordered (.block token body) (.block token body')

variable (hkey : key.Reordered key') (hbody : body.Reordered body')

include hkey hbody

theorem agree_literalLayer :
    Agree P ExprLayer.Reordered (literalLayer key body) (literalLayer key' body') := by
  cases hbody with
  | @scalar label text =>
      have hsame : literalLayer key' (.scalar label text) =
          literalLayer key (.scalar label text) := by
        unfold literalLayer
        rw [hkey.position_eq]
      rw [hsame]
      cases hl : literalLayer key (.scalar label text) with
      | error e => exact .error fun _ => rfl
      | ok l =>
          obtain ⟨_, _, _, _, _, -, -, rfl⟩ := literalLayer_iff.1 hl
          exact .ok .literal
  | sequence _ | mapping _ _ _ | «alias» _ | endless => exact .error fun _ => rfl

theorem agree_unaryLayer :
    Agree (Known ["op", "line", "right"] body) ExprLayer.Reordered (unaryLayer key body)
      (unaryLayer key' body') := by
  refine (agree_fields hbody _).bind fun f f' hf => ?_
  refine (agree_lineOf hf hkey).bind_same fun line => ?_
  refine (agree_operator hbody hf line _).bind_same fun op => ?_
  refine (agree_required hbody hf "right").bind fun right right' hright => ?_
  exact .ok (.unary hright)

theorem agree_operands (allowed : List Token.Kind) :
    Agree (Known ["op", "line", "left", "right"] body)
      (fun parts parts' => parts.1.Reordered parts'.1 ∧ parts.2.1 = parts'.2.1 ∧
        parts.2.2.Reordered parts'.2.2)
      (operands key body allowed) (operands key' body' allowed) := by
  refine (agree_fields hbody _).bind fun f f' hf => ?_
  refine (agree_lineOf hf hkey).bind_same fun line => ?_
  refine (agree_operator hbody hf line _).bind_same fun op => ?_
  refine (agree_required hbody hf "left").bind fun left left' hleft => ?_
  refine (agree_required hbody hf "right").bind fun right right' hright => ?_
  exact .ok ⟨hleft, rfl, hright⟩

theorem agree_variableLayer :
    Agree (Known ["name", "line"] body) ExprLayer.Reordered (variableLayer key body)
      (variableLayer key' body') := by
  have hfields : Agree (Known ["name", "line"] body) ExprLayer.Reordered
      (do
        let f ← fields body ["name", "line"]
        let name ← identifier (← required body f "name") "name"
        let line ← lineOf f key
        return ExprLayer.variable (.ofName name line))
      (do
        let f ← fields body' ["name", "line"]
        let name ← identifier (← required body' f "name") "name"
        let line ← lineOf f key'
        return ExprLayer.variable (.ofName name line)) := by
    refine (agree_fields hbody _).bind fun f f' hf => ?_
    refine (agree_required hbody hf "name").bind fun named named' hnamed => ?_
    refine (agree_identifier hnamed "name").bind_same fun name => ?_
    refine (agree_lineOf hf hkey).bind_same fun line => ?_
    exact .ok .variable
  cases hbody with
  | scalar =>
      refine (agree_identifier .scalar "variable").bind_same fun name => ?_
      rw [hkey.position_eq]
      exact .ok .variable
  | sequence _ | mapping _ _ _ | «alias» _ | endless => exact hfields

theorem agree_assignLayer :
    Agree (Known ["name", "line", "value"] body) ExprLayer.Reordered (assignLayer key body)
      (assignLayer key' body') := by
  refine (agree_fields hbody _).bind fun f f' hf => ?_
  refine (agree_required hbody hf "name").bind fun named named' hnamed => ?_
  refine (agree_identifier hnamed "name").bind_same fun name => ?_
  refine (agree_lineOf hf hkey).bind_same fun line => ?_
  refine (agree_required hbody hf "value").bind fun value value' hvalue => ?_
  exact .ok (.assign hvalue)

theorem agree_varLayer :
    Agree (Known ["name", "line", "init"] body) StmtLayer.Reordered (varLayer key body)
      (varLayer key' body') := by
  refine (agree_fields hbody _).bind fun f f' hf => ?_
  refine (agree_required hbody hf "name").bind fun named named' hnamed => ?_
  refine (agree_identifier hnamed "name").bind_same fun name => ?_
  refine (agree_lineOf hf hkey).bind_same fun line => ?_
  exact .ok (.var (hf "init"))

theorem agree_iteLayer :
    Agree (Known ["condition", "then", "else", "line"] body) StmtLayer.Reordered
      (iteLayer key body) (iteLayer key' body') := by
  refine (agree_fields hbody _).bind fun f f' hf => ?_
  refine (agree_lineOf hf hkey).bind_same fun line => ?_
  refine (agree_required hbody hf "condition").bind fun condition condition' hcondition => ?_
  refine (agree_required hbody hf "then").bind fun yes yes' hyes => ?_
  exact .ok (.ite hcondition hyes (hf "else"))

def fieldNames (kind : String) : Option (List String) :=
  match kind with
  | "unary" => some ["op", "line", "right"]
  | "binary" => some ["op", "line", "left", "right"]
  | "logical" => some ["op", "line", "left", "right"]
  | "variable" => some ["name", "line"]
  | "assign" => some ["name", "line", "value"]
  | "var" => some ["name", "line", "init"]
  | "if" => some ["condition", "then", "else", "line"]
  | _ => none

theorem agree_exprBody :
    Agree (∀ allowed, fieldNames key.text = some allowed → Known allowed body)
      ExprLayer.Reordered (exprBody key body) (exprBody key' body') := by
  unfold exprBody
  rw [hkey.text_eq]
  split
  next => exact agree_literalLayer hkey hbody
  next =>
    rw [hkey.position_eq]
    exact .ok (.grouping hbody)
  next hkind => exact (agree_unaryLayer hkey hbody).mono fun h => h _ (by rw [hkind]; rfl)
  next hkind =>
    refine ((agree_operands hkey hbody _).mono fun h => h _ (by rw [hkind]; rfl)).bind ?_
    rintro ⟨left, op, right⟩ ⟨left', op', right'⟩ ⟨hleft, rfl, hright⟩
    exact .ok (.binary hleft hright)
  next hkind =>
    refine ((agree_operands hkey hbody _).mono fun h => h _ (by rw [hkind]; rfl)).bind ?_
    rintro ⟨left, op, right⟩ ⟨left', op', right'⟩ ⟨hleft, rfl, hright⟩
    exact .ok (.logical hleft hright)
  next hkind => exact (agree_variableLayer hkey hbody).mono fun h => h _ (by rw [hkind]; rfl)
  next hkind => exact (agree_assignLayer hkey hbody).mono fun h => h _ (by rw [hkind]; rfl)
  next => exact agree_complain hkey _

theorem agree_stmtBody :
    Agree (∀ allowed, fieldNames key.text = some allowed → Known allowed body)
      StmtLayer.Reordered (stmtBody key body) (stmtBody key' body') := by
  unfold stmtBody
  rw [hkey.text_eq]
  split
  next => exact .ok (.expression hbody)
  next =>
    rw [hkey.position_eq]
    exact .ok (.print hbody)
  next hkind => exact (agree_varLayer hkey hbody).mono fun h => h _ (by rw [hkind]; rfl)
  next hkind => exact (agree_iteLayer hkey hbody).mono fun h => h _ (by rw [hkind]; rfl)
  next =>
    rw [hkey.position_eq]
    exact .ok (.block hbody)
  next => exact agree_complain hkey _

end Layers

/-! ## Documents with known fields -/

/-- All mappings of the document that hold the fields of a node have known fields only, each of them
once. -/
inductive KnownFields : Node → Prop where
  | scalar {label text} : KnownFields (.scalar label text)
  | sequence {label items} : (∀ item ∈ items, KnownFields item) →
    KnownFields (.sequence label items)
  | mapping {label entries} : (∀ key value, entries = [(key, value)] →
      ∀ allowed, fieldNames key.text = some allowed → Known allowed value.deref) →
    (∀ entry ∈ entries, KnownFields entry.1) → (∀ entry ∈ entries, KnownFields entry.2) →
    KnownFields (.mapping label entries)
  | alias {position name target} : KnownFields target → KnownFields (.alias position name target)

theorem KnownFields.within {n m : Node} (hn : KnownFields n) (hm : m.Within n) :
    KnownFields m := by
  induction hm with
  | self => exact hn
  | item hmem _ ih =>
      cases hn with
      | sequence hitems => exact ih (hitems _ hmem)
  | key hmem _ ih =>
      cases hn with
      | mapping _ hkeys _ => exact ih (hkeys _ hmem)
  | value hmem _ ih =>
      cases hn with
      | mapping _ _ hvalues => exact ih (hvalues _ hmem)
  | target _ ih =>
      cases hn with
      | «alias» htarget => exact ih htarget

theorem KnownFields.variant {n key body : Node} (hn : KnownFields n)
    (h : variant n = .ok (key, body)) :
    ∀ allowed, fieldNames key.text = some allowed → Known allowed body := by
  have hderef := hn.within n.deref_within
  unfold Program.variant at h
  split at h
  next label key' value heq =>
    rw [heq] at hderef
    cases h
    cases hderef with
    | mapping hfields _ _ => exact hfields key value rfl
  next => cases h

section Decoding

variable {n n' : Node}

theorem Agree.part {m : Node} {α β γ : Type} {S : β → γ → Prop} {x y : Except DecodeError α}
    {next : α → Except DecodeError β} {next' : α → Except DecodeError γ}
    (h : Agree (KnownFields m) Eq x y) (hm : m.Within n)
    (hnext : ∀ a, Agree (KnownFields n) S (next a) (next' a)) :
    Agree (KnownFields n) S (x >>= next) (y >>= next') :=
  (h.mono fun hn => hn.within hm).bind_same hnext

theorem agree_exprLayer (h : n.Reordered n') :
    Agree (KnownFields n) ExprLayer.Reordered (exprLayer n) (exprLayer n') := by
  unfold exprLayer
  cases hvariant : variant n with
  | error e =>
      obtain ⟨e', hvariant', he⟩ := (agree_variant h).of_error hvariant
      rw [hvariant']
      exact .error he
  | ok parts =>
      obtain ⟨parts', hvariant', hkey, hbody⟩ := (agree_variant h).of_ok (P := True) hvariant
      rw [hvariant']
      exact (agree_exprBody hkey hbody).mono fun hn => hn.variant hvariant

theorem agree_stmtLayer (h : n.Reordered n') :
    Agree (KnownFields n) StmtLayer.Reordered (stmtLayer n) (stmtLayer n') := by
  unfold stmtLayer
  cases hvariant : variant n with
  | error e =>
      obtain ⟨e', hvariant', he⟩ := (agree_variant h).of_error hvariant
      rw [hvariant']
      exact .error he
  | ok parts =>
      obtain ⟨parts', hvariant', hkey, hbody⟩ := (agree_variant h).of_ok (P := True) hvariant
      rw [hvariant']
      exact (agree_stmtBody hkey hbody).mono fun hn => hn.variant hvariant

/-! ## Programs -/

theorem agree_decodeExpr (h : n.Reordered n') :
    Agree (KnownFields n) Eq (decodeExpr n) (decodeExpr n') := by
  induction n using decodeExpr.induct generalizing n' with
  | case1 n err hlayer =>
      obtain ⟨err', hlayer', herr⟩ := (agree_exprLayer h).of_error hlayer
      rw [decodeExpr, hlayer, decodeExpr, hlayer']
      exact .error herr
  | case2 n token value hlayer | case7 n name hlayer =>
      obtain ⟨l', hlayer', hsame⟩ := (agree_exprLayer h).of_ok hlayer
      cases hsame
      rw [decodeExpr, hlayer, decodeExpr, hlayer']
      exact .ok rfl
  | case3 n token inner hlayer ih | case4 n token inner hlayer ih | case8 n token inner hlayer ih =>
      obtain ⟨l', hlayer', hsame⟩ := (agree_exprLayer h).of_ok hlayer
      have hinner := within_exprLayer (m := inner) hlayer (by simp [ExprLayer.children])
      cases hsame
      next hsame =>
        rw [decodeExpr, hlayer, decodeExpr, hlayer']
        exact (ih hsame).part hinner fun _ => .ok rfl
  | case5 n left op right hlayer ihl ihr | case6 n left op right hlayer ihl ihr =>
      obtain ⟨l', hlayer', hsame⟩ := (agree_exprLayer h).of_ok hlayer
      have hleft := within_exprLayer (m := left) hlayer (by simp [ExprLayer.children])
      have hright := within_exprLayer (m := right) hlayer (by simp [ExprLayer.children])
      cases hsame
      next hl hr =>
        rw [decodeExpr, hlayer, decodeExpr, hlayer']
        refine (ihl hl).part hleft fun _ => ?_
        exact (ihr hr).part hright fun _ => .ok rfl

/-- Statements, sequences and lists of items in both orders have the same outcome. -/
theorem agree_decode :
    (∀ n, ∀ n' : Node, n.Reordered n' → Agree (KnownFields n) Eq (decodeStmt n) (decodeStmt n')) ∧
      (∀ n, ∀ n' : Node, n.Reordered n' →
        Agree (KnownFields n) Eq (decodeStmts n) (decodeStmts n')) ∧
      ∀ items, ∀ items' : List Node, List.Forall₂ Node.Reordered items items' →
        Agree (∀ item ∈ items, KnownFields item) Eq (decodeItems items) (decodeItems items') := by
  -- The motives say the same of statements, of sequences and of the items of a sequence.
  apply decodeStmt.mutual_induct
  case case1 =>
    intro n err hlayer n' h
    obtain ⟨err', hlayer', herr⟩ := (agree_stmtLayer h).of_error hlayer
    rw [decodeStmt, hlayer, decodeStmt, hlayer']
    exact .error herr
  case case2 =>
    intro n expr hlayer n' h
    obtain ⟨l', hlayer', hsame⟩ := (agree_stmtLayer h).of_ok hlayer
    have hexpr := within_stmtLayer (m := expr) hlayer (by simp [StmtLayer.children])
    cases hsame with
    | expression hsame =>
        rw [decodeStmt, hlayer, decodeStmt, hlayer']
        exact (agree_decodeExpr hsame).part hexpr fun _ => .ok rfl
  case case3 =>
    intro n token expr hlayer n' h
    obtain ⟨l', hlayer', hsame⟩ := (agree_stmtLayer h).of_ok hlayer
    have hexpr := within_stmtLayer (m := expr) hlayer (by simp [StmtLayer.children])
    cases hsame with
    | print hsame =>
        rw [decodeStmt, hlayer, decodeStmt, hlayer']
        exact (agree_decodeExpr hsame).part hexpr fun _ => .ok rfl
  case case4 =>
    intro n name hlayer n' h
    obtain ⟨l', hlayer', hsame⟩ := (agree_stmtLayer h).of_ok hlayer
    cases hsame with
    | var hinit =>
        cases hinit
        rw [decodeStmt, hlayer, decodeStmt, hlayer']
        exact .ok rfl
  case case5 =>
    intro n name init hlayer n' h
    obtain ⟨l', hlayer', hsame⟩ := (agree_stmtLayer h).of_ok hlayer
    have hinit := within_stmtLayer (m := init) hlayer (by simp [StmtLayer.children])
    cases hsame with
    | var hsame =>
        cases hsame with
        | some hsame =>
            rw [decodeStmt, hlayer, decodeStmt, hlayer']
            exact (agree_decodeExpr hsame).part hinit fun _ => .ok rfl
  case case6 =>
    intro n token condition yes hlayer ih n' h
    obtain ⟨l', hlayer', hsame⟩ := (agree_stmtLayer h).of_ok hlayer
    have hcondition := within_stmtLayer (m := condition) hlayer (by simp [StmtLayer.children])
    have hyes := within_stmtLayer (m := yes) hlayer (by simp [StmtLayer.children])
    cases hsame with
    | ite hc hy hno =>
        cases hno
        rw [decodeStmt, hlayer, decodeStmt, hlayer']
        refine (agree_decodeExpr hc).part hcondition fun _ => ?_
        exact (ih _ hy).part hyes fun _ => .ok rfl
  case case7 =>
    intro n token condition yes no hlayer ihyes ihno n' h
    obtain ⟨l', hlayer', hsame⟩ := (agree_stmtLayer h).of_ok hlayer
    have hcondition := within_stmtLayer (m := condition) hlayer (by simp [StmtLayer.children])
    have hyes := within_stmtLayer (m := yes) hlayer (by simp [StmtLayer.children])
    have hno := within_stmtLayer (m := no) hlayer (by simp [StmtLayer.children])
    cases hsame with
    | ite hc hy hsame =>
        cases hsame with
        | some hsame =>
            rw [decodeStmt, hlayer, decodeStmt, hlayer']
            refine (agree_decodeExpr hc).part hcondition fun _ => ?_
            refine (ihyes _ hy).part hyes fun _ => ?_
            exact (ihno _ hsame).part hno fun _ => .ok rfl
  case case8 =>
    intro n token body hlayer ih n' h
    obtain ⟨l', hlayer', hsame⟩ := (agree_stmtLayer h).of_ok hlayer
    have hbody := within_stmtLayer (m := body) hlayer (by simp [StmtLayer.children])
    cases hsame with
    | block hsame =>
        rw [decodeStmt, hlayer, decodeStmt, hlayer']
        exact (ih _ hsame).part hbody fun _ => .ok rfl
  case case9 =>
    intro n label items hderef ih n' h
    have hsame := h.deref
    have hwithin := n.deref_within
    rw [hderef] at hsame hwithin
    rw [decodeStmts, hderef, decodeStmts]
    generalize n'.deref = m' at hsame ⊢
    cases hsame with
    | sequence hitems =>
        refine (ih _ hitems).mono fun hn item hitem => hn.within ?_
        exact Node.Within.trans (.item hitem .self) hwithin
  case case10 =>
    intro n hother n' h
    have hsame := h.deref
    rw [decodeStmts, decodeStmts]
    generalize n.deref = m at hsame hother ⊢
    generalize n'.deref = m' at hsame ⊢
    cases hsame with
    | sequence _ => exact (hother _ _ rfl).elim
    | scalar | mapping _ _ _ | «alias» _ | endless => exact .error fun _ => rfl
  case case11 =>
    intro items' h
    cases h
    rw [decodeItems]
    exact .ok rfl
  case case12 =>
    intro item rest ihitem ihrest items' h
    cases h with
    | cons hitem hrest =>
        rw [decodeItems, decodeItems]
        refine ((ihitem _ hitem).mono fun hn => hn item List.mem_cons_self).bind_same fun _ => ?_
        refine ((ihrest _ hrest).mono fun hn => ?_).bind_same fun _ => .ok rfl
        exact fun item hitem => hn item (List.mem_cons_of_mem _ hitem)

end Decoding

/-- The order of entries in the mappings of a document does not matter: with any other order it is
decoded if it was decoded before, and into the same program. If its fields are known ones that come
once, its error stays the same too. -/
theorem decodeStmts_reordered {n n' : Node} (h : n.Reordered n') :
    (∀ program, decodeStmts n' = .ok program ↔ decodeStmts n = .ok program) ∧
      (KnownFields n → decodeStmts n' = decodeStmts n) := by
  have hagree := agree_decode.2.1 n n' h
  generalize decodeStmts n = x at hagree ⊢
  generalize decodeStmts n' = y at hagree ⊢
  cases hagree with
  | ok hsame =>
      subst hsame
      exact ⟨fun program => Iff.rfl, fun _ => rfl⟩
  | error herror => exact ⟨by simp, fun hknown => by rw [herror hknown]⟩

/-- The fields in `{name: x, value: {literal: a}, line: none}`. -/
def namelessLine : List (Node × Node) :=
  [(leaf 1 25 "name", leaf 1 31 "x"),
    (leaf 1 34 "value", pair 1 41 (leaf 1 42 "literal") (leaf 1 51 "a")),
    (leaf 1 55 "line", leaf 1 61 "none")]

/-- The document `- expression: {assign: …}` with the given fields of the assignment. -/
def assignment (entries : List (Node × Node)) : Node :=
  .sequence ⟨⟨1, 1⟩, "!!seq", none⟩
    [pair 1 3 (leaf 1 3 "expression")
      (pair 1 15 (leaf 1 16 "assign") (.mapping ⟨⟨1, 24⟩, "!!map", none⟩ entries))]

theorem assignment_reordered {entries entries' : List (Node × Node)} (h : entries.Perm entries') :
    (assignment entries).Reordered (assignment entries') := by
  have entry {label : Label} {key value value' : Node} (hvalue : value.Reordered value') :
      Node.Reordered (.mapping label [(key, value)]) (.mapping label [(key, value')]) := by
    have hvalues : List.Forall₂ Node.Reordered ([(key, value)].map Prod.snd)
        ([(key, value')].map Prod.snd) := .cons hvalue .nil
    exact .mapping (.cons (.refl key) .nil) hvalues (.refl _)
  exact .sequence (.cons (entry (entry (.of_perm h))) .nil)

theorem knownFields_pair {line column : Nat} {key value : Node} (hkey : KnownFields key)
    (hvalue : KnownFields value)
    (hfields : ∀ allowed, fieldNames key.text = some allowed → Known allowed value.deref) :
    KnownFields (pair line column key value) := by
  refine .mapping ?_ (List.forall_mem_singleton.2 hkey) (List.forall_mem_singleton.2 hvalue)
  intro key' value' heq
  cases heq
  exact hfields

theorem knownFields_namelessLine : KnownFields (assignment namelessLine) := by
  have hliteral : KnownFields (pair 1 41 (leaf 1 42 "literal") (leaf 1 51 "a")) :=
    knownFields_pair .scalar .scalar fun _ h => by cases h
  have hfields : KnownFields (.mapping ⟨⟨1, 24⟩, "!!map", none⟩ namelessLine) := by
    refine .mapping (fun _ _ h => by cases h) (by simp [namelessLine, leaf, KnownFields.scalar]) ?_
    exact List.forall_mem_cons.2
      ⟨.scalar, List.forall_mem_cons.2 ⟨hliteral, List.forall_mem_singleton.2 .scalar⟩⟩
  refine .sequence (List.forall_mem_singleton.2 ?_)
  refine knownFields_pair .scalar (knownFields_pair .scalar hfields ?_) fun _ h => by cases h
  intro allowed hallowed label entries heq
  cases hallowed
  cases heq
  exact ⟨⟨_, rfl⟩, by simp [namelessLine, leaf, Node.text], by simp [namelessLine, leaf, Node.text]⟩

theorem decodeStmts_namelessLine_reversed :
    (assignment namelessLine).Reordered (assignment namelessLine.reverse) ∧
      KnownFields (assignment namelessLine) ∧
      decodeStmts (assignment namelessLine.reverse) = .error ⟨⟨1, 61⟩, .badLine⟩ := by
  have hsame := assignment_reordered (List.reverse_perm namelessLine).symm
  have herror : decodeStmts (assignment namelessLine) = .error ⟨⟨1, 61⟩, .badLine⟩ := by cbv
  refine ⟨hsame, knownFields_namelessLine, ?_⟩
  exact ((decodeStmts_reordered hsame).2 knownFields_namelessLine).trans herror

end TreeScript.Program
