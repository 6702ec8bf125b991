import TreeScript.Proofs.Layers
import TreeScript.Proofs.Run

/-!
# What decoding accepts

Decoding finds the program that a document stands for, and fails where there is none. A scalar that
is tagged as null makes a literal whatever its text is, so that a text that is no null is accepted.
-/

namespace TreeScript.Program

open Yaml (Node Scalar)

open Format

/-! ## Soundness -/

section Nodes

variable {n key body : Node} {kind : String}

theorem Format.Variant.resolved (h : Variant n kind key body) (hn : n.Resolved) :
    body.Resolved := by
  obtain ⟨-, label, rfl⟩ := h
  exact hn.value _ List.mem_cons_self

theorem Format.Record.resolved {allowed : List String} {entries : Entries}
    (h : Record body allowed entries) (hbody : body.Resolved) {name : String} {value : Node}
    (hvalue : Field entries name value) : value.Resolved := by
  obtain ⟨label, rfl⟩ := h.mapping
  obtain ⟨key, hmem, -⟩ := hvalue
  exact hbody.value _ hmem

def ExprLayer.Explains (n : Node) : ExprLayer → Prop
  | .literal token value => IsExpr Tagged n (.literal token value)
  | .grouping token inner =>
    inner.Resolved ∧ ∀ e, IsExpr Tagged inner e → IsExpr Tagged n (.grouping token e)
  | .unary op right =>
    right.Resolved ∧ ∀ r, IsExpr Tagged right r → IsExpr Tagged n (.unary op r)
  | .binary left op right =>
    left.Resolved ∧ right.Resolved ∧ ∀ l r, IsExpr Tagged left l → IsExpr Tagged right r →
      IsExpr Tagged n (.binary l op r)
  | .logical left op right =>
    left.Resolved ∧ right.Resolved ∧ ∀ l r, IsExpr Tagged left l → IsExpr Tagged right r →
      IsExpr Tagged n (.logical l op r)
  | .variable name => IsExpr Tagged n (.variable name)
  | .assign name value =>
    value.Resolved ∧ ∀ v, IsExpr Tagged value v → IsExpr Tagged n (.assign name v)

theorem explains_exprLayer (hn : n.Resolved) {l : ExprLayer} (h : exprLayer n = .ok l) :
    l.Explains n := by
  obtain ⟨⟨key, body⟩, hvariant, h⟩ := bind_eq_ok h
  have named {kind : String} (hkind : key.text = kind) : Variant n kind key body :=
    ⟨hkind, (variant_iff hn).1 hvariant⟩
  have hbody : body.Resolved := (named rfl).resolved hn
  change exprBody key body = .ok l at h
  unfold exprBody at h
  split at h
  next hkind =>
    obtain ⟨label, text, kind, lexeme, value, rfl, htagged, rfl⟩ := literalLayer_iff.1 h
    exact .literal (named hkind) htagged
  next hkind =>
    cases h
    exact ⟨hbody, fun e he => .grouping (named hkind) he⟩
  next hkind =>
    obtain ⟨entries, hrecord, line, hline, op, hop, right, hright, rfl⟩ :=
      (unaryLayer_iff hbody).1 h
    refine ⟨hrecord.resolved hbody hright, fun r hr => ?_⟩
    exact .unary (named hkind) hrecord hline hop hright hr
  next hkind =>
    obtain ⟨parts, hparts, h⟩ := bind_eq_ok h
    obtain ⟨entries, hrecord, line, hline, op, hop, left, hleft, right, hright, rfl⟩ :=
      (operands_iff hbody lists_binaryTable).1 hparts
    cases h
    refine ⟨hrecord.resolved hbody hleft, hrecord.resolved hbody hright, fun l r hl hr => ?_⟩
    exact .binary (named hkind) hrecord hline hop hleft hright hl hr
  next hkind =>
    obtain ⟨parts, hparts, h⟩ := bind_eq_ok h
    obtain ⟨entries, hrecord, line, hline, op, hop, left, hleft, right, hright, rfl⟩ :=
      (operands_iff hbody lists_logicalTable).1 hparts
    cases h
    refine ⟨hrecord.resolved hbody hleft, hrecord.resolved hbody hright, fun l r hl hr => ?_⟩
    exact .logical (named hkind) hrecord hline hop hleft hright hl hr
  next hkind =>
    obtain ⟨name, hname, rfl⟩ | ⟨entries, hrecord, node, hnode, name, hname, line, hline, rfl⟩ :=
      (variableLayer_iff hbody).1 h
    · exact .name (named hkind) hname
    · exact .variable (named hkind) hrecord hnode hname hline
  next hkind =>
    obtain ⟨entries, hrecord, node, hnode, name, hname, line, hline, value, hvalue, rfl⟩ :=
      (assignLayer_iff hbody).1 h
    refine ⟨hrecord.resolved hbody hvalue, fun v hv => ?_⟩
    exact .assign (named hkind) hrecord hnode hname hline hvalue hv
  next => cases h

theorem isExpr_decodeExpr (hn : n.Resolved) {e : Expr} (h : decodeExpr n = .ok e) :
    IsExpr Tagged n e := by
  induction n using decodeExpr.induct generalizing e with
  | case1 n err hlayer => rw [decodeExpr, hlayer] at h; cases h
  | case2 n token value hlayer | case7 n name hlayer =>
      rw [decodeExpr, hlayer] at h
      cases h
      exact explains_exprLayer hn hlayer
  | case3 n token inner hlayer ih | case4 n token inner hlayer ih | case8 n token inner hlayer ih =>
      obtain ⟨hinner, himp⟩ := explains_exprLayer hn hlayer
      rw [decodeExpr, hlayer] at h
      obtain ⟨i, hi, h⟩ := bind_eq_ok h
      cases h
      exact himp i (ih hinner hi)
  | case5 n left op right hlayer ihl ihr | case6 n left op right hlayer ihl ihr =>
      obtain ⟨hleft, hright, himp⟩ := explains_exprLayer hn hlayer
      rw [decodeExpr, hlayer] at h
      obtain ⟨l, hl, h⟩ := bind_eq_ok h
      obtain ⟨r, hr, h⟩ := bind_eq_ok h
      cases h
      exact himp l r (ihl hleft hl) (ihr hright hr)

def StmtLayer.Explains (n : Node) : StmtLayer → Prop
  | .expression expr =>
    expr.Resolved ∧ ∀ e, IsExpr Tagged expr e → IsStmt Tagged n (.expression e.token e)
  | .print token expr =>
    expr.Resolved ∧ ∀ e, IsExpr Tagged expr e → IsStmt Tagged n (.print token e)
  | .var name none => IsStmt Tagged n (.var name none)
  | .var name (some init) =>
    init.Resolved ∧ ∀ e, IsExpr Tagged init e → IsStmt Tagged n (.var name (some e))
  | .ite token condition yes none =>
    condition.Resolved ∧ yes.Resolved ∧ ∀ c y, IsExpr Tagged condition c → IsStmt Tagged yes y →
      IsStmt Tagged n (.ite token c y none)
  | .ite token condition yes (some no) =>
    condition.Resolved ∧ yes.Resolved ∧ no.Resolved ∧
      ∀ c y m, IsExpr Tagged condition c → IsStmt Tagged yes y → IsStmt Tagged no m →
        IsStmt Tagged n (.ite token c y (some m))
  | .block token body =>
    body.Resolved ∧ ∀ program, IsProgram Tagged body program →
      IsStmt Tagged n (.block token program)

theorem explains_stmtLayer (hn : n.Resolved) {l : StmtLayer} (h : stmtLayer n = .ok l) :
    l.Explains n := by
  obtain ⟨⟨key, body⟩, hvariant, h⟩ := bind_eq_ok h
  have named {kind : String} (hkind : key.text = kind) : Variant n kind key body :=
    ⟨hkind, (variant_iff hn).1 hvariant⟩
  have hbody : body.Resolved := (named rfl).resolved hn
  change stmtBody key body = .ok l at h
  unfold stmtBody at h
  split at h
  next hkind =>
    cases h
    exact ⟨hbody, fun e he => .expression (named hkind) he⟩
  next hkind =>
    cases h
    exact ⟨hbody, fun e he => .print (named hkind) he⟩
  next hkind =>
    obtain ⟨entries, hrecord, node, hnode, name, hname, line, hline, rfl⟩ :=
      (varLayer_iff hbody).1 h
    cases hinit : (fieldsOf entries).lookup "init" with
    | none =>
        have habsent := (lookup_none_iff hrecord).1 hinit
        exact .varNil (named hkind) hrecord hnode hname hline habsent
    | some init =>
        have hfield := (lookup_iff hrecord).1 hinit
        refine ⟨hrecord.resolved hbody hfield, fun e he => ?_⟩
        exact .varInit (named hkind) hrecord hnode hname hline hfield he
  next hkind =>
    obtain ⟨entries, hrecord, line, hline, condition, hcondition, yes, hyes, rfl⟩ :=
      (iteLayer_iff hbody).1 h
    have hc := hrecord.resolved hbody hcondition
    have hy := hrecord.resolved hbody hyes
    cases hno : (fieldsOf entries).lookup "else" with
    | none =>
        have habsent := (lookup_none_iff hrecord).1 hno
        refine ⟨hc, hy, fun c y hc hy => ?_⟩
        exact .iteNone (named hkind) hrecord hline hcondition hyes habsent hc hy
    | some no =>
        have hfield := (lookup_iff hrecord).1 hno
        refine ⟨hc, hy, hrecord.resolved hbody hfield, fun c y m hc hy hm => ?_⟩
        exact .iteSome (named hkind) hrecord hline hcondition hyes hfield hc hy hm
  next hkind =>
    cases h
    exact ⟨hbody, fun program hprogram => .block (named hkind) hprogram⟩
  next => cases h

theorem decode_format :
    (∀ n stmt, n.Resolved → decodeStmt n = .ok stmt → IsStmt Tagged n stmt) ∧
    (∀ n program, n.Resolved → decodeStmts n = .ok program → IsProgram Tagged n program) ∧
    ∀ items program, (∀ item ∈ items, item.Resolved) → decodeItems items = .ok program →
      AreStmts Tagged items program := by
  -- The motives say the same of statements, of sequences and of the items of a sequence.
  apply decodeStmt.mutual_induct
  case case1 =>
    intro n err hlayer stmt hn h
    rw [decodeStmt, hlayer] at h
    cases h
  case case2 =>
    intro n expr hlayer stmt hn h
    obtain ⟨hexpr, himp⟩ := explains_stmtLayer hn hlayer
    rw [decodeStmt, hlayer] at h
    obtain ⟨e, he, h⟩ := bind_eq_ok h
    cases h
    exact himp e (isExpr_decodeExpr hexpr he)
  case case3 =>
    intro n token expr hlayer stmt hn h
    obtain ⟨hexpr, himp⟩ := explains_stmtLayer hn hlayer
    rw [decodeStmt, hlayer] at h
    obtain ⟨e, he, h⟩ := bind_eq_ok h
    cases h
    exact himp e (isExpr_decodeExpr hexpr he)
  case case4 =>
    intro n name hlayer stmt hn h
    rw [decodeStmt, hlayer] at h
    cases h
    exact explains_stmtLayer hn hlayer
  case case5 =>
    intro n name init hlayer stmt hn h
    obtain ⟨hexpr, himp⟩ := explains_stmtLayer hn hlayer
    rw [decodeStmt, hlayer] at h
    obtain ⟨e, he, h⟩ := bind_eq_ok h
    cases h
    exact himp e (isExpr_decodeExpr hexpr he)
  case case6 =>
    intro n token condition yes hlayer ih stmt hn h
    obtain ⟨hcondition, hyes, himp⟩ := explains_stmtLayer hn hlayer
    rw [decodeStmt, hlayer] at h
    obtain ⟨c, hc, h⟩ := bind_eq_ok h
    obtain ⟨y, hy, h⟩ := bind_eq_ok h
    cases h
    exact himp c y (isExpr_decodeExpr hcondition hc) (ih y hyes hy)
  case case7 =>
    intro n token condition yes no hlayer ihyes ihno stmt hn h
    obtain ⟨hcondition, hyes, hno, himp⟩ := explains_stmtLayer hn hlayer
    rw [decodeStmt, hlayer] at h
    obtain ⟨c, hc, h⟩ := bind_eq_ok h
    obtain ⟨y, hy, h⟩ := bind_eq_ok h
    obtain ⟨m, hm, h⟩ := bind_eq_ok h
    cases h
    exact himp c y m (isExpr_decodeExpr hcondition hc) (ihyes y hyes hy) (ihno m hno hm)
  case case8 =>
    intro n token body hlayer ih stmt hn h
    obtain ⟨hbody, himp⟩ := explains_stmtLayer hn hlayer
    rw [decodeStmt, hlayer] at h
    obtain ⟨b, hb, h⟩ := bind_eq_ok h
    cases h
    exact himp b (ih b hbody hb)
  case case9 =>
    intro n label items hderef ih program hn h
    rw [decodeStmts, hderef] at h
    rw [hn.deref] at hderef
    subst hderef
    exact .sequence (ih program hn.item h)
  case case10 =>
    intro n hother program hn h
    rw [decodeStmts] at h
    split at h
    next label items hderef => exact (hother label items hderef).elim
    next => cases h
  case case11 =>
    intro program _ h
    rw [decodeItems] at h
    cases h
    exact .nil
  case case12 =>
    intro item rest ihitem ihrest program hitems h
    rw [decodeItems] at h
    obtain ⟨s, hs, h⟩ := bind_eq_ok h
    obtain ⟨ss, hss, h⟩ := bind_eq_ok h
    cases h
    obtain ⟨hitem, hrest⟩ := List.forall_mem_cons.1 hitems
    exact .cons (ihitem s hitem hs) (ihrest ss hrest hss)

/-! ## Completeness -/

theorem exprLayer_of_variant (hn : n.Resolved) (h : Variant n kind key body) :
    exprLayer n = exprBody key body := by
  rw [exprLayer, (variant_iff hn).2 h.2]
  rfl

theorem decodeExpr_of_isExpr {e : Expr} (h : IsExpr Tagged n e) (hn : n.Resolved) :
    decodeExpr n = .ok e := by
  induction h with
  | literal hvariant htagged =>
      have hlayer := exprLayer_of_variant hn hvariant
      simp only [exprBody, hvariant.1] at hlayer
      rw [literalLayer_iff.2 ⟨_, _, _, _, _, rfl, htagged, rfl⟩] at hlayer
      rw [decodeExpr, hlayer]
  | grouping hvariant hinner ih =>
      have hlayer := exprLayer_of_variant hn hvariant
      simp only [exprBody, hvariant.1] at hlayer
      rw [decodeExpr, hlayer]
      exact bind_of_ok (ih (hvariant.resolved hn)) rfl
  | unary hvariant hrecord hline hop hright hr ih =>
      have hbody := hvariant.resolved hn
      have hlayer := exprLayer_of_variant hn hvariant
      simp only [exprBody, hvariant.1] at hlayer
      rw [(unaryLayer_iff hbody).2 ⟨_, hrecord, _, hline, _, hop, _, hright, rfl⟩] at hlayer
      rw [decodeExpr, hlayer]
      exact bind_of_ok (ih (hrecord.resolved hbody hright)) rfl
  | binary hvariant hrecord hline hop hleft hright hl hr ihl ihr =>
      have hbody := hvariant.resolved hn
      have hlayer := exprLayer_of_variant hn hvariant
      have hparts := (operands_iff hbody lists_binaryTable).2
        ⟨_, hrecord, _, hline, _, hop, _, hleft, _, hright, rfl⟩
      simp only [exprBody, hvariant.1, hparts] at hlayer
      rw [decodeExpr, hlayer]
      refine bind_of_ok (ihl (hrecord.resolved hbody hleft)) ?_
      exact bind_of_ok (ihr (hrecord.resolved hbody hright)) rfl
  | logical hvariant hrecord hline hop hleft hright hl hr ihl ihr =>
      have hbody := hvariant.resolved hn
      have hlayer := exprLayer_of_variant hn hvariant
      have hparts := (operands_iff hbody lists_logicalTable).2
        ⟨_, hrecord, _, hline, _, hop, _, hleft, _, hright, rfl⟩
      simp only [exprBody, hvariant.1, hparts] at hlayer
      rw [decodeExpr, hlayer]
      refine bind_of_ok (ihl (hrecord.resolved hbody hleft)) ?_
      exact bind_of_ok (ihr (hrecord.resolved hbody hright)) rfl
  | name hvariant hname =>
      have hlayer := exprLayer_of_variant hn hvariant
      simp only [exprBody, hvariant.1] at hlayer
      rw [(variableLayer_iff (hvariant.resolved hn)).2 (.inl ⟨_, hname, rfl⟩)] at hlayer
      rw [decodeExpr, hlayer]
  | «variable» hvariant hrecord hnamed hname hline =>
      have hlayer := exprLayer_of_variant hn hvariant
      simp only [exprBody, hvariant.1] at hlayer
      rw [(variableLayer_iff (hvariant.resolved hn)).2
        (.inr ⟨_, hrecord, _, hnamed, _, hname, _, hline, rfl⟩)] at hlayer
      rw [decodeExpr, hlayer]
  | assign hvariant hrecord hnamed hname hline hvalue hv ih =>
      have hbody := hvariant.resolved hn
      have hlayer := exprLayer_of_variant hn hvariant
      simp only [exprBody, hvariant.1] at hlayer
      rw [(assignLayer_iff hbody).2
        ⟨_, hrecord, _, hnamed, _, hname, _, hline, _, hvalue, rfl⟩] at hlayer
      rw [decodeExpr, hlayer]
      exact bind_of_ok (ih (hrecord.resolved hbody hvalue)) rfl

theorem stmtLayer_of_variant (hn : n.Resolved) (h : Variant n kind key body) :
    stmtLayer n = stmtBody key body := by
  rw [stmtLayer, (variant_iff hn).2 h.2]
  rfl

theorem decodeStmts_sequence (label : Yaml.Label) (items : List Node) :
    decodeStmts (.sequence label items) = decodeItems items := by
  rw [decodeStmts]
  rfl

theorem decode_of_format :
    (∀ stmt n, n.Resolved → IsStmt Tagged n stmt → decodeStmt n = .ok stmt) ∧
      ∀ program items, (∀ item ∈ items, item.Resolved) → AreStmts Tagged items program →
        decodeItems items = .ok program := by
  apply Stmt.induction
  case expression =>
    intro token expr n hn h
    cases h with
    | expression hvariant he =>
        have hlayer := stmtLayer_of_variant hn hvariant
        simp only [stmtBody, hvariant.1] at hlayer
        rw [decodeStmt, hlayer]
        exact bind_of_ok (decodeExpr_of_isExpr he (hvariant.resolved hn)) rfl
  case print =>
    intro token expr n hn h
    cases h with
    | print hvariant he =>
        have hlayer := stmtLayer_of_variant hn hvariant
        simp only [stmtBody, hvariant.1] at hlayer
        rw [decodeStmt, hlayer]
        exact bind_of_ok (decodeExpr_of_isExpr he (hvariant.resolved hn)) rfl
  case varNil =>
    intro name n hn h
    cases h with
    | varNil hvariant hrecord hnamed hname hline habsent =>
        have hlayer := stmtLayer_of_variant hn hvariant
        simp only [stmtBody, hvariant.1] at hlayer
        rw [(varLayer_iff (hvariant.resolved hn)).2
          ⟨_, hrecord, _, hnamed, _, hname, _, hline, rfl⟩,
          (lookup_none_iff hrecord).2 habsent] at hlayer
        rw [decodeStmt, hlayer]
  case varInit =>
    intro name init n hn h
    cases h with
    | varInit hvariant hrecord hnamed hname hline hinit he =>
        have hbody := hvariant.resolved hn
        have hlayer := stmtLayer_of_variant hn hvariant
        simp only [stmtBody, hvariant.1] at hlayer
        rw [(varLayer_iff hbody).2 ⟨_, hrecord, _, hnamed, _, hname, _, hline, rfl⟩,
          (lookup_iff hrecord).2 hinit] at hlayer
        rw [decodeStmt, hlayer]
        exact bind_of_ok (decodeExpr_of_isExpr he (hrecord.resolved hbody hinit)) rfl
  case iteNone =>
    intro token condition yes ih n hn h
    cases h with
    | iteNone hvariant hrecord hline hcondition hyes habsent hc hy =>
        have hbody := hvariant.resolved hn
        have hlayer := stmtLayer_of_variant hn hvariant
        simp only [stmtBody, hvariant.1] at hlayer
        rw [(iteLayer_iff hbody).2 ⟨_, hrecord, _, hline, _, hcondition, _, hyes, rfl⟩,
          (lookup_none_iff hrecord).2 habsent] at hlayer
        rw [decodeStmt, hlayer]
        refine bind_of_ok (decodeExpr_of_isExpr hc (hrecord.resolved hbody hcondition)) ?_
        exact bind_of_ok (ih _ (hrecord.resolved hbody hyes) hy) rfl
  case iteSome =>
    intro token condition yes no ihyes ihno n hn h
    cases h with
    | iteSome hvariant hrecord hline hcondition hyes hno hc hy hm =>
        have hbody := hvariant.resolved hn
        have hlayer := stmtLayer_of_variant hn hvariant
        simp only [stmtBody, hvariant.1] at hlayer
        rw [(iteLayer_iff hbody).2 ⟨_, hrecord, _, hline, _, hcondition, _, hyes, rfl⟩,
          (lookup_iff hrecord).2 hno] at hlayer
        rw [decodeStmt, hlayer]
        refine bind_of_ok (decodeExpr_of_isExpr hc (hrecord.resolved hbody hcondition)) ?_
        refine bind_of_ok (ihyes _ (hrecord.resolved hbody hyes) hy) ?_
        exact bind_of_ok (ihno _ (hrecord.resolved hbody hno) hm) rfl
  case block =>
    intro token program ih n hn h
    cases h with
    | block hvariant hprogram =>
        have hlayer := stmtLayer_of_variant hn hvariant
        simp only [stmtBody, hvariant.1] at hlayer
        have hbody := hvariant.resolved hn
        cases hprogram with
        | sequence hitems =>
            rw [decodeStmt, hlayer]
            exact bind_of_ok ((decodeStmts_sequence _ _).trans (ih _ hbody.item hitems)) rfl
  case nil =>
    intro items _ h
    cases h
    rw [decodeItems]
  case cons =>
    intro stmt program ihstmt ihprogram items hitems h
    cases h with
    | cons hstmt hrest =>
        obtain ⟨hitem, hitems⟩ := List.forall_mem_cons.1 hitems
        rw [decodeItems]
        refine bind_of_ok (ihstmt _ hitem hstmt) ?_
        exact bind_of_ok (ihprogram _ hitems hrest) rfl

/-! ## Programs -/

theorem decodeStmts_iff_of_resolved (hn : n.Resolved) {program : List Stmt} :
    decodeStmts n = .ok program ↔ IsProgram Tagged n program := by
  refine ⟨decode_format.2.1 n program hn, fun h => ?_⟩
  cases h with
  | sequence hitems =>
      rw [decodeStmts_sequence]
      exact decode_of_format.2 program _ hn.item hitems

end Nodes

/-- Decoding gives the program that a document without aliases as keys stands for, and fails just
where it stands for none. -/
theorem decodeStmts_iff_isProgram {n : Node} (h : n.aliasKeys = []) :
    (∀ program, decodeStmts n = .ok program ↔ IsProgram Tagged n.expanded program) ∧
      ((∃ e, decodeStmts n = .error e) ↔ ∀ program, ¬ IsProgram Tagged n.expanded program) := by
  have hiff (program : List Stmt) :
      decodeStmts n = .ok program ↔ IsProgram Tagged n.expanded program := by
    rw [← decodeStmts_congr (Node.bare_expanded h)]
    exact decodeStmts_iff_of_resolved n.aliasFree_expanded.resolved
  refine ⟨hiff, ?_⟩
  constructor
  · rintro ⟨e, he⟩ program hprogram
    have hok := (hiff program).2 hprogram
    rw [he] at hok
    cases hok
  · intro hnone
    cases hdecode : decodeStmts n with
    | ok program => exact (hnone program ((hiff program).1 hdecode)).elim
    | error e => exact ⟨e, rfl⟩

/-- The document
```
- print: &same {literal: a}
- print: *same
```
-/
def printedTwice : Node :=
  let leaf (line column : Nat) (text : String) : Node :=
    .scalar ⟨⟨line, column⟩, "!!str", none⟩ text
  let statement (line : Nat) (e : Node) : Node :=
    .mapping ⟨⟨line, 3⟩, "!!map", none⟩ [(leaf line 3 "print", e)]
  let literal : Node := .mapping ⟨⟨1, 16⟩, "!!map", some "same"⟩
    [(leaf 1 17 "literal", leaf 1 26 "a")]
  .sequence ⟨⟨1, 1⟩, "!!seq", none⟩
    [statement 1 literal, statement 2 (.alias ⟨2, 10⟩ "same" literal)]

theorem decodeStmts_printedTwice :
    decodeStmts printedTwice = .ok
      [.print (.ofKind .printWord 1) (.literal ⟨.string, "a", .text "a", 1, 26⟩ (.text "a")),
        .print (.ofKind .printWord 2) (.literal ⟨.string, "a", .text "a", 1, 26⟩ (.text "a"))] := by
  cbv

theorem isProgram_printedTwice :
    printedTwice.aliasKeys = [] ∧ IsProgram Tagged printedTwice.expanded
      [.print (.ofKind .printWord 1) (.literal ⟨.string, "a", .text "a", 1, 26⟩ (.text "a")),
        .print (.ofKind .printWord 2) (.literal ⟨.string, "a", .text "a", 1, 26⟩ (.text "a"))] :=
  ⟨rfl, ((decodeStmts_iff_isProgram (n := printedTwice) rfl).1 _).1 decodeStmts_printedTwice⟩

def misspelledNull : Node :=
  let leaf (column : Nat) (tag text : String) : Node := .scalar ⟨⟨1, column⟩, tag, none⟩ text
  let pair (column : Nat) (key value : Node) : Node :=
    .mapping ⟨⟨1, column⟩, "!!map", none⟩ [(key, value)]
  let literal := pair 10 (leaf 11 "!!str" "literal") (leaf 20 "!!null" "none")
  .sequence ⟨⟨1, 1⟩, "!!seq", none⟩ [pair 3 (leaf 3 "!!str" "print") literal]

theorem decodeStmts_misspelledNull :
    decodeStmts misspelledNull = .ok
      [.print (.ofKind .printWord 1) (.literal ⟨.nilWord, "nil", .nil, 1, 20⟩ .nil)] := by
  cbv

theorem not_isProgram_misspelledNull (token inner : Token) (value : Literal) :
    ¬ IsProgram Converted misspelledNull.expanded [.print token (.literal inner value)] := by
  have hrefused : Scalar.ofTag "!!null" "none" = none := by decide
  rintro ⟨hitems⟩
  cases hitems with
  | cons hstmt hrest =>
      cases hstmt with
      | print hvariant hexpr =>
          obtain ⟨-, label, heq⟩ := hvariant
          cases heq
          cases hexpr with
          | literal hvariant hconverted =>
              obtain ⟨-, label, heq⟩ := hvariant
              cases heq
              obtain ⟨-, meaning, hmeaning⟩ := hconverted
              rw [hrefused] at hmeaning
              cases hmeaning

/-- A scalar that is tagged as null is accepted even if its text is no null, which a format that
asks for converted literals alone does not allow. -/
theorem decodeStmts_beyond_converted :
    ¬ ∀ n program, decodeStmts n = .ok program ↔ IsProgram Converted n.expanded program := by
  intro hiff
  have hprogram := (hiff _ _).1 decodeStmts_misspelledNull
  exact not_isProgram_misspelledNull _ _ _ hprogram

end TreeScript.Program
