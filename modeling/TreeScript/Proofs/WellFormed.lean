import TreeScript.Program.Decode

/-!
# Well-formed programs

The trees that the language knows: operators stand in the nodes of their kind, names are no reserved
words, constants are constants of the language, and every token stands on a line. A decoded program
is well-formed at every depth. Nodes of a document are `Placed` if they and all nodes below them, on
both sides of every entry and behind every alias, stand on a line.
-/

namespace TreeScript

open Yaml (Node)

/-! ## Tokens, expressions and statements -/

structure Token.IsOperator (allowed : List Token.Kind) (op : Token) : Prop where
  kind : op.kind ∈ allowed
  lexeme : Token.Kind.operator? op.lexeme = some op.kind
  line : 1 ≤ op.line

structure Token.IsName (name : Token) : Prop where
  kind : name.kind = .identifier
  nonempty : name.lexeme ≠ ""
  unreserved : ∀ keyword ∈ Token.Kind.keywords, keyword.text ≠ name.lexeme
  line : 1 ≤ name.line

/-- Whether a constant is one of the language, shown by a token of the given kind. -/
def Literal.ShownBy (kind : Token.Kind) : Literal → Prop
  | .nil => kind = .nilWord
  | .bool b => kind = if b then .trueWord else .falseWord
  | .number _ => kind = .number
  | .text _ => kind = .string
  | .integer _ => False
  | .foreign _ => False

def Expr.WellFormed : Expr → Prop
  | .literal token value =>
    token.literal = value ∧ value.ShownBy token.kind ∧ 1 ≤ token.line
  | .grouping token inner => 1 ≤ token.line ∧ inner.WellFormed
  | .unary op right => op.IsOperator [.minus, .bang] ∧ right.WellFormed
  | .binary left op right =>
    op.IsOperator [.minus, .plus, .slash, .star, .bangEqual, .equalEqual, .greater, .greaterEqual,
      .less, .lessEqual] ∧ left.WellFormed ∧ right.WellFormed
  | .logical left op right =>
    op.IsOperator [.andWord, .orWord] ∧ left.WellFormed ∧ right.WellFormed
  | .variable name => name.IsName
  | .assign name value => name.IsName ∧ value.WellFormed

mutual

def Stmt.WellFormed : Stmt → Prop
  | .expression token expr => 1 ≤ token.line ∧ expr.WellFormed
  | .print token expr => 1 ≤ token.line ∧ expr.WellFormed
  | .var name none => name.IsName
  | .var name (some init) => name.IsName ∧ init.WellFormed
  | .ite token condition yes none =>
    1 ≤ token.line ∧ condition.WellFormed ∧ Stmt.WellFormed yes
  | .ite token condition yes (some no) =>
    1 ≤ token.line ∧ condition.WellFormed ∧ Stmt.WellFormed yes ∧ Stmt.WellFormed no
  | .block token body => 1 ≤ token.line ∧ Stmt.AllWellFormed body

def Stmt.AllWellFormed : List Stmt → Prop
  | [] => True
  | stmt :: rest => Stmt.WellFormed stmt ∧ Stmt.AllWellFormed rest

end

theorem Expr.WellFormed.line {e : Expr} (h : e.WellFormed) : 1 ≤ e.token.line := by
  cases e with
  | literal token value => exact h.2.2
  | grouping token inner => exact h.1
  | unary op right => exact h.1.line
  | binary left op right => exact h.1.line
  | logical left op right => exact h.1.line
  | «variable» name => exact Token.IsName.line h
  | assign name value => exact h.1.line

/-! ## Nodes that stand on a line -/

/-- A node that stands on a line, with all nodes below it. -/
inductive Yaml.Node.Placed : Node → Prop where
  | scalar {label text} : 1 ≤ label.position.line → Placed (.scalar label text)
  | sequence {label items} : 1 ≤ label.position.line → (∀ item ∈ items, Placed item) →
    Placed (.sequence label items)
  | mapping {label entries} : 1 ≤ label.position.line →
    (∀ entry ∈ entries, Placed entry.1) → (∀ entry ∈ entries, Placed entry.2) →
    Placed (.mapping label entries)
  | «alias» {position name target} : 1 ≤ position.line → Placed target →
    Placed (.alias position name target)
  | endless {position} : 1 ≤ position.line → Placed (.endless position)

namespace Yaml.Node.Placed

theorem line {n : Node} (h : n.Placed) : (1 : Int) ≤ n.position.line := by
  have hline : 1 ≤ n.position.line := by cases h <;> assumption
  exact_mod_cast hline

theorem deref {n : Node} (h : n.Placed) : n.deref.Placed := by
  induction h with
  | scalar hline => exact .scalar hline
  | sequence hline hitems => exact .sequence hline hitems
  | mapping hline hkeys hvalues => exact .mapping hline hkeys hvalues
  | «alias» _ _ ih => exact ih
  | endless hline => exact .endless hline

end Yaml.Node.Placed

namespace Program

/-! ## The parts of a layer -/

theorem placed_variant {n key body : Node} (hn : n.Placed) (h : variant n = .ok (key, body)) :
    key.Placed ∧ body.Placed := by
  have hderef := hn.deref
  unfold variant at h
  split at h
  next key' value heq =>
    cases h
    rw [heq] at hderef
    cases hderef with
    | mapping _ hkeys hvalues =>
        exact ⟨hkeys _ List.mem_cons_self, (hvalues _ List.mem_cons_self).deref⟩
  next => cases h

theorem placed_field {n v : Node} {allowed : List String} {f : Fields} {name : String}
    (hn : n.Placed) (hf : fields n allowed = .ok f) (hv : f.lookup name = some v) : v.Placed := by
  unfold fields at hf
  split at hf
  next label entries =>
    cases hn with
    | mapping _ _ hvalues =>
        rcases mem_readFields hf (mem_of_lookup hv) with h | ⟨entry, hentry, heq⟩
        · cases h
        · change v = _ at heq
          rw [heq]
          exact (hvalues entry hentry).deref
  next => cases hf

theorem placed_required {n v : Node} {allowed : List String} {f : Fields} {name : String}
    (hn : n.Placed) (hf : fields n allowed = .ok f) (hv : required n f name = .ok v) : v.Placed :=
  placed_field hn hf (lookup_of_required hv)

theorem lineOf_pos {f : Fields} {key : Node} {line : Int} (hkey : key.Placed)
    (h : lineOf f key = .ok line) : 1 ≤ line := by
  unfold lineOf at h
  split at h
  · cases h
    exact hkey.line
  · split at h
    · split at h
      · cases h
        assumption
      · cases h
    · cases h

theorem nonEmptyText_ne {n : Node} {what text : String} (h : nonEmptyText n what = .ok text) :
    text ≠ "" := by
  unfold nonEmptyText at h
  split at h
  · split at h
    next hcond =>
      cases h
      intro hempty
      simp [hempty] at hcond
    next => cases h
  · cases h

theorem ofWord_eq_identifier {name : String} (h : Token.Kind.ofWord name = .identifier) :
    ∀ keyword ∈ Token.Kind.keywords, keyword.text ≠ name := by
  intro keyword hkeyword htext
  unfold Token.Kind.ofWord at h
  cases hfound : Token.Kind.keywords.find? (·.text == name) with
  | none => exact absurd (beq_iff_eq.2 htext) (List.find?_eq_none.1 hfound keyword hkeyword)
  | some found =>
      rw [hfound, Option.getD_some] at h
      have hmem := List.mem_of_find?_eq_some hfound
      rw [h] at hmem
      exact absurd hmem (by decide)

theorem isName_identifier {n : Node} {what name : String} {line : Int}
    (h : identifier n what = .ok name) (hline : 1 ≤ line) : (Token.ofName name line).IsName := by
  obtain ⟨text, htext, h⟩ := bind_eq_ok h
  split at h
  · cases h
  next hword =>
    cases h
    have hidentifier : Token.Kind.ofWord name = .identifier := by simpa using hword
    exact ⟨rfl, nonEmptyText_ne htext, ofWord_eq_identifier hidentifier, hline⟩

theorem operator?_text {kind : Token.Kind} (h : kind ∈ Token.Kind.operators) :
    Token.Kind.operator? kind.text = some kind := by
  revert kind
  decide

theorem isOperator_operator {n : Node} {f : Fields} {line : Int} {allowed : List Token.Kind}
    {op : Token} (hallowed : allowed ⊆ Token.Kind.operators) (hline : 1 ≤ line)
    (h : operator n f line allowed = .ok op) : op.IsOperator allowed := by
  obtain ⟨node, -, h⟩ := bind_eq_ok h
  split at h
  · split at h
    next kind hfound =>
      cases h
      have hmem := List.mem_of_find?_eq_some hfound
      have htext := List.find?_some hfound
      refine ⟨hmem, ?_, hline⟩
      rw [← eq_of_beq htext]
      exact operator?_text (hallowed hmem)
    next => cases h
  · cases h

/-! ## Layers -/

def ExprLayer.Sound : ExprLayer → Prop
  | .literal token value => (Expr.literal token value).WellFormed
  | .grouping token inner => 1 ≤ token.line ∧ inner.Placed
  | .unary op right => op.IsOperator unaryOperators ∧ right.Placed
  | .binary left op right => op.IsOperator binaryOperators ∧ left.Placed ∧ right.Placed
  | .logical left op right => op.IsOperator logicalOperators ∧ left.Placed ∧ right.Placed
  | .variable name => name.IsName
  | .assign name value => name.IsName ∧ value.Placed

def StmtLayer.Sound : StmtLayer → Prop
  | .expression expr => expr.Placed
  | .print token expr => 1 ≤ token.line ∧ expr.Placed
  | .var name init => name.IsName ∧ ∀ n ∈ init, n.Placed
  | .ite token condition yes no =>
    1 ≤ token.line ∧ condition.Placed ∧ yes.Placed ∧ ∀ n ∈ no, n.Placed
  | .block token body => 1 ≤ token.line ∧ body.Placed

theorem sound_literalLayer {key body : Node} {l : ExprLayer} (hkey : key.Placed)
    (h : literalLayer key body = .ok l) : l.Sound := by
  have hline := hkey.line
  unfold literalLayer at h
  split at h
  next label text =>
    split at h
    · split at h
      · cases h
        exact ⟨rfl, rfl, hline⟩
      · cases h
    · split at h
      · cases h
        exact ⟨rfl, rfl, hline⟩
      · split at h
        · split at h
          next b _ =>
            cases h
            exact ⟨rfl, rfl, hline⟩
          next => cases h
        · split at h
          · cases h
            exact ⟨rfl, rfl, hline⟩
          · cases h
  next => cases h

theorem sound_unaryLayer {key body : Node} {l : ExprLayer} (hkey : key.Placed)
    (hbody : body.Placed) (h : unaryLayer key body = .ok l) : l.Sound := by
  obtain ⟨f, hf, h⟩ := bind_eq_ok h
  obtain ⟨line, hline, h⟩ := bind_eq_ok h
  obtain ⟨op, hop, h⟩ := bind_eq_ok h
  obtain ⟨right, hright, h⟩ := bind_eq_ok h
  cases h
  exact ⟨isOperator_operator (by decide) (lineOf_pos hkey hline) hop,
    placed_required hbody hf hright⟩

theorem sound_operands {key body left right : Node} {op : Token} {allowed : List Token.Kind}
    (hkey : key.Placed) (hbody : body.Placed) (hallowed : allowed ⊆ Token.Kind.operators)
    (h : operands key body allowed = .ok (left, op, right)) :
    op.IsOperator allowed ∧ left.Placed ∧ right.Placed := by
  obtain ⟨f, hf, h⟩ := bind_eq_ok h
  obtain ⟨line, hline, h⟩ := bind_eq_ok h
  obtain ⟨op', hop, h⟩ := bind_eq_ok h
  obtain ⟨l, hl, h⟩ := bind_eq_ok h
  obtain ⟨r, hr, h⟩ := bind_eq_ok h
  cases h
  exact ⟨isOperator_operator hallowed (lineOf_pos hkey hline) hop,
    placed_required hbody hf hl, placed_required hbody hf hr⟩

theorem sound_variableLayer {key body : Node} {l : ExprLayer} (hkey : key.Placed)
    (h : variableLayer key body = .ok l) : l.Sound := by
  unfold variableLayer at h
  split at h
  · obtain ⟨name, hname, h⟩ := bind_eq_ok h
    cases h
    exact isName_identifier hname hkey.line
  · obtain ⟨f, _, h⟩ := bind_eq_ok h
    obtain ⟨node, _, h⟩ := bind_eq_ok h
    obtain ⟨name, hname, h⟩ := bind_eq_ok h
    obtain ⟨line, hline, h⟩ := bind_eq_ok h
    cases h
    exact isName_identifier hname (lineOf_pos hkey hline)

theorem sound_assignLayer {key body : Node} {l : ExprLayer} (hkey : key.Placed)
    (hbody : body.Placed) (h : assignLayer key body = .ok l) : l.Sound := by
  obtain ⟨f, hf, h⟩ := bind_eq_ok h
  obtain ⟨node, _, h⟩ := bind_eq_ok h
  obtain ⟨name, hname, h⟩ := bind_eq_ok h
  obtain ⟨line, hline, h⟩ := bind_eq_ok h
  obtain ⟨value, hvalue, h⟩ := bind_eq_ok h
  cases h
  exact ⟨isName_identifier hname (lineOf_pos hkey hline), placed_required hbody hf hvalue⟩

theorem sound_exprLayer {n : Node} {l : ExprLayer} (hn : n.Placed) (h : exprLayer n = .ok l) :
    l.Sound := by
  obtain ⟨⟨key, body⟩, hvariant, h⟩ := bind_eq_ok h
  obtain ⟨hkey, hbody⟩ := placed_variant hn hvariant
  change exprBody key body = .ok l at h
  unfold exprBody at h
  split at h
  · exact sound_literalLayer hkey h
  · cases h
    exact ⟨hkey.line, hbody⟩
  · exact sound_unaryLayer hkey hbody h
  · obtain ⟨⟨left, op, right⟩, hparts, h⟩ := bind_eq_ok h
    cases h
    exact sound_operands hkey hbody (by decide) hparts
  · obtain ⟨⟨left, op, right⟩, hparts, h⟩ := bind_eq_ok h
    cases h
    exact sound_operands hkey hbody (by decide) hparts
  · exact sound_variableLayer hkey h
  · exact sound_assignLayer hkey hbody h
  · cases h

theorem sound_varLayer {key body : Node} {l : StmtLayer} (hkey : key.Placed)
    (hbody : body.Placed) (h : varLayer key body = .ok l) : l.Sound := by
  obtain ⟨f, hf, h⟩ := bind_eq_ok h
  obtain ⟨node, _, h⟩ := bind_eq_ok h
  obtain ⟨name, hname, h⟩ := bind_eq_ok h
  obtain ⟨line, hline, h⟩ := bind_eq_ok h
  cases h
  exact ⟨isName_identifier hname (lineOf_pos hkey hline),
    fun init hinit => placed_field hbody hf hinit⟩

theorem sound_iteLayer {key body : Node} {l : StmtLayer} (hkey : key.Placed)
    (hbody : body.Placed) (h : iteLayer key body = .ok l) : l.Sound := by
  obtain ⟨f, hf, h⟩ := bind_eq_ok h
  obtain ⟨line, hline, h⟩ := bind_eq_ok h
  obtain ⟨condition, hcondition, h⟩ := bind_eq_ok h
  obtain ⟨yes, hyes, h⟩ := bind_eq_ok h
  cases h
  exact ⟨lineOf_pos hkey hline, placed_required hbody hf hcondition,
    placed_required hbody hf hyes, fun no hno => placed_field hbody hf hno⟩

theorem sound_stmtLayer {n : Node} {l : StmtLayer} (hn : n.Placed) (h : stmtLayer n = .ok l) :
    l.Sound := by
  obtain ⟨⟨key, body⟩, hvariant, h⟩ := bind_eq_ok h
  obtain ⟨hkey, hbody⟩ := placed_variant hn hvariant
  change stmtBody key body = .ok l at h
  unfold stmtBody at h
  split at h
  · cases h
    exact hbody
  · cases h
    exact ⟨hkey.line, hbody⟩
  · exact sound_varLayer hkey hbody h
  · exact sound_iteLayer hkey hbody h
  · cases h
    exact ⟨hkey.line, hbody⟩
  · cases h

/-! ## Decoded programs -/

theorem wellFormed_decodeExpr {n : Node} {e : Expr} (hn : n.Placed) (h : decodeExpr n = .ok e) :
    e.WellFormed := by
  induction n using decodeExpr.induct generalizing e with
  | case1 n err hlayer => rw [decodeExpr, hlayer] at h; cases h
  | case2 n token value hlayer =>
      rw [decodeExpr, hlayer] at h
      cases h
      exact sound_exprLayer hn hlayer
  | case3 n token inner hlayer ih =>
      obtain ⟨hline, hinner⟩ := sound_exprLayer hn hlayer
      rw [decodeExpr, hlayer] at h
      obtain ⟨i, hi, h⟩ := bind_eq_ok h
      cases h
      exact ⟨hline, ih hinner hi⟩
  | case4 n op right hlayer ih =>
      obtain ⟨hop, hright⟩ := sound_exprLayer hn hlayer
      rw [decodeExpr, hlayer] at h
      obtain ⟨r, hr, h⟩ := bind_eq_ok h
      cases h
      exact ⟨hop, ih hright hr⟩
  | case5 n left op right hlayer ihl ihr =>
      obtain ⟨hop, hleft, hright⟩ := sound_exprLayer hn hlayer
      rw [decodeExpr, hlayer] at h
      obtain ⟨l, hl, h⟩ := bind_eq_ok h
      obtain ⟨r, hr, h⟩ := bind_eq_ok h
      cases h
      exact ⟨hop, ihl hleft hl, ihr hright hr⟩
  | case6 n left op right hlayer ihl ihr =>
      obtain ⟨hop, hleft, hright⟩ := sound_exprLayer hn hlayer
      rw [decodeExpr, hlayer] at h
      obtain ⟨l, hl, h⟩ := bind_eq_ok h
      obtain ⟨r, hr, h⟩ := bind_eq_ok h
      cases h
      exact ⟨hop, ihl hleft hl, ihr hright hr⟩
  | case7 n name hlayer =>
      rw [decodeExpr, hlayer] at h
      cases h
      exact sound_exprLayer hn hlayer
  | case8 n name value hlayer ih =>
      obtain ⟨hname, hvalue⟩ := sound_exprLayer hn hlayer
      rw [decodeExpr, hlayer] at h
      obtain ⟨v, hv, h⟩ := bind_eq_ok h
      cases h
      exact ⟨hname, ih hvalue hv⟩

theorem wellFormed_decode :
    (∀ n stmt, n.Placed → decodeStmt n = .ok stmt → stmt.WellFormed) ∧
    (∀ n program, n.Placed → decodeStmts n = .ok program → Stmt.AllWellFormed program) ∧
    ∀ items program, (∀ item ∈ items, item.Placed) → decodeItems items = .ok program →
      Stmt.AllWellFormed program := by
  -- The motives say the same of statements, of sequences and of the items of a sequence.
  apply decodeStmt.mutual_induct
  case case1 =>
    intro n err hlayer stmt hn h
    rw [decodeStmt, hlayer] at h
    cases h
  case case2 =>
    intro n expr hlayer stmt hn h
    rw [decodeStmt, hlayer] at h
    obtain ⟨e, he, h⟩ := bind_eq_ok h
    cases h
    have hwell := wellFormed_decodeExpr (sound_stmtLayer hn hlayer) he
    exact ⟨hwell.line, hwell⟩
  case case3 =>
    intro n token expr hlayer stmt hn h
    obtain ⟨hline, hexpr⟩ := sound_stmtLayer hn hlayer
    rw [decodeStmt, hlayer] at h
    obtain ⟨e, he, h⟩ := bind_eq_ok h
    cases h
    exact ⟨hline, wellFormed_decodeExpr hexpr he⟩
  case case4 =>
    intro n name hlayer stmt hn h
    rw [decodeStmt, hlayer] at h
    cases h
    exact (sound_stmtLayer hn hlayer).1
  case case5 =>
    intro n name init hlayer stmt hn h
    obtain ⟨hname, hinit⟩ := sound_stmtLayer hn hlayer
    rw [decodeStmt, hlayer] at h
    obtain ⟨e, he, h⟩ := bind_eq_ok h
    cases h
    exact ⟨hname, wellFormed_decodeExpr (hinit init rfl) he⟩
  case case6 =>
    intro n token condition yes hlayer ih stmt hn h
    obtain ⟨hline, hcondition, hyes, -⟩ := sound_stmtLayer hn hlayer
    rw [decodeStmt, hlayer] at h
    obtain ⟨c, hc, h⟩ := bind_eq_ok h
    obtain ⟨y, hy, h⟩ := bind_eq_ok h
    cases h
    exact ⟨hline, wellFormed_decodeExpr hcondition hc, ih y hyes hy⟩
  case case7 =>
    intro n token condition yes no hlayer ihyes ihno stmt hn h
    obtain ⟨hline, hcondition, hyes, hno⟩ := sound_stmtLayer hn hlayer
    rw [decodeStmt, hlayer] at h
    obtain ⟨c, hc, h⟩ := bind_eq_ok h
    obtain ⟨y, hy, h⟩ := bind_eq_ok h
    obtain ⟨m, hm, h⟩ := bind_eq_ok h
    cases h
    exact ⟨hline, wellFormed_decodeExpr hcondition hc, ihyes y hyes hy, ihno m (hno no rfl) hm⟩
  case case8 =>
    intro n token body hlayer ih stmt hn h
    obtain ⟨hline, hbody⟩ := sound_stmtLayer hn hlayer
    rw [decodeStmt, hlayer] at h
    obtain ⟨b, hb, h⟩ := bind_eq_ok h
    cases h
    exact ⟨hline, ih b hbody hb⟩
  case case9 =>
    intro n label items hderef ih program hn h
    rw [decodeStmts, hderef] at h
    have hitems := hn.deref
    rw [hderef] at hitems
    cases hitems with
    | sequence _ hitems => exact ih program hitems h
  case case10 =>
    intro n hother program hn h
    rw [decodeStmts] at h
    split at h
    next label items hderef => exact (hother label items hderef).elim
    next => cases h
  case case11 =>
    intro program _ h
    rw [decodeItems] at h
    cases h
    trivial
  case case12 =>
    intro item rest ihitem ihrest program hitems h
    rw [decodeItems] at h
    obtain ⟨s, hs, h⟩ := bind_eq_ok h
    obtain ⟨ss, hss, h⟩ := bind_eq_ok h
    cases h
    have hitem := hitems item List.mem_cons_self
    have hrest := fun other hother => hitems other (List.mem_cons_of_mem item hother)
    exact ⟨ihitem s hitem hs, ihrest ss hrest hss⟩

theorem wellFormed_decodeStmts {n : Node} {program : List Stmt} (hn : n.Placed)
    (h : decodeStmts n = .ok program) : Stmt.AllWellFormed program :=
  wellFormed_decode.2.1 n program hn h

end Program

end TreeScript
