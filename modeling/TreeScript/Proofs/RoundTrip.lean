import TreeScript.Proofs.Acceptance
import TreeScript.Proofs.Canonical

/-!
# Decoding undoes encoding

The canonical document of a tree is one of the format, and stands for a tree with the same outline.
Decoding finds that tree, so that trees with different outlines have different documents.
-/

namespace TreeScript

theorem Token.outline_congr {t u : Token} (hkind : t.kind = u.kind) (hlexeme : t.lexeme = u.lexeme)
    (hliteral : t.literal = u.literal) (hline : t.line = u.line) : t.outline = u.outline := by
  simp only [outline, hkind, hlexeme, hliteral, hline]

theorem Literal.outline_outline (value : Literal) : value.outline.outline = value.outline := by
  cases value with
  | number x => exact congrArg Literal.number (Yaml.Scalar.representative_representative x)
  | nil | bool | integer | text | foreign => rfl

theorem Token.Marks.outline_eq {mark : Token.Kind} {t : Token} (h : t.Marks mark) :
    (Token.ofKind mark t.line).outline = t.outline :=
  outline_congr h.kind.symm h.lexeme.symm h.literal.symm rfl

theorem Token.IsListed.outline_eq {table : Program.Format.Table} {t : Token}
    (h : t.IsListed table) (column : Nat) :
    Token.outline ⟨t.kind, t.lexeme, .nil, t.line, column⟩ = t.outline :=
  outline_congr rfl rfl h.literal.symm rfl

theorem Token.IsIdentifier.outline_eq {t : Token} (h : t.IsIdentifier) :
    (Token.ofName t.lexeme t.line).outline = t.outline :=
  outline_congr h.kind.symm rfl h.literal.symm rfl

namespace Program.Canonical

open Yaml (Node Scalar)

open Format (Variant Record Field Absent Line Name Operator Tagged IsExpr IsStmt IsProgram AreStmts
  Table)

/-! ## Nodes of the format -/

theorem variant_node (line : Int) (kind : String) (body : Node) :
    Variant (node line kind body) kind (kindKey line kind) body :=
  ⟨rfl, _, rfl⟩

theorem line_kindKey {line : Int} (h : IsLine line) (kind : String) :
    ((kindKey line kind).position.line : Int) = line :=
  Int.toNat_of_nonneg (Int.le_of_lt h.1)

structure Fits (allowed names : List String) : Prop where
  line : "line" ∈ allowed
  known : ∀ name ∈ names, name ∈ allowed
  distinct : ("line" :: names).Nodup

instance (allowed names : List String) : Decidable (Fits allowed names) :=
  decidable_of_iff
    ("line" ∈ allowed ∧ (∀ name ∈ names, name ∈ allowed) ∧ ("line" :: names).Nodup)
    ⟨fun h => ⟨h.1, h.2.1, h.2.2⟩, fun h => ⟨h.line, h.known, h.distinct⟩⟩

section Fields

variable {line : Int} {fields : Fields} {allowed : List String}

theorem record_fieldsBody (h : Fits allowed (fields.map Prod.fst)) :
    Record (fieldsBody line fields) allowed (entries line fields) where
  mapping := ⟨_, rfl⟩
  known := by
    intro entry hentry
    obtain ⟨field, hfield, rfl⟩ := List.mem_map.1 hentry
    rcases List.mem_cons.1 hfield with rfl | hother
    · exact h.line
    · exact h.known field.1 (List.mem_map_of_mem hother)
  distinct := List.pairwise_map.2 (List.pairwise_map.1 h.distinct)

theorem field_entries {name : String} {value : Node} (h : (name, value) ∈ fields) :
    Field (entries line fields) name value :=
  ⟨scalar "!!str" name, List.mem_map.2 ⟨(name, value), List.mem_cons_of_mem _ h, rfl⟩, rfl⟩

theorem absent_entries {name : String} (hline : name ≠ "line")
    (hname : name ∉ fields.map Prod.fst) : Absent (entries line fields) name := by
  intro entry hentry
  obtain ⟨field, hfield, rfl⟩ := List.mem_map.1 hentry
  rcases List.mem_cons.1 hfield with rfl | hother
  · exact Ne.symm hline
  · rintro rfl
    exact hname (List.mem_map_of_mem hother)

theorem line_entries (hline : IsLine line) (kindKey : Node) :
    Line (entries line fields) kindKey line := by
  have hcast : (line.toNat : Int) = line := Int.toNat_of_nonneg (Int.le_of_lt hline.1)
  have hmax : (line.toNat : Int) ≤ Scalar.maxInt := hcast ▸ hline.2
  have hfield : Field (entries line fields) "line"
      (scalar "!!int" (String.ofList (Decimal.digitsOf line.toNat))) :=
    ⟨scalar "!!str" "line", List.mem_cons_self, rfl⟩
  have hmeaning := Scalar.ofTag_digitsOf (n := line.toNat) (by have := hline.1; omega) hmax
  refine .given hfield hmeaning ?_ hline.1
  rw [hcast]
  exact if_pos hline.2

theorem operator_entries {table : Table} {op : Token} (hop : op.IsListed table)
    (hfield : ("op", scalar "!!str" op.lexeme) ∈ fields) :
    Operator table (entries op.line fields) op.line ⟨op.kind, op.lexeme, .nil, op.line, 1⟩ :=
  .field (field_entries hfield) hop.listed

end Fields

theorem name_scalar {t : Token} (h : t.IsIdentifier) : Name (scalar "!!str" t.lexeme) t.lexeme :=
  .text rfl h.nonempty h.unreserved

/-! ## Constants -/

theorem tagged_constant {value : Literal} {token : Token} (h : token.IsConstant value) :
    ∃ tag text lexeme, constant value = scalar tag text ∧
      Tagged tag text token.kind lexeme value.outline := by
  obtain ⟨hshown, -, -⟩ := h
  cases value with
  | nil =>
      refine ⟨_, _, "nil", rfl, ?_⟩
      rw [show token.kind = .nilWord from hshown]
      exact .null rfl
  | bool b =>
      cases b with
      | true =>
          refine ⟨_, _, "true", rfl, ?_⟩
          rw [show token.kind = .trueWord from hshown]
          exact .yes rfl (by decide)
      | false =>
          refine ⟨_, _, "false", rfl, ?_⟩
          rw [show token.kind = .falseWord from hshown]
          exact .no rfl (by decide)
  | number x =>
      refine ⟨_, _, Scalar.spelling x, rfl, ?_⟩
      rw [show token.kind = .number from hshown]
      exact .number (.inr rfl) (Scalar.ofTag_spelling x) rfl
  | text s =>
      refine ⟨_, _, s, rfl, ?_⟩
      rw [show token.kind = .string from hshown]
      exact .text rfl
  | integer i => exact hshown.elim
  | foreign typeName => exact hshown.elim

theorem isConstant_kind {value : Literal} {token : Token} (h : token.IsConstant value) :
    token.kind.isConstant := by
  obtain ⟨hshown, -, -⟩ := h
  cases value with
  | nil | number x | text s => rw [show token.kind = _ from hshown]; rfl
  | bool b =>
      rw [show token.kind = _ from hshown]
      cases b <;> rfl
  | integer i => exact hshown.elim
  | foreign typeName => exact hshown.elim

theorem outline_constant {value : Literal} {token : Token} (h : token.IsConstant value)
    (lexeme : String) (column : Nat) :
    Token.outline ⟨token.kind, lexeme, value.outline, token.line, column⟩ = token.outline := by
  simp only [Token.outline, isConstant_kind h, if_true, h.literal, value.outline_outline]

/-! ## Trees -/

theorem isExpr_encodeExpr {e : Expr} (h : e.Expressible) :
    ∃ d, IsExpr Tagged (encodeExpr e) d ∧ d.outline = e.outline := by
  induction e with
  | literal token value =>
      obtain ⟨tag, text, lexeme, hscalar, htagged⟩ := tagged_constant h
      have hexpr : IsExpr Tagged (node token.line "literal" (scalar tag text)) _ :=
        .literal (variant_node token.line "literal" _) htagged
      rw [line_kindKey h.line] at hexpr
      refine ⟨_, by rw [encodeExpr, hscalar]; exact hexpr, ?_⟩
      change Expr.literal _ value.outline.outline = Expr.literal _ value.outline
      rw [outline_constant h lexeme, value.outline_outline]
  | grouping token inner ih =>
      obtain ⟨hmarks, hinner⟩ := h
      obtain ⟨d, hd, houtline⟩ := ih hinner
      refine ⟨_, .grouping (variant_node token.line "grouping" _) hd, ?_⟩
      rw [line_kindKey hmarks.line, Expr.outline, Expr.outline, hmarks.outline_eq, houtline]
  | unary op right ih =>
      obtain ⟨hop, hright⟩ := h
      obtain ⟨r, hr, houtline⟩ := ih hright
      have hfits : Fits ["op", "line", "right"] ["op", "right"] := by decide
      refine ⟨_, .unary (variant_node _ "unary" _) (record_fieldsBody hfits)
        (line_entries hop.line _) (operator_entries hop (by simp))
        (field_entries (by simp)) hr, ?_⟩
      rw [Expr.outline, Expr.outline, hop.outline_eq, houtline]
  | binary left op right ihl ihr =>
      obtain ⟨hop, hleft, hright⟩ := h
      obtain ⟨l, hl, hleft⟩ := ihl hleft
      obtain ⟨r, hr, hright⟩ := ihr hright
      have hfits : Fits ["op", "line", "left", "right"] ["op", "left", "right"] := by decide
      refine ⟨_, .binary (variant_node _ "binary" _) (record_fieldsBody hfits)
        (line_entries hop.line _) (operator_entries hop (by simp))
        (field_entries (by simp)) (field_entries (by simp)) hl hr, ?_⟩
      rw [Expr.outline, Expr.outline, hop.outline_eq, hleft, hright]
  | logical left op right ihl ihr =>
      obtain ⟨hop, hleft, hright⟩ := h
      obtain ⟨l, hl, hleft⟩ := ihl hleft
      obtain ⟨r, hr, hright⟩ := ihr hright
      have hfits : Fits ["op", "line", "left", "right"] ["op", "left", "right"] := by decide
      refine ⟨_, .logical (variant_node _ "logical" _) (record_fieldsBody hfits)
        (line_entries hop.line _) (operator_entries hop (by simp))
        (field_entries (by simp)) (field_entries (by simp)) hl hr, ?_⟩
      rw [Expr.outline, Expr.outline, hop.outline_eq, hleft, hright]
  | «variable» name =>
      have hfits : Fits ["name", "line"] ["name"] := by decide
      refine ⟨_, .variable (variant_node _ "variable" _) (record_fieldsBody hfits)
        (field_entries (by simp)) (name_scalar h)
        (line_entries (Token.IsIdentifier.line h) _), ?_⟩
      rw [Expr.outline, Expr.outline, Token.IsIdentifier.outline_eq h]
  | assign name value ih =>
      obtain ⟨hname, hvalue⟩ := h
      obtain ⟨v, hv, houtline⟩ := ih hvalue
      have hfits : Fits ["name", "line", "value"] ["name", "value"] := by decide
      refine ⟨_, .assign (variant_node _ "assign" _) (record_fieldsBody hfits)
        (field_entries (by simp)) (name_scalar hname) (line_entries hname.line _)
        (field_entries (by simp)) hv, ?_⟩
      rw [Expr.outline, Expr.outline, hname.outline_eq, houtline]

theorem isStmt_encodeStmt :
    (∀ stmt : Stmt, stmt.Expressible →
      ∃ d, IsStmt Tagged (encodeStmt stmt) d ∧ d.outline = stmt.outline) ∧
    ∀ program, Stmt.AllExpressible program →
      ∃ ds, AreStmts Tagged (encodeStmts program) ds ∧
        Stmt.outlines ds = Stmt.outlines program := by
  apply Stmt.induction
  case expression =>
    rintro token expr ⟨htoken, hexpr⟩
    obtain ⟨d, hd, houtline⟩ := isExpr_encodeExpr hexpr
    refine ⟨_, .expression (variant_node 1 "expression" _) hd, ?_⟩
    rw [Stmt.outline, Stmt.outline, htoken, ← Expr.token_outline, ← Expr.token_outline, houtline]
  case print =>
    rintro token expr ⟨hmarks, hexpr⟩
    obtain ⟨d, hd, houtline⟩ := isExpr_encodeExpr hexpr
    refine ⟨_, .print (variant_node token.line "print" _) hd, ?_⟩
    rw [line_kindKey hmarks.line, Stmt.outline, Stmt.outline, hmarks.outline_eq, houtline]
  case varNil =>
    intro name hname
    have hname : name.IsIdentifier := hname
    have hfits : Fits ["name", "line", "init"] ["name"] := by decide
    refine ⟨_, .varNil (variant_node _ "var" _) (record_fieldsBody hfits)
      (field_entries (by simp)) (name_scalar hname) (line_entries hname.line _)
      (absent_entries (by decide) (by simp)), ?_⟩
    rw [Stmt.outline, Stmt.outline, hname.outline_eq]
  case varInit =>
    rintro name init ⟨hname, hinit⟩
    obtain ⟨d, hd, houtline⟩ := isExpr_encodeExpr hinit
    have hfits : Fits ["name", "line", "init"] ["name", "init"] := by decide
    refine ⟨_, .varInit (variant_node _ "var" _) (record_fieldsBody hfits)
      (field_entries (by simp)) (name_scalar hname) (line_entries hname.line _)
      (field_entries (by simp)) hd, ?_⟩
    rw [Stmt.outline, Stmt.outline, hname.outline_eq, houtline]
  case iteNone =>
    rintro token condition yes ih ⟨hmarks, hcondition, hyes⟩
    obtain ⟨c, hc, hcondition⟩ := isExpr_encodeExpr hcondition
    obtain ⟨y, hy, hyes⟩ := ih hyes
    have hfits : Fits ["condition", "then", "else", "line"] ["condition", "then"] := by decide
    refine ⟨_, .iteNone (variant_node _ "if" _) (record_fieldsBody hfits)
      (line_entries hmarks.line _) (field_entries (by simp)) (field_entries (by simp))
      (absent_entries (by decide) (by simp)) hc hy, ?_⟩
    rw [Stmt.outline, Stmt.outline, hmarks.outline_eq, hcondition, hyes]
  case iteSome =>
    rintro token condition yes no ihyes ihno ⟨hmarks, hcondition, hyes, hno⟩
    obtain ⟨c, hc, hcondition⟩ := isExpr_encodeExpr hcondition
    obtain ⟨y, hy, hyes⟩ := ihyes hyes
    obtain ⟨m, hm, hno⟩ := ihno hno
    have hfits : Fits ["condition", "then", "else", "line"] ["condition", "then", "else"] := by
      decide
    refine ⟨_, .iteSome (variant_node _ "if" _) (record_fieldsBody hfits)
      (line_entries hmarks.line _) (field_entries (by simp)) (field_entries (by simp))
      (field_entries (by simp)) hc hy hm, ?_⟩
    rw [Stmt.outline, Stmt.outline, hmarks.outline_eq, hcondition, hyes, hno]
  case block =>
    rintro token body ih ⟨hmarks, hbody⟩
    obtain ⟨ds, hds, houtlines⟩ := ih hbody
    refine ⟨_, .block (variant_node token.line "block" _) (.sequence hds), ?_⟩
    rw [line_kindKey hmarks.line, Stmt.outline, Stmt.outline, hmarks.outline_eq, houtlines]
  case nil => exact fun _ => ⟨[], .nil, rfl⟩
  case cons =>
    rintro stmt rest ihstmt ihrest ⟨hstmt, hrest⟩
    obtain ⟨d, hd, houtline⟩ := ihstmt hstmt
    obtain ⟨ds, hds, houtlines⟩ := ihrest hrest
    refine ⟨_, .cons hd hds, ?_⟩
    rw [Stmt.outlines, Stmt.outlines, houtline, houtlines]

/-! ## Documents without aliases -/

theorem resolved_node {body : Node} (h : body.Resolved) (line : Int) (kind : String) :
    (node line kind body).Resolved :=
  Node.resolved_mapping (List.forall_mem_singleton.2 h)

theorem resolved_record {fields : Fields} (h : ∀ field ∈ fields, field.2.Resolved) (line : Int)
    (kind : String) : (record line kind fields).Resolved := by
  refine resolved_node (Node.resolved_mapping fun entry hentry => ?_) _ kind
  obtain ⟨field, hfield, rfl⟩ := List.mem_map.1 hentry
  rcases List.mem_cons.1 hfield with rfl | hother
  · rfl
  · exact h field hother

theorem resolved_scalar (tag text : String) : (scalar tag text).Resolved := rfl

theorem resolved_constant (value : Literal) : (constant value).Resolved := by
  cases value <;> rfl

theorem resolved_encodeExpr (e : Expr) : (encodeExpr e).Resolved := by
  induction e with
  | literal token value => exact resolved_node (resolved_constant value) _ _
  | grouping token inner ih => exact resolved_node ih _ _
  | unary op right ih => exact resolved_record (by simp [resolved_scalar, ih]) _ _
  | binary left op right ihl ihr =>
      exact resolved_record (by simp [resolved_scalar, ihl, ihr]) _ _
  | logical left op right ihl ihr =>
      exact resolved_record (by simp [resolved_scalar, ihl, ihr]) _ _
  | «variable» name => exact resolved_record (by simp [resolved_scalar]) _ _
  | assign name value ih => exact resolved_record (by simp [resolved_scalar, ih]) _ _

theorem resolved_encodeStmt :
    (∀ stmt, (encodeStmt stmt).Resolved) ∧
      ∀ program, ∀ item ∈ encodeStmts program, item.Resolved := by
  apply Stmt.induction
  case expression | print => exact fun _ expr => resolved_node (resolved_encodeExpr expr) _ _
  case varNil => exact fun name => resolved_record (by simp [resolved_scalar]) _ _
  case varInit =>
    exact fun name init => resolved_record (by simp [resolved_scalar, resolved_encodeExpr]) _ _
  case iteNone =>
    exact fun token condition yes ih => resolved_record (by simp [resolved_encodeExpr, ih]) _ _
  case iteSome =>
    exact fun token condition yes no ihyes ihno =>
      resolved_record (by simp [resolved_encodeExpr, ihyes, ihno]) _ _
  case block => exact fun token body ih => resolved_node (Node.resolved_sequence ih) _ _
  case nil =>
    intro item hitem
    cases hitem
  case cons =>
    intro stmt rest ihstmt ihrest
    exact List.forall_mem_cons.2 ⟨ihstmt, ihrest⟩

/-! ## The round trip -/

theorem exists_decodeStmts_encode {program : List Stmt} (h : Stmt.AllExpressible program) :
    ∃ decoded, decodeStmts (encode program) = .ok decoded ∧
      Stmt.outlines decoded = Stmt.outlines program := by
  obtain ⟨decoded, hdecoded, houtlines⟩ := isStmt_encodeStmt.2 program h
  have hresolved : (encode program).Resolved :=
    Node.resolved_sequence (resolved_encodeStmt.2 program)
  exact ⟨decoded, (decodeStmts_iff_of_resolved hresolved).2 (.sequence hdecoded), houtlines⟩

/-- The canonical document of a program is decoded as the program, but for columns and the lexemes
of literals. Programs that differ in anything else have different documents. -/
theorem decodeStmts_encode {program : List Stmt} (h : Stmt.AllExpressible program) :
    (∃ decoded, decodeStmts (encode program) = .ok decoded ∧
      Stmt.outlines decoded = Stmt.outlines program) ∧
    ∀ other, Stmt.AllExpressible other → encode other = encode program →
      Stmt.outlines other = Stmt.outlines program := by
  obtain ⟨decoded, hdecoded, houtlines⟩ := exists_decodeStmts_encode h
  refine ⟨⟨decoded, hdecoded, houtlines⟩, fun other hother hsame => ?_⟩
  obtain ⟨decoded', hdecoded', houtlines'⟩ := exists_decodeStmts_encode hother
  rw [hsame, hdecoded] at hdecoded'
  cases hdecoded'
  exact houtlines'.symm.trans houtlines

/-- The program `var x = -0; if (x == NaN) print "y";` on three lines, one of which is the last one
there can be. -/
def strangeNumbers : List Stmt :=
  [.var (.ofName "x" 2)
      (some (.literal ⟨.number, "-0", .number ⟨0x8000000000000000⟩, 2, 9⟩
        (.number ⟨0x8000000000000000⟩))),
    .ite (.ofKind .ifWord 9223372036854775807)
      (.binary (.variable (.ofName "x" 3)) (.ofKind .equalEqual 3)
        (.literal ⟨.number, "NaN", .number ⟨0x7FF8000000000000⟩, 3, 10⟩
          (.number ⟨0x7FF8000000000000⟩)))
      (.print (.ofKind .printWord 4) (.literal ⟨.string, "y", .text "y", 4, 9⟩ (.text "y"))) none]

theorem decodeStmts_encode_strangeNumbers :
    Stmt.AllExpressible strangeNumbers ∧
      ∃ decoded, decodeStmts (encode strangeNumbers) = .ok decoded ∧
        Stmt.outlines decoded = Stmt.outlines strangeNumbers := by
  have hx (line : Int) (hline : IsLine line) : (Token.ofName "x" line).IsIdentifier :=
    ⟨rfl, (by decide : "x" ≠ ""), (by decide : "x" ∉ Format.reservedWords), rfl, hline⟩
  have hprogram : Stmt.AllExpressible strangeNumbers := by
    refine ⟨⟨hx 2 (by decide), ⟨rfl, rfl, by decide⟩⟩,
      ⟨⟨rfl, rfl, rfl, by decide⟩, ?_, ?_⟩, trivial⟩
    · exact ⟨⟨by decide, rfl, by decide⟩, hx 3 (by decide), ⟨rfl, rfl, by decide⟩⟩
    · exact ⟨⟨rfl, rfl, rfl, by decide⟩, ⟨rfl, rfl, by decide⟩⟩
  exact ⟨hprogram, (decodeStmts_encode hprogram).1⟩

end Program.Canonical

end TreeScript
