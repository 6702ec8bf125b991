import TreeScript.Proofs.Acceptance
import TreeScript.Proofs.Account
import TreeScript.Proofs.Locality
import TreeScript.Proofs.WholePart

/-!
# Lines that are written out

A node with fields may say on which line it is to stand, with a scalar that stands for a number from
one on. In a document that is decoded all lines are such scalars, and the token of each of these
nodes stands on the line that is written, without the fraction if it has one. Any other line makes
decoding fail, with an error at the line.
-/

namespace TreeScript.Program

open Yaml (Node Scalar Label)

open Format

/-! ## The nodes of a document -/

def fieldKinds : List String := ["unary", "binary", "logical", "variable", "assign", "var", "if"]

def wrapperKinds : List String := ["grouping", "expression", "print", "block"]

def partNames : List String := ["left", "right", "value", "init", "condition", "then", "else"]

/-- The node has the other one right below it, in a document without aliases. -/
inductive Part : Node → Node → Prop where
  | item {label items item} : item ∈ items → Part (.sequence label items) item
  | held {n kind key body} : Variant n kind key body → kind ∈ wrapperKinds → Part n body
  | field {n kind key label entries name value} : Variant n kind key (.mapping label entries) →
    kind ∈ fieldKinds → Field entries name value → name ∈ partNames → Part n value

/-- A node of the document, at any depth. Aliases are replaced by what they stand for. -/
def NodeOf (document m : Node) : Prop := Relation.ReflTransGen Part document.resolved m

def HasLine (n v : Node) : Prop :=
  ∃ kind key label entries, Variant n kind key (.mapping label entries) ∧ kind ∈ fieldKinds ∧
    Field entries "line" v

/-- The node is a scalar that stands for the number, and the number may be a line. -/
def LineNumber (v : Node) (q : ℚ) : Prop :=
  ∃ label text meaning, v = .scalar label text ∧ Scalar.ofTag label.tag text = some meaning ∧
    meaning.IsNumber q ∧ 1 ≤ q ∧ q < 2 ^ 63

theorem Format.Variant.unique {n key key' body body' : Node} {kind kind' : String}
    (h : Variant n kind key body) (h' : Variant n kind' key' body') :
    kind = kind' ∧ key = key' ∧ body = body' := by
  obtain ⟨rfl, label, rfl⟩ := h
  obtain ⟨rfl, label', heq⟩ := h'
  cases heq
  exact ⟨rfl, rfl, rfl⟩

theorem Format.Record.entries_eq {body : Node} {allowed : List String} {entries : Entries}
    (h : Record body allowed entries) {label : Label} {entries' : Entries}
    (heq : body = .mapping label entries') : entries = entries' := by
  obtain ⟨label', rfl⟩ := h.mapping
  cases heq
  rfl

/-! ## Nodes and layers -/

theorem not_mem_wrapperKinds : ∀ kind ∈ fieldKinds, kind ∉ wrapperKinds := by decide

section Parts

variable {n m key body : Node} {kind : String}

theorem part_iff_of_held (hvariant : Variant n kind key body) (hkind : kind ∈ wrapperKinds) :
    Part n m ↔ m = body := by
  constructor
  · intro h
    cases h with
    | item _ =>
        obtain ⟨-, label, heq⟩ := hvariant
        cases heq
    | held hvariant' _ => exact (hvariant.unique hvariant').2.2.symm
    | field hvariant' hkind' _ _ =>
        obtain ⟨rfl, -, -⟩ := hvariant.unique hvariant'
        exact absurd hkind (not_mem_wrapperKinds _ hkind')
  · rintro rfl
    exact .held hvariant hkind

theorem not_part_of_scalar {label : Label} {text : String}
    (hvariant : Variant n kind key (.scalar label text)) (hkind : kind ∉ wrapperKinds) :
    ¬ Part n m := by
  intro h
  cases h with
  | item _ =>
      obtain ⟨-, label, heq⟩ := hvariant
      cases heq
  | held hvariant' hkind' =>
      obtain ⟨rfl, -, -⟩ := hvariant.unique hvariant'
      exact hkind hkind'
  | field hvariant' _ _ _ => cases (hvariant.unique hvariant').2.2

/-- Below a node with fields are the ones of them that hold parts; `names` is the list of these
fields for the kind of the node. -/
theorem part_iff_of_record {allowed : List String} {entries : Entries}
    (hvariant : Variant n kind key body) (hkind : kind ∈ fieldKinds)
    (hrecord : Record body allowed entries) (names : List String)
    (hnames : allowed.filter (· ∈ partNames) = names) :
    Part n m ↔ ∃ name ∈ names, (fieldsOf entries).lookup name = some m := by
  subst hnames
  constructor
  · intro h
    cases h with
    | item _ =>
        obtain ⟨-, label, heq⟩ := hvariant
        cases heq
    | held hvariant' hkind' =>
        obtain ⟨rfl, -, -⟩ := hvariant.unique hvariant'
        exact absurd hkind' (not_mem_wrapperKinds _ hkind)
    | @field _ _ _ label entries' name _ hvariant' _ hfield hname =>
        obtain rfl := hrecord.entries_eq (hvariant.unique hvariant').2.2
        have hknown : name ∈ allowed := by
          obtain ⟨key, hmem, rfl⟩ := hfield
          exact hrecord.known _ hmem
        exact ⟨name, by simp [hknown, hname], (lookup_iff hrecord).2 hfield⟩
  · rintro ⟨name, hname, hfield⟩
    obtain ⟨label, rfl⟩ := hrecord.mapping
    have hpart : name ∈ partNames := by simpa using (List.mem_filter.1 hname).2
    exact .field hvariant hkind ((lookup_iff hrecord).1 hfield) hpart

theorem part_iff_exprLayer (hn : n.Resolved) {l : ExprLayer} (h : exprLayer n = .ok l) :
    Part n m ↔ m ∈ l.children := by
  obtain ⟨⟨key, body⟩, hvariant, h⟩ := bind_eq_ok h
  have named {kind : String} (hkind : key.text = kind) : Variant n kind key body :=
    ⟨hkind, (variant_iff hn).1 hvariant⟩
  have hbody : body.Resolved := (named rfl).resolved hn
  change exprBody key body = .ok l at h
  unfold exprBody at h
  split at h
  next hkind =>
    obtain ⟨label, text, kind, lexeme, value, rfl, -, rfl⟩ := literalLayer_iff.1 h
    simp [ExprLayer.children, not_part_of_scalar (named hkind) (by decide)]
  next hkind =>
    cases h
    simp [ExprLayer.children, part_iff_of_held (named hkind) (by decide)]
  next hkind =>
    obtain ⟨entries, hrecord, line, -, op, -, right, hright, rfl⟩ := (unaryLayer_iff hbody).1 h
    rw [part_iff_of_record (named hkind) (by decide) hrecord ["right"] (by decide)]
    simp [ExprLayer.children, (lookup_iff hrecord).2 hright, eq_comm]
  next hkind =>
    obtain ⟨parts, hparts, h⟩ := bind_eq_ok h
    obtain ⟨entries, hrecord, line, -, op, -, left, hleft, right, hright, rfl⟩ :=
      (operands_iff hbody lists_binaryTable).1 hparts
    cases h
    rw [part_iff_of_record (named hkind) (by decide) hrecord ["left", "right"] (by decide)]
    simp [ExprLayer.children, (lookup_iff hrecord).2 hleft, (lookup_iff hrecord).2 hright, eq_comm]
  next hkind =>
    obtain ⟨parts, hparts, h⟩ := bind_eq_ok h
    obtain ⟨entries, hrecord, line, -, op, -, left, hleft, right, hright, rfl⟩ :=
      (operands_iff hbody lists_logicalTable).1 hparts
    cases h
    rw [part_iff_of_record (named hkind) (by decide) hrecord ["left", "right"] (by decide)]
    simp [ExprLayer.children, (lookup_iff hrecord).2 hleft, (lookup_iff hrecord).2 hright, eq_comm]
  next hkind =>
    obtain ⟨name, ⟨_, _, _⟩, rfl⟩ | ⟨entries, hrecord, node, -, name, -, line, -, rfl⟩ :=
      (variableLayer_iff hbody).1 h
    · simp [ExprLayer.children, not_part_of_scalar (named hkind) (by decide)]
    · rw [part_iff_of_record (named hkind) (by decide) hrecord [] (by decide)]
      simp [ExprLayer.children]
  next hkind =>
    obtain ⟨entries, hrecord, node, -, name, -, line, -, value, hvalue, rfl⟩ :=
      (assignLayer_iff hbody).1 h
    rw [part_iff_of_record (named hkind) (by decide) hrecord ["value"] (by decide)]
    simp [ExprLayer.children, (lookup_iff hrecord).2 hvalue, eq_comm]
  next => cases h

theorem part_iff_stmtLayer (hn : n.Resolved) {l : StmtLayer} (h : stmtLayer n = .ok l) :
    Part n m ↔ m ∈ l.children := by
  obtain ⟨⟨key, body⟩, hvariant, h⟩ := bind_eq_ok h
  have named {kind : String} (hkind : key.text = kind) : Variant n kind key body :=
    ⟨hkind, (variant_iff hn).1 hvariant⟩
  have hbody : body.Resolved := (named rfl).resolved hn
  change stmtBody key body = .ok l at h
  unfold stmtBody at h
  split at h
  next hkind =>
    cases h
    simp [StmtLayer.children, part_iff_of_held (named hkind) (by decide)]
  next hkind =>
    cases h
    simp [StmtLayer.children, part_iff_of_held (named hkind) (by decide)]
  next hkind =>
    obtain ⟨entries, hrecord, node, -, name, -, line, -, rfl⟩ := (varLayer_iff hbody).1 h
    rw [part_iff_of_record (named hkind) (by decide) hrecord ["init"] (by decide)]
    simp [StmtLayer.children]
  next hkind =>
    obtain ⟨entries, hrecord, line, -, condition, hcondition, yes, hyes, rfl⟩ :=
      (iteLayer_iff hbody).1 h
    rw [part_iff_of_record (named hkind) (by decide) hrecord ["condition", "then", "else"]
      (by decide)]
    simp [StmtLayer.children, (lookup_iff hrecord).2 hcondition, (lookup_iff hrecord).2 hyes,
      eq_comm]
  next hkind =>
    cases h
    simp [StmtLayer.children, part_iff_of_held (named hkind) (by decide)]
  next => cases h

end Parts

theorem part_iff_places {p : Place} (hp : p.2.Resolved) {below : List Place}
    (h : places p = .ok below) {m : Node} : Part p.2 m ↔ m ∈ below.map Prod.snd := by
  obtain ⟨role, n⟩ := p
  cases role with
  | expr =>
      obtain ⟨l, hlayer, rfl⟩ := map_eq_ok h
      rw [map_snd_exprPlaces]
      exact part_iff_exprLayer hp hlayer
  | stmt =>
      obtain ⟨l, hlayer, rfl⟩ := map_eq_ok h
      rw [map_snd_stmtPlaces]
      exact part_iff_stmtLayer hp hlayer
  | stmts =>
      rw [places, Node.Resolved.deref hp] at h
      split at h
      next label items heq =>
        cases h
        rw [map_snd_role]
        change n = _ at heq
        subst heq
        constructor
        · intro hpart
          cases hpart with
          | item hmem => exact hmem
          | held hvariant _ | field hvariant _ _ _ =>
              obtain ⟨-, label, heq⟩ := hvariant
              cases heq
        · exact .item
      next => cases h

/-! ## Which lines are accepted -/

theorem integer?_eq_some_iff {v : Node} {i : Int} (hi : 1 ≤ i) :
    integer? v = some i ↔ ∃ q, LineNumber v q ∧ i = ⌊q⌋ := by
  rw [integer?_iff]
  constructor
  · rintro ⟨label, text, meaning, rfl, hmeaning, hinteger⟩
    obtain ⟨q, hq, hone, hlarge, hfloor⟩ := (Scalar.integer?_pos_iff hi).1 hinteger
    exact ⟨q, ⟨label, text, meaning, rfl, hmeaning, hq, hone, hlarge⟩, hfloor⟩
  · rintro ⟨q, ⟨label, text, meaning, rfl, hmeaning, hq, hone, hlarge⟩, hfloor⟩
    have hinteger := (Scalar.integer?_pos_iff hi).2 ⟨q, hq, hone, hlarge, hfloor⟩
    exact ⟨label, text, meaning, rfl, hmeaning, hinteger⟩

theorem LineNumber.one_le_floor {v : Node} {q : ℚ} (h : LineNumber v q) : 1 ≤ ⌊q⌋ := by
  obtain ⟨_, _, _, _, _, _, hone, _⟩ := h
  exact Scalar.one_le_floor_iff.2 hone

theorem lineOf_of_lineNumber {f : Fields} {v : Node} {q : ℚ} (hv : f.lookup "line" = some v)
    (hq : LineNumber v q) (key : Node) : lineOf f key = .ok ⌊q⌋ := by
  have hinteger := (integer?_eq_some_iff hq.one_le_floor).2 ⟨q, hq, rfl⟩
  simp only [lineOf, hv, hinteger, hq.one_le_floor, if_true]

theorem lineOf_of_not_lineNumber {f : Fields} {v : Node} (hv : f.lookup "line" = some v)
    (hnone : ∀ q, ¬ LineNumber v q) (key : Node) :
    lineOf f key = .error ⟨v.position, .badLine⟩ := by
  unfold lineOf
  rw [hv]
  dsimp only
  split
  next i hi =>
    by_cases hpos : 1 ≤ i
    · obtain ⟨q, hq, -⟩ := (integer?_eq_some_iff hpos).1 hi
      exact absurd hq (hnone q)
    · rw [if_neg hpos]
      rfl
  next => rfl

/-! ## The lines of a decoded document -/

section Lines

variable {n key body v : Node} {kind : String}

theorem lineNumber_of_line {allowed : List String} {entries : Entries} {line : Int}
    (hvariant : Variant n kind key body) (hrecord : Record body allowed entries)
    (hline : Line entries key line) (h : HasLine n v) : ∃ q, LineNumber v q ∧ line = ⌊q⌋ := by
  obtain ⟨kind', key', label, entries', hvariant', -, hfield⟩ := h
  obtain rfl := hrecord.entries_eq (hvariant.unique hvariant').2.2
  have hv := (lookup_iff hrecord).2 hfield
  have hline := (lineOf_iff hrecord).2 hline
  by_cases hnone : ∀ q, ¬ LineNumber v q
  · rw [lineOf_of_not_lineNumber hv hnone] at hline
    cases hline
  · push Not at hnone
    obtain ⟨q, hq⟩ := hnone
    rw [lineOf_of_lineNumber hv hq] at hline
    exact ⟨q, hq, (Except.ok.inj hline).symm⟩

theorem not_hasLine_of_kind (hvariant : Variant n kind key body) (hkind : kind ∉ fieldKinds) :
    ¬ HasLine n v := by
  rintro ⟨kind', key', label, entries, hvariant', hkind', -⟩
  obtain ⟨rfl, -, -⟩ := hvariant.unique hvariant'
  exact hkind hkind'

theorem Format.Operator.line_eq {table : Table} {entries : Entries} {line : Int} {op : Token}
    (h : Operator table entries line op) : op.line = line := by
  cases h
  rfl

theorem line_of_isExpr {literals : Literals} {e : Expr} (h : IsExpr literals n e)
    (hline : HasLine n v) : ∃ q, LineNumber v q ∧ e.token.line = ⌊q⌋ := by
  cases h with
  | literal hvariant _ | grouping hvariant _ =>
      exact absurd hline (not_hasLine_of_kind hvariant (by decide))
  | unary hvariant hrecord hgiven hop _ _ | binary hvariant hrecord hgiven hop _ _ _ _
  | logical hvariant hrecord hgiven hop _ _ _ _ =>
      rw [Expr.token, hop.line_eq]
      exact lineNumber_of_line hvariant hrecord hgiven hline
  | name hvariant hname =>
      obtain ⟨_, _, _, _, hvariant', -, -⟩ := hline
      obtain ⟨-, -, rfl⟩ := hvariant.unique hvariant'
      cases hname
  | «variable» hvariant hrecord _ _ hgiven | assign hvariant hrecord _ _ hgiven _ _ =>
      exact lineNumber_of_line hvariant hrecord hgiven hline

theorem line_of_isStmt {literals : Literals} {stmt : Stmt} (h : IsStmt literals n stmt)
    (hline : HasLine n v) : ∃ q, LineNumber v q ∧ stmt.token.line = ⌊q⌋ := by
  cases h with
  | expression hvariant _ | print hvariant _ | block hvariant _ =>
      exact absurd hline (not_hasLine_of_kind hvariant (by decide))
  | varNil hvariant hrecord _ _ hgiven _ | varInit hvariant hrecord _ _ hgiven _ _
  | iteNone hvariant hrecord hgiven _ _ _ _ _ | iteSome hvariant hrecord hgiven _ _ _ _ _ _ =>
      exact lineNumber_of_line hvariant hrecord hgiven hline

end Lines

def DecodesTo (n : Node) : Construct → Prop
  | .expression e => decodeExpr n = .ok e
  | .statement stmt => decodeStmt n = .ok stmt

def Built (nodes : List Construct) : Place → Prop
  | (.expr, n) => ∃ e, decodeExpr n = .ok e ∧ e.nodes ⊆ nodes
  | (.stmt, n) => ∃ stmt, decodeStmt n = .ok stmt ∧ stmt.nodes ⊆ nodes
  | (.stmts, n) => ∃ program, decodeStmts n = .ok program ∧ Stmt.listNodes program ⊆ nodes

theorem built_expr {nodes : List Construct} {n : Node} (h : Built nodes (.expr, n)) :
    ∃ below, places (.expr, n) = .ok below ∧ ∀ c ∈ below, Built nodes c := by
  obtain ⟨e, he, hnodes⟩ := h
  cases hlayer : exprLayer n with
  | error err => rw [decodeExpr, hlayer] at he; cases he
  | ok l =>
      rw [decodeExpr, hlayer] at he
      refine ⟨l.places, by rw [places, hlayer]; rfl, ?_⟩
      cases l with
      | literal token value | «variable» name => exact List.forall_mem_nil _
      | grouping token inner | unary op inner | assign name inner =>
          obtain ⟨i, hi, he⟩ := bind_eq_ok he
          cases he
          rw [Expr.nodes, List.cons_subset] at hnodes
          exact List.forall_mem_singleton.2 ⟨i, hi, hnodes.2⟩
      | binary left op right | logical left op right =>
          obtain ⟨l, hl, he⟩ := bind_eq_ok he
          obtain ⟨r, hr, he⟩ := bind_eq_ok he
          cases he
          rw [Expr.nodes, List.cons_subset, List.append_subset] at hnodes
          obtain ⟨-, hleft, hright⟩ := hnodes
          exact List.forall_mem_cons.2
            ⟨⟨l, hl, hleft⟩, List.forall_mem_singleton.2 ⟨r, hr, hright⟩⟩

theorem built_stmt {nodes : List Construct} {n : Node} (h : Built nodes (.stmt, n)) :
    ∃ below, places (.stmt, n) = .ok below ∧ ∀ c ∈ below, Built nodes c := by
  obtain ⟨stmt, hstmt, hnodes⟩ := h
  cases hlayer : stmtLayer n with
  | error err => rw [decodeStmt, hlayer] at hstmt; cases hstmt
  | ok l =>
      rw [decodeStmt, hlayer] at hstmt
      refine ⟨l.places, by rw [places, hlayer]; rfl, ?_⟩
      cases l with
      | expression expr | print token expr =>
          obtain ⟨e, he, hstmt⟩ := bind_eq_ok hstmt
          cases hstmt
          rw [Stmt.nodes, List.cons_subset] at hnodes
          exact List.forall_mem_singleton.2 ⟨e, he, hnodes.2⟩
      | var name init =>
          cases init with
          | none => exact List.forall_mem_nil _
          | some init =>
              obtain ⟨e, he, hstmt⟩ := bind_eq_ok hstmt
              cases hstmt
              rw [Stmt.nodes, List.cons_subset] at hnodes
              exact List.forall_mem_singleton.2 ⟨e, he, hnodes.2⟩
      | ite token condition yes no =>
          cases no with
          | none =>
              obtain ⟨c, hc, hstmt⟩ := bind_eq_ok hstmt
              obtain ⟨y, hy, hstmt⟩ := bind_eq_ok hstmt
              cases hstmt
              rw [Stmt.nodes, List.cons_subset, List.append_subset] at hnodes
              obtain ⟨-, hcondition, hyes⟩ := hnodes
              exact List.forall_mem_cons.2
                ⟨⟨c, hc, hcondition⟩, List.forall_mem_singleton.2 ⟨y, hy, hyes⟩⟩
          | some no =>
              obtain ⟨c, hc, hstmt⟩ := bind_eq_ok hstmt
              obtain ⟨y, hy, hstmt⟩ := bind_eq_ok hstmt
              obtain ⟨m, hm, hstmt⟩ := bind_eq_ok hstmt
              cases hstmt
              rw [Stmt.nodes, List.cons_subset, List.append_subset, List.append_subset] at hnodes
              obtain ⟨-, hcondition, hyes, hno⟩ := hnodes
              exact List.forall_mem_cons.2 ⟨⟨c, hc, hcondition⟩, List.forall_mem_cons.2
                ⟨⟨y, hy, hyes⟩, List.forall_mem_singleton.2 ⟨m, hm, hno⟩⟩⟩
      | block token body =>
          obtain ⟨program, hprogram, hstmt⟩ := bind_eq_ok hstmt
          cases hstmt
          rw [Stmt.nodes, List.cons_subset] at hnodes
          exact List.forall_mem_singleton.2 ⟨program, hprogram, hnodes.2⟩

theorem built_items {nodes : List Construct} {items : List Node} {program : List Stmt}
    (h : decodeItems items = .ok program) (hnodes : Stmt.listNodes program ⊆ nodes) :
    ∀ c ∈ items.map (Role.stmt, ·), Built nodes c := by
  induction items generalizing program with
  | nil => exact List.forall_mem_nil _
  | cons item rest ih =>
      rw [decodeItems] at h
      obtain ⟨stmt, hstmt, h⟩ := bind_eq_ok h
      obtain ⟨stmts, hstmts, h⟩ := bind_eq_ok h
      cases h
      rw [Stmt.listNodes, List.append_subset] at hnodes
      exact List.forall_mem_cons.2 ⟨⟨stmt, hstmt, hnodes.1⟩, ih hstmts hnodes.2⟩

theorem built_places {nodes : List Construct} {p : Place} (h : Built nodes p) :
    ∃ below, places p = .ok below ∧ ∀ c ∈ below, Built nodes c := by
  obtain ⟨role, n⟩ := p
  cases role with
  | expr => exact built_expr h
  | stmt => exact built_stmt h
  | stmts =>
      obtain ⟨program, hprogram, hnodes⟩ := h
      rw [decodeStmts] at hprogram
      rw [places]
      generalize n.deref = m at hprogram ⊢
      cases m with
      | sequence label items => exact ⟨_, rfl, built_items hprogram hnodes⟩
      | scalar _ _ | mapping _ _ | «alias» _ _ _ | endless _ => cases hprogram

theorem Part.resolved {n m : Node} (h : Part n m) (hn : n.Resolved) : m.Resolved := by
  cases h with
  | item hmem => exact hn.item _ hmem
  | held hvariant _ => exact hvariant.resolved hn
  | field hvariant _ hfield _ =>
      obtain ⟨key, hmem, -⟩ := hfield
      exact (hvariant.resolved hn).value _ hmem

theorem built_nodeOf {n m : Node} {program : List Stmt} (h : decodeStmts n = .ok program)
    (hm : NodeOf n m) : m.Resolved ∧ ∃ role, Built (Stmt.listNodes program) (role, m) := by
  induction hm with
  | refl =>
      rw [← decodeStmts_resolved] at h
      exact ⟨n.resolved_resolved, .stmts, program, h, List.Subset.refl _⟩
  | tail _ hpart ih =>
      obtain ⟨hresolved, role, hbuilt⟩ := ih
      obtain ⟨below, hbelow, hall⟩ := built_places hbuilt
      obtain ⟨c, hc, rfl⟩ := List.mem_map.1 ((part_iff_places hresolved hbelow).1 hpart)
      exact ⟨hpart.resolved hresolved, c.1, hall c hc⟩

/-- In a document that is decoded, every line that is written out is a number that may be a line,
and the token of its node stands there. -/
theorem line_of_nodeOf {n m v : Node} {program : List Stmt} (h : decodeStmts n = .ok program)
    (hm : NodeOf n m) (hline : HasLine m v) :
    ∃ q, LineNumber v q ∧ ∃ node ∈ Stmt.listNodes program, DecodesTo m node ∧
      node.token.line = ⌊q⌋ := by
  obtain ⟨hresolved, role, hbuilt⟩ := built_nodeOf h hm
  cases role with
  | expr =>
      obtain ⟨e, he, hnodes⟩ := hbuilt
      obtain ⟨q, hq, hfloor⟩ := line_of_isExpr (isExpr_decodeExpr hresolved he) hline
      exact ⟨q, hq, .expression e, hnodes e.mem_nodes, he, hfloor⟩
  | stmt =>
      obtain ⟨stmt, hstmt, hnodes⟩ := hbuilt
      obtain ⟨q, hq, hfloor⟩ := line_of_isStmt (decode_format.1 _ _ hresolved hstmt) hline
      exact ⟨q, hq, .statement stmt, hnodes stmt.mem_nodes, hstmt, hfloor⟩
  | stmts =>
      obtain ⟨stmts, hstmts, -⟩ := hbuilt
      obtain ⟨_, _, _, _, ⟨-, label, rfl⟩, -, -⟩ := hline
      rw [decodeStmts] at hstmts
      cases hstmts

end TreeScript.Program
