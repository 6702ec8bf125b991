import TreeScript.Program.Decode

/-!
# What decoding reads of a document

`Node.bare` keeps of a document what decoding can tell apart: the nodes that its aliases stand for
in place of the aliases, no anchors, and of a key its text and its place alone. A document is
decoded in the same way with all the rest and without it, in its errors too, so two documents that
are the same when they are bare have the same outcome.
-/

namespace TreeScript

namespace Yaml.Node

theorem deref_deref (n : Node) : n.deref.deref = n.deref := by
  fun_induction deref n with
  | case1 position name target ih => exact ih
  | case2 | case3 | case4 | case5 => rfl

theorem deref_cases (n : Node) :
    (∃ label text, n.deref = .scalar label text) ∨
      (∃ label items, n.deref = .sequence label items) ∨
      (∃ label entries, n.deref = .mapping label entries) ∨
      ∃ position, n.deref = .endless position := by
  fun_induction deref n with
  | case1 position name target ih => exact ih
  | case2 label text => exact .inl ⟨label, text, rfl⟩
  | case3 label items => exact .inr (.inl ⟨label, items, rfl⟩)
  | case4 label entries => exact .inr (.inr (.inl ⟨label, entries, rfl⟩))
  | case5 position => exact .inr (.inr (.inr ⟨position, rfl⟩))

/-! ## Bare documents -/

def bareKey (key : Node) : Node := .scalar ⟨key.position, "!!str", none⟩ key.text

@[simp] theorem text_bareKey (key : Node) : key.bareKey.text = key.text := rfl

mutual

/-- The node without what decoding cannot see: aliases, anchors and the inside of keys. -/
def bare : Node → Node
  | .scalar label text => .scalar { label with anchor := none } text
  | .sequence label items => .sequence { label with anchor := none } (bareItems items)
  | .mapping label entries => .mapping { label with anchor := none } (bareEntries entries)
  | .alias _ _ target => target.bare
  | .endless position => .endless position

def bareItems : List Node → List Node
  | [] => []
  | item :: rest => item.bare :: bareItems rest

def bareEntries : List (Node × Node) → List (Node × Node)
  | [] => []
  | (key, value) :: rest => (key.bareKey, value.bare) :: bareEntries rest

end

theorem bare_deref (n : Node) : n.deref.bare = n.bare := by
  fun_induction deref n with
  | case1 position name target ih => rw [ih, bare]
  | case2 | case3 | case4 | case5 => rfl

theorem deref_bare (n : Node) : n.bare.deref = n.bare := by
  rw [← bare_deref]
  fun_induction deref n with
  | case1 position name target ih => exact ih
  | case2 | case3 | case4 | case5 => rfl

theorem position_bare (n : Node) : n.bare.position = n.deref.position := by
  rw [← bare_deref]
  fun_induction deref n with
  | case1 position name target ih => exact ih
  | case2 | case3 | case4 | case5 => rfl

end Yaml.Node

namespace Program

open Yaml (Node)

/-! ## Outcomes with bare parts -/

variable {ε α α' β β' : Type}

theorem bind_map_congr {x : Except ε α} {x' : Except ε α'} {g : α → α'} {next : α → Except ε β}
    {next' : α' → Except ε β'} {h : β → β'} (hx : x' = x.map g)
    (hnext : ∀ a, x = .ok a → next' (g a) = (next a).map h) :
    (x' >>= next') = (x >>= next).map h := by
  subst hx
  cases x with
  | error e => rfl
  | ok a => exact hnext a rfl

/-- Two computations that begin in the same way and go on in corresponding ways. -/
theorem bind_congr_map {x x' : Except ε α} {next : α → Except ε β} {next' : α → Except ε β'}
    {h : β → β'} (hx : x' = x) (hnext : ∀ a, x = .ok a → next' a = (next a).map h) :
    (x' >>= next') = (x >>= next).map h := by
  subst hx
  cases x' with
  | error e => rfl
  | ok a => exact hnext a rfl

theorem complain_bare {n : Node} (hn : n.deref = n) (complaint : Complaint) (g : α → α') :
    (complain n.bare complaint : Except DecodeError α') = (complain n complaint).map g := by
  unfold complain
  rw [Node.position_bare, hn]
  rfl

theorem refuse_bare {n : Node} (hn : n.deref = n) (complaint : Complaint) (g : α → α') :
    (refuse n.bare complaint : Except DecodeError α') = (refuse n complaint).map g := by
  have habout : complaint.about n.bare = complaint.about n := by
    rw [← hn]
    rcases n.deref_cases with ⟨label, text, h⟩ | ⟨label, items, h⟩ | ⟨label, entries, h⟩ |
      ⟨position, h⟩ <;>
    · rw [h]
      rfl
  unfold refuse
  rw [habout]
  exact complain_bare hn _ g

def Fields.bare (f : Fields) : Fields := f.map fun field => (field.1, field.2.bare)

def Fields.Direct (f : Fields) : Prop := ∀ field ∈ f, field.2.deref = field.2

theorem lookup_bare (f : Fields) (name : String) :
    f.bare.lookup name = (f.lookup name).map Node.bare := by
  induction f with
  | nil => rfl
  | cons field rest ih =>
      obtain ⟨key, value⟩ := field
      change List.lookup name ((key, value.bare) :: Fields.bare rest) = _
      rw [List.lookup_cons, List.lookup_cons, ih]
      split <;> rfl

theorem variant_bare (n : Node) :
    variant n.bare = (variant n).map fun parts => (parts.1.bareKey, parts.2.bare) := by
  unfold variant
  rw [Node.deref_bare, ← Node.bare_deref]
  rcases n.deref_cases with ⟨label, text, h⟩ | ⟨label, items, h⟩ | ⟨label, entries, h⟩ |
    ⟨position, h⟩
  · rw [h]
    exact refuse_bare rfl .notVariant _
  · rw [h]
    exact refuse_bare rfl .notVariant _
  · rw [h]
    match entries with
    | [] => exact refuse_bare (n := .mapping label []) rfl .notVariant _
    | [(key, value)] =>
      change Except.ok (key.bareKey, value.bare.deref) = Except.ok (key.bareKey, value.deref.bare)
      rw [Node.deref_bare, Node.bare_deref]
    | first :: second :: rest =>
      exact refuse_bare (n := .mapping label (first :: second :: rest)) rfl .notVariant _
  · rw [h]
    rfl

theorem deref_variant {n key body : Node} (h : variant n = .ok (key, body)) :
    body.deref = body := by
  unfold variant at h
  split at h
  · cases h
    exact Node.deref_deref _
  · cases h

theorem readFields_bare (allowed : List String) (entries : List (Node × Node))
    (before : Fields) :
    readFields allowed (Node.bareEntries entries) before.bare =
      (readFields allowed entries before).map Fields.bare := by
  induction entries generalizing before with
  | nil => rfl
  | cons entry rest ih =>
      obtain ⟨key, value⟩ := entry
      have hfield : (key.text, value.bare.deref) :: Fields.bare before =
          Fields.bare ((key.text, value.deref) :: before) := by
        rw [Node.deref_bare, ← Node.bare_deref]
        rfl
      simp only [Node.bareEntries, readFields, Node.text_bareKey, lookup_bare, Option.isSome_map,
        hfield]
      split
      · rfl
      · split
        · rfl
        · exact ih _

theorem fields_bare {body : Node} (hbody : body.deref = body) (allowed : List String) :
    fields body.bare allowed = (fields body allowed).map Fields.bare := by
  rw [← hbody]
  rcases body.deref_cases with ⟨label, text, h⟩ | ⟨label, items, h⟩ | ⟨label, entries, h⟩ |
    ⟨position, h⟩
  · rw [h]
    exact refuse_bare rfl .notMapping _
  · rw [h]
    exact refuse_bare rfl .notMapping _
  · rw [h]
    exact readFields_bare allowed entries []
  · rw [h]
    rfl

theorem direct_fields {body : Node} {allowed : List String} {f : Fields}
    (h : fields body allowed = .ok f) : f.Direct := by
  intro field hfield
  unfold fields at h
  split at h
  · rcases mem_readFields h hfield with hnil | ⟨entry, -, heq⟩
    · cases hnil
    · rw [heq, Node.deref_deref]
  · cases h

theorem Fields.Direct.lookup {f : Fields} (hf : f.Direct) {name : String} {v : Node}
    (h : f.lookup name = some v) : v.deref = v :=
  hf (name, v) (mem_of_lookup h)

/-! ## The parts of a layer -/

theorem required_bare {body : Node} (hbody : body.deref = body) (f : Fields) (name : String) :
    required body.bare f.bare name = (required body f name).map Node.bare := by
  unfold required
  rw [lookup_bare]
  cases f.lookup name with
  | some v => rfl
  | none => exact complain_bare hbody (.missingField name) _

theorem integer?_bare {v : Node} (hv : v.deref = v) : integer? v.bare = integer? v := by
  rw [← hv]
  rcases v.deref_cases with ⟨label, text, h⟩ | ⟨label, items, h⟩ | ⟨label, entries, h⟩ |
    ⟨position, h⟩ <;>
  · rw [h]
    rfl

theorem lineOf_bare {f : Fields} (hf : f.Direct) (key : Node) :
    lineOf f.bare key.bareKey = lineOf f key := by
  unfold lineOf
  rw [lookup_bare]
  cases hline : f.lookup "line" with
  | none => rfl
  | some v =>
      have hv := hf.lookup hline
      have hposition : v.bare.position = v.position := by rw [Node.position_bare, hv]
      simp only [Option.map_some, integer?_bare hv, complain, hposition]

theorem identifier_bare {n : Node} (hn : n.deref = n) (what : String) :
    identifier n.bare what = identifier n what := by
  rw [← hn]
  rcases n.deref_cases with ⟨label, text, h⟩ | ⟨label, items, h⟩ | ⟨label, entries, h⟩ |
    ⟨position, h⟩ <;>
  · rw [h]
    rfl

theorem bind_bare {x x' : Except ε Node} {next next' : Node → Except ε β}
    (hx : x' = x.map Node.bare) (hnext : ∀ n, x = .ok n → next' n.bare = next n) :
    (x' >>= next') = (x >>= next) := by
  subst hx
  cases x with
  | error e => rfl
  | ok n => exact hnext n rfl

theorem operator_bare {body : Node} (hbody : body.deref = body) {f : Fields} (hf : f.Direct)
    (line : Int) (allowed : List Token.Kind) :
    operator body.bare f.bare line allowed = operator body f line allowed := by
  refine bind_bare (required_bare hbody f "op") fun op hop => ?_
  have hderef : op.deref = op := hf.lookup (lookup_of_required hop)
  rw [← hderef]
  rcases op.deref_cases with ⟨label, text, h⟩ | ⟨label, items, h⟩ | ⟨label, entries, h⟩ |
    ⟨position, h⟩ <;>
  · rw [h]
    rfl

/-! ## Layers -/

def ExprLayer.bare : ExprLayer → ExprLayer
  | .literal token value => .literal token value
  | .grouping token inner => .grouping token inner.bare
  | .unary op right => .unary op right.bare
  | .binary left op right => .binary left.bare op right.bare
  | .logical left op right => .logical left.bare op right.bare
  | .variable name => .variable name
  | .assign name value => .assign name value.bare

def StmtLayer.bare : StmtLayer → StmtLayer
  | .expression expr => .expression expr.bare
  | .print token expr => .print token expr.bare
  | .var name init => .var name (init.map Node.bare)
  | .ite token condition yes no =>
    .ite token condition.bare yes.bare (no.map Node.bare)
  | .block token body => .block token body.bare

theorem literalLayer_bare {body : Node} (hbody : body.deref = body) (key : Node) :
    literalLayer key.bareKey body.bare = (literalLayer key body).map ExprLayer.bare := by
  rw [← hbody]
  rcases body.deref_cases with ⟨label, text, h⟩ | ⟨label, items, h⟩ | ⟨label, entries, h⟩ |
    ⟨position, h⟩
  · rw [h]
    simp only [Node.bare, literalLayer]
    repeat' split
    all_goals rfl
  · rw [h]
    rfl
  · rw [h]
    rfl
  · rw [h]
    rfl

theorem unaryLayer_bare {body : Node} (hbody : body.deref = body) (key : Node) :
    unaryLayer key.bareKey body.bare = (unaryLayer key body).map ExprLayer.bare := by
  refine bind_map_congr (fields_bare hbody _) fun f hf => ?_
  have hdirect := direct_fields hf
  refine bind_congr_map (lineOf_bare hdirect key) fun line _ => ?_
  refine bind_congr_map (operator_bare hbody hdirect line _) fun op _ => ?_
  exact bind_map_congr (required_bare hbody f "right") fun right _ => rfl

theorem operands_bare {body : Node} (hbody : body.deref = body) (key : Node)
    (allowed : List Token.Kind) :
    operands key.bareKey body.bare allowed =
      (operands key body allowed).map fun (left, op, right) =>
        (left.bare, op, right.bare) := by
  refine bind_map_congr (fields_bare hbody _) fun f hf => ?_
  have hdirect := direct_fields hf
  refine bind_congr_map (lineOf_bare hdirect key) fun line _ => ?_
  refine bind_congr_map (operator_bare hbody hdirect line allowed) fun op _ => ?_
  refine bind_map_congr (required_bare hbody f "left") fun left _ => ?_
  exact bind_map_congr (required_bare hbody f "right") fun right _ => rfl

theorem bind_name_bare {body : Node} (hbody : body.deref = body) {f : Fields} (hf : f.Direct)
    {next : String → Except DecodeError β} {next' : String → Except DecodeError β'} {h : β → β'}
    (hnext : ∀ name, next' name = (next name).map h) :
    (do next' (← identifier (← required body.bare f.bare "name") "name")) =
      (do next (← identifier (← required body f "name") "name")).map h := by
  refine bind_map_congr (required_bare hbody f "name") fun n hn => ?_
  have hderef : n.deref = n := hf.lookup (lookup_of_required hn)
  exact bind_congr_map (identifier_bare hderef "name") fun name _ => hnext name

theorem variableLayer_bare {body : Node} (hbody : body.deref = body) (key : Node) :
    variableLayer key.bareKey body.bare = (variableLayer key body).map ExprLayer.bare := by
  have hfields : ∀ b : Node, b.deref = b →
      (do
        let f ← fields b.bare ["name", "line"]
        let name ← identifier (← required b.bare f "name") "name"
        let line ← lineOf f key.bareKey
        return ExprLayer.variable (.ofName name line)) =
      (do
        let f ← fields b ["name", "line"]
        let name ← identifier (← required b f "name") "name"
        let line ← lineOf f key
        return ExprLayer.variable (.ofName name line)).map ExprLayer.bare := by
    intro b hb
    refine bind_map_congr (fields_bare hb _) fun f hf => ?_
    have hdirect := direct_fields hf
    refine bind_name_bare hb hdirect fun name => ?_
    exact bind_congr_map (lineOf_bare hdirect key) fun line _ => rfl
  rw [← hbody]
  rcases body.deref_cases with ⟨label, text, h⟩ | ⟨label, items, h⟩ | ⟨label, entries, h⟩ |
    ⟨position, h⟩
  · rw [h]
    exact bind_congr_map rfl fun name _ => rfl
  · rw [h]
    exact hfields (.sequence label items) rfl
  · rw [h]
    exact hfields (.mapping label entries) rfl
  · rw [h]
    exact hfields (.endless position) rfl

theorem assignLayer_bare {body : Node} (hbody : body.deref = body) (key : Node) :
    assignLayer key.bareKey body.bare = (assignLayer key body).map ExprLayer.bare := by
  refine bind_map_congr (fields_bare hbody _) fun f hf => ?_
  have hdirect := direct_fields hf
  refine bind_name_bare hbody hdirect fun name => ?_
  refine bind_congr_map (lineOf_bare hdirect key) fun line _ => ?_
  exact bind_map_congr (required_bare hbody f "value") fun value _ => rfl

theorem exprBody_bare {body : Node} (hbody : body.deref = body) (key : Node) :
    exprBody key.bareKey body.bare = (exprBody key body).map ExprLayer.bare := by
  unfold exprBody
  rw [Node.text_bareKey]
  split
  · exact literalLayer_bare hbody key
  · rfl
  · exact unaryLayer_bare hbody key
  · exact bind_map_congr (operands_bare hbody key _) fun parts _ => rfl
  · exact bind_map_congr (operands_bare hbody key _) fun parts _ => rfl
  · exact variableLayer_bare hbody key
  · exact assignLayer_bare hbody key
  · rfl

theorem exprLayer_bare (n : Node) :
    exprLayer n.bare = (exprLayer n).map ExprLayer.bare :=
  bind_map_congr (variant_bare n) fun parts h => exprBody_bare (deref_variant h) parts.1

theorem varLayer_bare {body : Node} (hbody : body.deref = body) (key : Node) :
    varLayer key.bareKey body.bare = (varLayer key body).map StmtLayer.bare := by
  refine bind_map_congr (fields_bare hbody _) fun f hf => ?_
  have hdirect := direct_fields hf
  refine bind_name_bare hbody hdirect fun name => ?_
  refine bind_congr_map (lineOf_bare hdirect key) fun line _ => ?_
  rw [lookup_bare]
  rfl

theorem iteLayer_bare {body : Node} (hbody : body.deref = body) (key : Node) :
    iteLayer key.bareKey body.bare = (iteLayer key body).map StmtLayer.bare := by
  refine bind_map_congr (fields_bare hbody _) fun f hf => ?_
  refine bind_congr_map (lineOf_bare (direct_fields hf) key) fun line _ => ?_
  refine bind_map_congr (required_bare hbody f "condition") fun condition _ => ?_
  refine bind_map_congr (required_bare hbody f "then") fun yes _ => ?_
  rw [lookup_bare]
  rfl

theorem stmtBody_bare {body : Node} (hbody : body.deref = body) (key : Node) :
    stmtBody key.bareKey body.bare = (stmtBody key body).map StmtLayer.bare := by
  unfold stmtBody
  rw [Node.text_bareKey]
  split
  · rfl
  · rfl
  · exact varLayer_bare hbody key
  · exact iteLayer_bare hbody key
  · rfl
  · rfl

theorem stmtLayer_bare (n : Node) :
    stmtLayer n.bare = (stmtLayer n).map StmtLayer.bare :=
  bind_map_congr (variant_bare n) fun parts h => stmtBody_bare (deref_variant h) parts.1

/-! ## Programs -/

theorem decodeExpr_bare (n : Node) : decodeExpr n.bare = decodeExpr n := by
  have layer {m : Node} {x : Except DecodeError ExprLayer} (h : exprLayer m = x) :
      exprLayer m.bare = x.map ExprLayer.bare := h ▸ exprLayer_bare m
  induction n using decodeExpr.induct with
  | case1 n err hlayer =>
      rw [decodeExpr.eq_def n, hlayer, decodeExpr, layer hlayer]
      rfl
  | case2 n token value hlayer | case7 n name hlayer =>
      rw [decodeExpr.eq_def n, hlayer, decodeExpr, layer hlayer]
      rfl
  | case3 n token inner hlayer ih | case4 n token inner hlayer ih | case8 n token inner hlayer ih =>
      rw [decodeExpr.eq_def n, hlayer, decodeExpr, layer hlayer]
      simp only [Except.map, ExprLayer.bare, ih]
  | case5 n left op right hlayer ihl ihr | case6 n left op right hlayer ihl ihr =>
      rw [decodeExpr.eq_def n, hlayer, decodeExpr, layer hlayer]
      simp only [Except.map, ExprLayer.bare, ihl, ihr]

theorem decode_bare :
    (∀ n, decodeStmt n.bare = decodeStmt n) ∧ (∀ n, decodeStmts n.bare = decodeStmts n) ∧
      ∀ items, decodeItems (Node.bareItems items) = decodeItems items := by
  have layer {m : Node} {x : Except DecodeError StmtLayer} (h : stmtLayer m = x) :
      stmtLayer m.bare = x.map StmtLayer.bare := h ▸ stmtLayer_bare m
  -- The motives say the same of statements, of sequences and of the items of a sequence.
  apply decodeStmt.mutual_induct
  case case1 =>
    intro n err hlayer
    rw [decodeStmt.eq_def n, hlayer, decodeStmt, layer hlayer]
    rfl
  case case2 =>
    intro n expr hlayer
    rw [decodeStmt.eq_def n, hlayer, decodeStmt, layer hlayer]
    simp only [Except.map, StmtLayer.bare, decodeExpr_bare]
  case case3 =>
    intro n token expr hlayer
    rw [decodeStmt.eq_def n, hlayer, decodeStmt, layer hlayer]
    simp only [Except.map, StmtLayer.bare, decodeExpr_bare]
  case case4 =>
    intro n name hlayer
    rw [decodeStmt.eq_def n, hlayer, decodeStmt, layer hlayer]
    rfl
  case case5 =>
    intro n name init hlayer
    rw [decodeStmt.eq_def n, hlayer, decodeStmt, layer hlayer]
    simp only [Except.map, StmtLayer.bare, Option.map_some, decodeExpr_bare]
  case case6 =>
    intro n token condition yes hlayer ih
    rw [decodeStmt.eq_def n, hlayer, decodeStmt, layer hlayer]
    simp only [Except.map, StmtLayer.bare, Option.map_none, decodeExpr_bare, ih]
  case case7 =>
    intro n token condition yes no hlayer ihyes ihno
    rw [decodeStmt.eq_def n, hlayer, decodeStmt, layer hlayer]
    simp only [Except.map, StmtLayer.bare, Option.map_some, decodeExpr_bare, ihyes, ihno]
  case case8 =>
    intro n token body hlayer ih
    rw [decodeStmt.eq_def n, hlayer, decodeStmt, layer hlayer]
    simp only [Except.map, StmtLayer.bare, ih]
  case case9 =>
    intro n label items hderef ih
    have hbare : n.bare.deref =
        .sequence { label with anchor := none } (Node.bareItems items) := by
      rw [Node.deref_bare, ← Node.bare_deref, hderef, Node.bare]
    rw [decodeStmts.eq_def n, hderef, decodeStmts, hbare]
    exact ih
  case case10 =>
    intro n hother
    have hbare : n.bare.deref = n.deref.bare := by
      rw [Node.deref_bare, Node.bare_deref]
    rw [decodeStmts.eq_def n, decodeStmts, hbare]
    rcases n.deref_cases with ⟨label, text, h⟩ | ⟨label, items, h⟩ | ⟨label, entries, h⟩ |
      ⟨position, h⟩
    · rw [h]
      rfl
    · exact (hother label items h).elim
    · rw [h]
      rfl
    · rw [h]
      rfl
  case case11 => rfl
  case case12 =>
    intro item rest ihitem ihrest
    rw [Node.bareItems, decodeItems, decodeItems.eq_def (item :: rest), ihitem, ihrest]

/-- Documents that are the same when they are bare are decoded in the same way. -/
theorem decodeStmts_congr {n m : Node} (h : n.bare = m.bare) : decodeStmts n = decodeStmts m := by
  rw [← decode_bare.2.1 n, h, decode_bare.2.1]

theorem decodeExpr_congr {n m : Node} (h : n.bare = m.bare) : decodeExpr n = decodeExpr m := by
  rw [← decodeExpr_bare n, h, decodeExpr_bare]

end Program

end TreeScript
