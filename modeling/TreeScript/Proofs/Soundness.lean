import TreeScript.Proofs.Endings
import TreeScript.Proofs.Placement

/-!
# Decoded programs run soundly

What the decoder accepts is what the interpreter knows. A decoded program is well-formed, and a run
of a well-formed program, from any state and under any nesting limit and signal, never ends in a
fault or in the complaint about a constant, and its errors point at lines.
-/

namespace TreeScript

/-- An error that points at a line and is not about a constant. -/
structure RuntimeError.Ordinary (err : RuntimeError) : Prop where
  line : 1 ≤ err.token.line
  supported : ∀ typeName, err.message ≠ "Unsupported literal of type " ++ typeName ++ "."

namespace RuntimeError

theorem ne_unsupported {message : String} (h : message.toList[2]? ≠ some 's')
    (typeName : String) : message ≠ "Unsupported literal of type " ++ typeName ++ "." := by
  intro heq
  apply h
  rw [heq]
  simp

theorem ordinary_tooDeep {token : Token} (h : 1 ≤ token.line) (limit : Int) :
    (tooDeep token limit).Ordinary :=
  ⟨h, ne_unsupported (by simp [tooDeep])⟩

theorem ordinary_stopped {token : Token} (h : 1 ≤ token.line) (cause : Cause) :
    (stopped token cause).Ordinary :=
  ⟨h, ne_unsupported (by simp [stopped])⟩

theorem ordinary_undefined {name : Token} (h : name.IsName) : (undefined name).Ordinary :=
  ⟨h.line, ne_unsupported (by simp [undefined])⟩

theorem ordinary_badOperands {op : Token} {message : String} (h : 1 ≤ op.line)
    (hmessage : message.toList[2]? ≠ some 's') : (badOperands op message).Ordinary :=
  ⟨h, ne_unsupported hmessage⟩

theorem ordinary_zeroDivisor {op : Token} (h : 1 ≤ op.line) : (zeroDivisor op).Ordinary :=
  ⟨h, ne_unsupported (by simp [zeroDivisor])⟩

end RuntimeError

/-! ## The nodes of well-formed trees -/

theorem Stmt.WellFormed.line {stmt : Stmt} (h : stmt.WellFormed) : 1 ≤ stmt.token.line := by
  cases stmt with
  | expression token expr => exact h.1
  | print token expr => exact h.1
  | var name init =>
      cases init with
      | none => exact Token.IsName.line h
      | some init => exact h.1.line
  | ite token condition yes no =>
      cases no with
      | none => exact h.1
      | some no => exact h.1
  | block token body => exact h.1

namespace Construct

def WellFormed : Construct → Prop
  | .expression e => e.WellFormed
  | .statement stmt => stmt.WellFormed

theorem WellFormed.line {n : Construct} (h : n.WellFormed) : 1 ≤ n.token.line := by
  cases n with
  | expression e => exact Expr.WellFormed.line h
  | statement stmt => exact Stmt.WellFormed.line h

theorem WellFormed.ordinary {n : Construct} {limit : Int} {asked : Option Cause}
    {err : RuntimeError} (h : n.WellFormed) (herr : n.Raises limit asked err) : err.Ordinary := by
  cases herr with
  | tooDeep _ => exact RuntimeError.ordinary_tooDeep h.line limit
  | stopped _ => exact RuntimeError.ordinary_stopped (Stmt.WellFormed.line h) _
  | unsupported => exact h.2.1.elim
  | undefinedRead => exact RuntimeError.ordinary_undefined h
  | undefinedWrite => exact RuntimeError.ordinary_undefined h.1
  | badOperand _ => exact RuntimeError.ordinary_badOperands h.1.line (by simp)
  | badAddends _ => exact RuntimeError.ordinary_badOperands h.1.line (by simp)
  | badOperands _ _ _ => exact RuntimeError.ordinary_badOperands h.1.line (by simp)
  | zeroDivisor _ => exact RuntimeError.ordinary_zeroDivisor h.1.line

theorem WellFormed.not_crashes {n : Construct} {f : Fault} (h : n.WellFormed) (hf : n.Crashes f) :
    False := by
  cases hf with
  | unaryOperator hbang hminus =>
      have hkind := h.1.kind
      simp only [List.mem_cons, List.not_mem_nil, or_false] at hkind
      exact hkind.elim hminus hbang
  | binaryOperator hother =>
      have hkind := h.1.kind
      simp only [List.mem_cons, List.not_mem_nil, or_false] at hkind hother
      grind
  | logicalOperator hor hand =>
      have hkind := h.1.kind
      simp only [List.mem_cons, List.not_mem_nil, or_false] at hkind
      exact hkind.elim hand hor

end Construct

theorem Expr.WellFormed.nodes {e : Expr} (h : e.WellFormed) : ∀ n ∈ e.nodes, n.WellFormed := by
  induction e with
  | literal token value => exact List.forall_mem_singleton.2 h
  | grouping token inner ih => exact List.forall_mem_cons.2 ⟨h, ih h.2⟩
  | unary op right ih => exact List.forall_mem_cons.2 ⟨h, ih h.2⟩
  | binary left op right ihl ihr =>
      exact List.forall_mem_cons.2 ⟨h, List.forall_mem_append.2 ⟨ihl h.2.1, ihr h.2.2⟩⟩
  | logical left op right ihl ihr =>
      exact List.forall_mem_cons.2 ⟨h, List.forall_mem_append.2 ⟨ihl h.2.1, ihr h.2.2⟩⟩
  | «variable» name => exact List.forall_mem_singleton.2 h
  | assign name value ih => exact List.forall_mem_cons.2 ⟨h, ih h.2⟩

theorem Stmt.nodes_and_listNodes_wellFormed :
    (∀ stmt : Stmt, stmt.WellFormed → ∀ n ∈ stmt.nodes, n.WellFormed) ∧
      ∀ program, Stmt.AllWellFormed program → ∀ n ∈ Stmt.listNodes program, n.WellFormed := by
  apply Stmt.induction
  case expression => exact fun token expr h => List.forall_mem_cons.2 ⟨h, h.2.nodes⟩
  case print => exact fun token expr h => List.forall_mem_cons.2 ⟨h, h.2.nodes⟩
  case varNil => exact fun name h => List.forall_mem_singleton.2 h
  case varInit => exact fun name init h => List.forall_mem_cons.2 ⟨h, h.2.nodes⟩
  case iteNone =>
    intro token condition yes hyes h
    exact List.forall_mem_cons.2 ⟨h, List.forall_mem_append.2 ⟨h.2.1.nodes, hyes h.2.2⟩⟩
  case iteSome =>
    intro token condition yes no hyes hno h
    have hbranches := List.forall_mem_append.2 ⟨hyes h.2.2.1, hno h.2.2.2⟩
    exact List.forall_mem_cons.2 ⟨h, List.forall_mem_append.2 ⟨h.2.1.nodes, hbranches⟩⟩
  case block => exact fun token body hbody h => List.forall_mem_cons.2 ⟨h, hbody h.2⟩
  case nil => exact fun _ => List.forall_mem_nil _
  case cons =>
    exact fun stmt rest hstmt hrest h => List.forall_mem_append.2 ⟨hstmt h.1, hrest h.2⟩

/-! ## Sound runs -/

def Run.Sound {α : Type} (run : Run α) : Prop :=
  ∀ s, (∀ f, (run s).1 ≠ .fault f) ∧ ∀ err, (run s).1 = .error err → err.Ordinary

theorem Run.sound_of_ends {α : Type} {run : Run α}
    (h : ∀ limit, run.Ends limit (fun _ => RuntimeError.Ordinary) fun _ => False) : run.Sound := by
  intro s
  have hend := (h s.maxDepth s rfl).2
  constructor
  · intro f hf
    rw [hf] at hend
    exact hend
  · intro err herr
    rw [herr] at hend
    exact hend

theorem Construct.WellFormed.allowed {n : Construct} (h : n.WellFormed) (limit : Int) :
    n.Allowed limit (fun _ => RuntimeError.Ordinary) fun _ => False :=
  ⟨fun _ _ => h.ordinary, fun _ => h.not_crashes⟩

namespace Interpreter

theorem sound_evaluate [Machine] {e : Expr} (h : e.WellFormed) : Run.Sound (evaluate e) :=
  Run.sound_of_ends fun limit => ends_closed.eval e fun n hn => (h.nodes n hn).allowed limit

theorem sound_execute [Machine] {program : List Stmt} (h : Stmt.AllWellFormed program) :
    Run.Sound (execute program) := by
  apply Run.sound_of_ends
  intro limit
  have hnodes := Stmt.nodes_and_listNodes_wellFormed.2 program h
  exact ends_closed.execute program fun n hn => (hnodes n hn).allowed limit

end Interpreter

namespace Program

open Yaml (Node)

theorem placed_readRoot {what : String} {text : RawText} {root : Node}
    (h : readRoot what text = .ok (some root)) : root.Placed := by
  unfold readRoot at h
  cases hroot : Node.ofText text with
  | error e => rw [hroot] at h; cases h
  | ok result =>
      rw [hroot] at h
      cases h
      exact Node.placed_ofText hroot

theorem mapError_eq_ok {ε ε' α : Type} {f : ε → ε'} {x : Except ε α} {a : α}
    (h : x.mapError f = .ok a) : x = .ok a := by
  cases x with
  | error e => cases h
  | ok b => cases h; rfl

theorem wellFormed_decode_text {text : RawText} {program : List Stmt}
    (h : decode text = .ok program) : Stmt.AllWellFormed program := by
  obtain ⟨found, hfound, h⟩ := bind_eq_ok h
  cases h
  obtain ⟨root?, hroot, hfound⟩ := bind_eq_ok hfound
  cases root? with
  | none =>
      cases hfound
      trivial
  | some root =>
      obtain ⟨statements, hstatements, hfound⟩ := bind_eq_ok hfound
      cases hfound
      exact wellFormed_decodeStmts (placed_readRoot hroot) (mapError_eq_ok hstatements)

theorem wellFormed_decodeExpression {text : RawText} {e : Expr}
    (h : decodeExpression text = .ok e) : e.WellFormed := by
  obtain ⟨root?, hroot, h⟩ := bind_eq_ok h
  cases root? with
  | none => cases h
  | some root => exact wellFormed_decodeExpr (placed_readRoot hroot) (mapError_eq_ok h)

/-- What is decoded, from a document whose nodes stand on lines or from any text, is well-formed at
every depth and runs soundly from every state, whatever the nesting limit and the signal are. -/
theorem decoded_sound [Machine] :
    (∀ (root : Node) (program : List Stmt), root.Placed → decodeStmts root = .ok program →
      Stmt.AllWellFormed program ∧ Run.Sound (Interpreter.execute program)) ∧
    (∀ (root : Node) (e : Expr), root.Placed → decodeExpr root = .ok e →
      e.WellFormed ∧ Run.Sound (Interpreter.evaluate e)) ∧
    (∀ (text : RawText) (program : List Stmt), decode text = .ok program →
      Stmt.AllWellFormed program ∧ Run.Sound (Interpreter.execute program)) ∧
    ∀ (text : RawText) (e : Expr), decodeExpression text = .ok e →
      e.WellFormed ∧ Run.Sound (Interpreter.evaluate e) := by
  refine ⟨fun root program hroot h => ?_, fun root e hroot h => ?_, fun text program h => ?_,
    fun text e h => ?_⟩
  · have hwell := wellFormed_decodeStmts hroot h
    exact ⟨hwell, Interpreter.sound_execute hwell⟩
  · have hwell := wellFormed_decodeExpr hroot h
    exact ⟨hwell, Interpreter.sound_evaluate hwell⟩
  · have hwell := wellFormed_decode_text h
    exact ⟨hwell, Interpreter.sound_execute hwell⟩
  · have hwell := wellFormed_decodeExpression h
    exact ⟨hwell, Interpreter.sound_evaluate hwell⟩

/-- The document `[{print: {unary: {op: -, right: {variable: x}}}}]`. -/
def negation : Node :=
  let leaf (column : Nat) (text : String) : Node := .scalar ⟨⟨1, column⟩, "!!str", none⟩ text
  let pair (column : Nat) (key value : Node) : Node :=
    .mapping ⟨⟨1, column⟩, "!!map", none⟩ [(key, value)]
  let operand := pair 34 (leaf 35 "variable") (leaf 45 "x")
  let body : Node :=
    .mapping ⟨⟨1, 18⟩, "!!map", none⟩ [(leaf 19 "op", leaf 23 "-"), (leaf 26 "right", operand)]
  .sequence ⟨⟨1, 1⟩, "!!seq", none⟩ [pair 2 (leaf 3 "print") (pair 10 (leaf 11 "unary") body)]

theorem placed_negation : negation.Placed := by
  have hleaf {column : Nat} {text : String} :
      (Node.scalar ⟨⟨1, column⟩, "!!str", none⟩ text).Placed :=
    .scalar (Nat.le_refl 1)
  have hpair {column : Nat} {key value : Node} (hkey : key.Placed) (hvalue : value.Placed) :
      (Node.mapping ⟨⟨1, column⟩, "!!map", none⟩ [(key, value)]).Placed :=
    .mapping (Nat.le_refl 1) (by simpa using hkey) (by simpa using hvalue)
  refine .sequence (Nat.le_refl 1) ?_
  simp only [List.forall_mem_singleton]
  refine hpair hleaf (hpair hleaf (.mapping (Nat.le_refl 1) ?_ ?_))
  · simp [hleaf]
  · simp [hleaf, hpair]

theorem decodeStmts_negation :
    decodeStmts negation =
      .ok [.print (.ofKind .printWord 1)
        (.unary ⟨.minus, "-", .nil, 1, 23⟩ (.variable (.ofName "x" 1)))] := by
  cbv

theorem negation_sound :
    negation.Placed ∧ ∃ program, decodeStmts negation = .ok program ∧
      Stmt.AllWellFormed program ∧ Run.Sound (Interpreter.execute program) :=
  ⟨placed_negation, _, decodeStmts_negation,
    decoded_sound.1 _ _ placed_negation decodeStmts_negation⟩

end Program

end TreeScript
