import TreeScript.Proofs.Account

/-!
# How runs end

Which runtime errors and which faults a run can end in, said of the nodes of the tree and not of the
run: `Construct.Raises` lists the errors that come from a node itself, each with the token it points
at and its message, and `Construct.Crashes` the faults. A run from any state ends in a value or in
what one of the nodes of its tree raises or crashes with.
-/

namespace TreeScript

namespace Construct

/-- The errors that come from a node itself, under a nesting limit and where `asked` is why the
interpreter has been asked to stop by then. -/
inductive Raises (limit : Int) (asked : Option Cause) : Construct → RuntimeError → Prop where
  | tooDeep {n} : 0 < limit → Raises limit asked n (.tooDeep n.token limit)
  | stopped {stmt cause} : asked = some cause →
    Raises limit asked (.statement stmt) (.stopped stmt.token cause)
  | unsupported {token typeName} :
    Raises limit asked (.expression (.literal token (.foreign typeName)))
      (.unsupported token typeName)
  | undefinedRead {name} : Raises limit asked (.expression (.variable name)) (.undefined name)
  | undefinedWrite {name value} :
    Raises limit asked (.expression (.assign name value)) (.undefined name)
  | badOperand {op right} : op.kind = .minus →
    Raises limit asked (.expression (.unary op right))
      (.badOperands op "Operand must be a number.")
  | badAddends {left op right} : op.kind = .plus →
    Raises limit asked (.expression (.binary left op right))
      (.badOperands op "Operands must be two numbers or two strings.")
  | badOperands {left op right} :
    op.kind ≠ .equalEqual → op.kind ≠ .bangEqual → op.kind ≠ .plus →
    Raises limit asked (.expression (.binary left op right))
      (.badOperands op "Operands must be numbers.")
  | zeroDivisor {left op right} : op.kind = .slash →
    Raises limit asked (.expression (.binary left op right)) (.zeroDivisor op)

/-- The faults that come from a node itself: its operator is one of another kind of node. -/
inductive Crashes : Construct → Fault → Prop where
  | unaryOperator {op right} : op.kind ≠ .bang → op.kind ≠ .minus →
    Crashes (.expression (.unary op right)) (.unary op.lexeme)
  | binaryOperator {left op right} :
    op.kind ∉ ([.equalEqual, .bangEqual, .plus, .greater, .greaterEqual, .less, .lessEqual, .minus,
      .star, .slash] : List Token.Kind) →
    Crashes (.expression (.binary left op right)) (.binary op.lexeme)
  | logicalOperator {left op right} : op.kind ≠ .orWord → op.kind ≠ .andWord →
    Crashes (.expression (.logical left op right)) (.logical op.lexeme)

end Construct

/-! ## Computations with known endings -/

def Outcome.Within {α : Type} (E : RuntimeError → Prop) (F : Fault → Prop) : Outcome α → Prop
  | .value _ => True
  | .error e => E e
  | .fault f => F f

/-- Under the nesting limit `limit`, which it keeps, the computation ends in a value, in an error
that `E` allows for the signal at its end, or in a fault of `F`. -/
def Run.Ends {α : Type} (limit : Int) (E : Option Cause → RuntimeError → Prop) (F : Fault → Prop)
    (run : Run α) : Prop :=
  ∀ s, s.maxDepth = limit →
    (run s).2.maxDepth = limit ∧ (run s).1.Within (E (run s).2.signal.cause?) F

namespace Run.Ends

variable {α β : Type} {limit : Int} {E : Option Cause → RuntimeError → Prop} {F : Fault → Prop}

theorem pure (a : α) : Run.Ends limit E F (Run.pure a) := fun _ hs => ⟨hs, trivial⟩

theorem fail {e : RuntimeError} (he : ∀ asked, E asked e) :
    Run.Ends limit E F (Run.fail e : Run α) :=
  fun s hs => ⟨hs, he s.signal.cause?⟩

theorem crash {f : Fault} (hf : F f) : Run.Ends limit E F (Run.crash f : Run α) :=
  fun _ hs => ⟨hs, hf⟩

theorem bind {run : Run α} {next : α → Run β} (hrun : run.Ends limit E F)
    (hnext : ∀ a, (next a).Ends limit E F) : Run.Ends limit E F (run >>= next) := by
  intro s hs
  have h := hrun s hs
  rcases hrs : run s with ⟨outcome, t⟩
  rw [hrs] at h
  cases outcome with
  | value a =>
      rw [Run.bind_of_value hrs]
      exact hnext a t h.1
  | error e => rwa [Run.bind_of_error hrs]
  | fault f => rwa [Run.bind_of_fault hrs]

theorem nested {token : Token} {body : Run α}
    (hdeep : 0 < limit → ∀ asked, E asked (.tooDeep token limit))
    (hbody : body.Ends limit E F) : Run.Ends limit E F (Interpreter.nested token body) := by
  intro s hs
  simp only [Interpreter.nested]
  split
  next htoo =>
    refine ⟨hs, ?_⟩
    have hpos : 0 < s.maxDepth := by
      simp only [Interpreter.tooDeep, Bool.and_eq_true, decide_eq_true_eq] at htoo
      exact htoo.1
    change E _ (.tooDeep token s.maxDepth)
    rw [hs] at hpos ⊢
    exact hdeep hpos _
  next => exact hbody s.descend hs

theorem inScope {body : Run α} (hbody : body.Ends limit E F) :
    Run.Ends limit E F (Interpreter.inScope body) :=
  fun s hs => hbody { s with chain := s.chain.enter } hs

theorem checkSignal {token : Token} (h : ∀ cause, E (some cause) (.stopped token cause)) :
    Run.Ends limit E F (Interpreter.checkSignal token) := by
  intro s hs
  simp only [Interpreter.checkSignal]
  split
  next cause hcause =>
    refine ⟨hs, ?_⟩
    change E s.signal.cause? (.stopped token cause)
    rw [hcause]
    exact h cause
  next => exact ⟨hs, trivial⟩

theorem read {name : Token} (h : ∀ asked, E asked (.undefined name)) :
    Run.Ends limit E F (Interpreter.read name) := by
  intro s hs
  unfold Interpreter.read Chain.read Forest.read
  split
  next v _ => exact ⟨hs, trivial⟩
  next err heq =>
    split at heq
    · cases heq
    · cases heq
      exact ⟨hs, h _⟩

theorem write {name : Token} (h : ∀ asked, E asked (.undefined name)) (value : Value) :
    Run.Ends limit E F (Interpreter.write name value) := by
  intro s hs
  unfold Interpreter.write Chain.assign Forest.assign
  split
  next chain _ => exact ⟨hs, trivial⟩
  next err heq =>
    split at heq
    · cases heq
    · cases heq
      exact ⟨hs, h _⟩

end Run.Ends

/-! ## Operators -/

/-- What comes from a node is allowed. -/
structure Construct.Allowed (limit : Int) (E : Option Cause → RuntimeError → Prop)
    (F : Fault → Prop) (n : Construct) : Prop where
  error : ∀ asked err, n.Raises limit asked err → E asked err
  fault : ∀ f, n.Crashes f → F f

namespace Interpreter

open Run (Ends)

variable {limit : Int} {E : Option Cause → RuntimeError → Prop} {F : Fault → Prop}

theorem ends_constant {token : Token} {value : Literal}
    (h : Construct.Allowed limit E F (.expression (.literal token value))) :
    Ends limit E F (constant token value) := by
  unfold constant
  split
  · exact .pure _
  · exact .fail fun asked => h.error asked _ .unsupported
  · exact .pure _

theorem ends_decides {left right : Expr} {op : Token}
    (h : Construct.Allowed limit E F (.expression (.logical left op right))) (l : Value) :
    Ends limit E F (decides op l) := by
  unfold decides
  split
  · exact .pure _
  · exact .pure _
  next hor hand => exact .crash (h.fault _ (.logicalOperator hor hand))

variable [Machine]

theorem ends_applyUnary {op : Token} {operand : Expr}
    (h : Construct.Allowed limit E F (.expression (.unary op operand))) (right : Value) :
    Ends limit E F (applyUnary op right) := by
  unfold applyUnary
  split
  · exact .pure _
  next hkind =>
    split
    · exact .pure _
    · exact .fail fun asked => h.error asked _ (.badOperand hkind)
  next hbang hminus => exact .crash (h.fault _ (.unaryOperator hbang hminus))

theorem ends_applyBinary {left right : Expr} {op : Token}
    (h : Construct.Allowed limit E F (.expression (.binary left op right))) (l r : Value) :
    Ends limit E F (applyBinary op l r) := by
  unfold applyBinary
  split
  · exact .pure _
  · exact .pure _
  next hplus =>
    unfold add
    split
    · exact .pure _
    · exact .pure _
    · exact .pure _
    · exact .pure _
    · exact .fail fun asked => h.error asked _ (.badAddends hplus)
  next heq hne hplus =>
    split
    next x y =>
      unfold applyNumeric
      split
      · exact .pure _
      · exact .pure _
      · exact .pure _
      · exact .pure _
      · exact .pure _
      · exact .pure _
      next hslash =>
        split
        · exact .fail fun asked => h.error asked _ (.zeroDivisor hslash)
        · exact .pure _
      next => exact .crash (h.fault _ (.binaryOperator (by simp_all)))
    next => exact .fail fun asked => h.error asked _ (.badOperands heq hne hplus)

theorem ends_does {n : Construct} (h : n.Allowed limit E F) {α : Type} {run : Run α}
    (hrun : n.Does run) : Ends limit E F run := by
  cases hrun with
  | constant token value => exact ends_constant h
  | applyUnary op right v => exact ends_applyUnary h v
  | applyBinary left op right l r => exact ends_applyBinary h l r
  | decides left op right l => exact ends_decides h l
  | read name => exact .read fun asked => h.error asked _ .undefinedRead

/-! ## Runs -/

theorem ends_closed :
    Account.silent.Closed (Construct.Allowed limit E F) fun run _ => run.Ends limit E F where
  pure a := .pure a
  quiet h hrun := ends_does h hrun
  bind _ hrun hnext := .bind hrun hnext
  node h _ hbody := .nested (fun hpos asked => h.error asked _ (.tooDeep hpos)) hbody
  inScope hbody := .inScope hbody
  look h := .checkSignal fun _ => h.error _ _ (.stopped rfl)
  write v h := .write (fun asked => h.error asked _ .undefinedWrite) v
  declare _ _ _ hs := ⟨hs, trivial⟩
  printLine _ _ hs := ⟨hs, trivial⟩
  sequence hstmt hrest := .bind hstmt fun _ => hrest

/-- An expression ends in an error or a fault of one of its nodes. -/
theorem ends_eval (e : Expr) :
    Ends limit (fun asked err => ∃ n ∈ e.nodes, n.Raises limit asked err)
      (fun f => ∃ n ∈ e.nodes, n.Crashes f) (eval e) :=
  ends_closed.eval e fun n hn => ⟨fun _ _ herr => ⟨n, hn, herr⟩, fun _ hf => ⟨n, hn, hf⟩⟩

/-- A list of statements ends in an error or a fault of one of its nodes. -/
theorem ends_execute (program : List Stmt) :
    Ends limit (fun asked err => ∃ n ∈ Stmt.listNodes program, n.Raises limit asked err)
      (fun f => ∃ n ∈ Stmt.listNodes program, n.Crashes f) (execute program) :=
  ends_closed.execute program fun n hn => ⟨fun _ _ herr => ⟨n, hn, herr⟩, fun _ hf => ⟨n, hn, hf⟩⟩

end Interpreter

end TreeScript
