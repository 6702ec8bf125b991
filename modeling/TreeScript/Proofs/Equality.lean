import TreeScript.Proofs.Display
import TreeScript.Proofs.Environments
import TreeScript.Proofs.Pieces

/-!
# Equal values

Values are equal if and only if no program tells them apart. One direction is that programs run
alike from environments with the same names and with equal values: it would fail for the usual
comparison of numbers, which takes `0` for `-0` although they are printed differently, and which
takes no NaN for itself. The other direction is a program that compares.

Numbers that are equal may still have different bits, those of two NaNs, and results that are no
numbers may have any such bits. So every operator, every condition and every printed line is shown
not to depend on them (`Value.congruence_equals`).
-/

namespace TreeScript

/-! ## Equality of values -/

namespace Number

variable {x y x' y' : Double}

theorem same_iff_toFloat : same x y = true ↔ x.toFloat = y.toFloat := by
  rw [same_iff, Double.toFloat_eq_iff]

theorem isZero_eq_of_same (h : same x y = true) : isZero y = isZero x := by
  have hzero {z : Double} (hz : z.isNaN = true) : isZero z = false := by
    rw [Double.isNaN_iff] at hz
    exact beq_eq_false_iff_ne.2 (Nat.ne_of_gt (Nat.zero_lt_of_lt hz))
  obtain rfl | ⟨hx, hy⟩ := same_iff.1 h
  · rfl
  · rw [hzero hx, hzero hy]

variable [Machine]

theorem same_add (h : same x y = true) (h' : same x' y' = true) :
    same (x + x') (y + y') = true := by
  rw [same_iff_toFloat] at h h' ⊢
  rw [Double.toFloat_add, Double.toFloat_add, h, h']

theorem same_sub (h : same x y = true) (h' : same x' y' = true) :
    same (x - x') (y - y') = true := by
  rw [same_iff_toFloat] at h h' ⊢
  rw [Double.toFloat_sub, Double.toFloat_sub, h, h']

theorem same_mul (h : same x y = true) (h' : same x' y' = true) :
    same (x * x') (y * y') = true := by
  rw [same_iff_toFloat] at h h' ⊢
  rw [Double.toFloat_mul, Double.toFloat_mul, h, h']

theorem same_div (h : same x y = true) (h' : same x' y' = true) :
    same (x / x') (y / y') = true := by
  rw [same_iff_toFloat] at h h' ⊢
  rw [Double.toFloat_div, Double.toFloat_div, h, h']

theorem same_neg (h : same x y = true) : same (-x) (-y) = true := by
  rw [same_iff_toFloat] at h ⊢
  rw [Double.toFloat_neg, Double.toFloat_neg, h]

end Number

namespace Value

theorem equals_iff {v w : Value} :
    v.equals w = true ↔
      v = w ∨ ∃ x y, v = .number x ∧ w = .number y ∧ Number.same x y = true := by
  constructor
  · intro h
    cases v <;> cases w <;> simp_all [equals]
  · rintro (rfl | ⟨x, y, rfl, rfl, h⟩)
    · cases v <;> simp [equals, Number.same_refl]
    · exact h

theorem equals_refl (v : Value) : v.equals v = true := equals_iff.2 (.inl rfl)

theorem equivalence_equals : Equivalence fun v w : Value => v.equals w = true where
  refl := equals_refl
  symm {v w} h := by
    obtain rfl | ⟨x, y, rfl, rfl, hxy⟩ := equals_iff.1 h
    · exact h
    · exact Number.same_iff_toFloat.2 (Number.same_iff_toFloat.1 hxy).symm
  trans {u v w} h h' := by
    obtain rfl | ⟨x, y, rfl, rfl, hxy⟩ := equals_iff.1 h
    · exact h'
    · obtain rfl | ⟨y, z, hy, rfl, hyz⟩ := equals_iff.1 h'
      · exact h
      · cases hy
        rw [Number.same_iff_toFloat] at hxy hyz
        exact Number.same_iff_toFloat.2 (hxy.trans hyz)

theorem equals_congr {v w v' w' : Value} (h : v.equals w = true) (h' : v'.equals w' = true) :
    w.equals w' = v.equals v' := by
  rw [Bool.eq_iff_iff]
  have hequals := equivalence_equals
  exact ⟨fun hw => hequals.trans (hequals.trans h hw) (hequals.symm h'),
    fun hv => hequals.trans (hequals.trans (hequals.symm h) hv) h'⟩

def literal : Value → Literal
  | nil => .nil
  | bool b => .bool b
  | number x => .number x
  | text s => .text s

end Value

/-! ## Operators on equal values -/

namespace Interpreter

theorem constant_literal (token : Token) (v : Value) : constant token v.literal = Run.pure v := by
  cases v <;> rfl

section

variable [Machine] {v w v' w' : Value} {x y x' y' : Double}

theorem same_add (op : Token) (h : v.equals w = true) (h' : v'.equals w' = true) :
    Run.Same (fun v w : Value => v.equals w = true) (add op v v') (add op w w') := by
  obtain rfl | ⟨x, y, rfl, rfl, hxy⟩ := Value.equals_iff.1 h <;>
    obtain rfl | ⟨x', y', rfl, rfl, hxy'⟩ := Value.equals_iff.1 h'
  · exact (plain_add op v v').same.mono fun a _ hab => hab ▸ a.equals_refl
  · cases v with
    | nil | bool => exact .fail nofun
    | number z => exact .pure (Number.same_add (Number.same_refl z) hxy')
    | text s => exact .pure (Number.same_add (Number.same_refl _) hxy')
  · cases v' with
    | nil | bool => exact .fail nofun
    | number z => exact .pure (Number.same_add hxy (Number.same_refl z))
    | text s => exact .pure (Number.same_add (Number.same_refl _) hxy)
  · exact .pure (Number.same_add hxy hxy')

theorem same_applyNumeric (op : Token) (h : Number.same x y = true)
    (h' : Number.same x' y' = true) :
    Run.Same (fun v w : Value => v.equals w = true) (applyNumeric op x x')
      (applyNumeric op y y') := by
  have hless {a b c d : Double} (hac : Number.same a c = true) (hbd : Number.same b d = true) :
      decide (c < d) = decide (a < b) := by
    rw [Number.same_iff_toFloat] at hac hbd
    change decide (c.toFloat < d.toFloat) = decide (a.toFloat < b.toFloat)
    simp only [hac, hbd]
  have hleast {a b c d : Double} (hac : Number.same a c = true) (hbd : Number.same b d = true) :
      decide (c ≤ d) = decide (a ≤ b) := by
    rw [Number.same_iff_toFloat] at hac hbd
    change decide (c.toFloat ≤ d.toFloat) = decide (a.toFloat ≤ b.toFloat)
    simp only [hac, hbd]
  unfold applyNumeric
  rw [hless h' h, hleast h' h, hless h h', hleast h h', Number.isZero_eq_of_same h']
  split
  · exact .pure (Value.equals_refl _)
  · exact .pure (Value.equals_refl _)
  · exact .pure (Value.equals_refl _)
  · exact .pure (Value.equals_refl _)
  · exact .pure (Number.same_sub h h')
  · exact .pure (Number.same_mul h h')
  · split
    · exact .fail nofun
    · exact .pure (Number.same_div h h')
  · exact .crash _

theorem same_applyUnary (op : Token) (h : v.equals w = true) :
    Run.Same (fun v w : Value => v.equals w = true) (applyUnary op v) (applyUnary op w) := by
  obtain rfl | ⟨x, y, rfl, rfl, hxy⟩ := Value.equals_iff.1 h
  · exact (plain_applyUnary op v).same.mono fun a _ hab => hab ▸ a.equals_refl
  · unfold applyUnary
    split
    · exact .pure rfl
    · exact .pure (Number.same_neg hxy)
    · exact .crash _

theorem same_applyBinary (op : Token) (h : v.equals w = true) (h' : v'.equals w' = true) :
    Run.Same (fun v w : Value => v.equals w = true) (applyBinary op v v')
      (applyBinary op w w') := by
  unfold applyBinary
  rw [Value.equals_congr h h']
  split
  · exact .pure (Value.equals_refl _)
  · exact .pure (Value.equals_refl _)
  · exact same_add op h h'
  · obtain rfl | ⟨x, y, rfl, rfl, hxy⟩ := Value.equals_iff.1 h <;>
      obtain rfl | ⟨x', y', rfl, rfl, hxy'⟩ := Value.equals_iff.1 h'
    · split
      · exact same_applyNumeric op (Number.same_refl _) (Number.same_refl _)
      · exact .fail nofun
    · cases v with
      | number z => exact same_applyNumeric op (Number.same_refl z) hxy'
      | nil | bool | text => exact .fail nofun
    · cases v' with
      | number z => exact same_applyNumeric op hxy (Number.same_refl z)
      | nil | bool | text => exact .fail nofun
    · exact same_applyNumeric op hxy hxy'

end

end Interpreter

/-- Nothing that is done with values depends on which of two equal values they are. -/
theorem Value.congruence_equals [Machine] :
    Value.Congruence fun v w : Value => v.equals w = true where
  refl := equals_refl
  truthy h := by
    obtain rfl | ⟨x, y, rfl, rfl, -⟩ := equals_iff.1 h
    · rfl
    · rfl
  display h := by
    obtain rfl | ⟨x, y, rfl, rfl, hxy⟩ := equals_iff.1 h
    · rfl
    · exact (Number.display_eq_iff.2 hxy).symm
  unary h op := Interpreter.same_applyUnary op h
  binary h h' op := Interpreter.same_applyBinary op h h'

/-! ## Environments with equal values -/

structure Scope.Alike (a b : Scope) : Prop where
  names : b.names = a.names
  values : ∀ name v w, a.find? name = some v → b.find? name = some w → v.equals w = true

namespace Scope

variable {a b : Scope}

theorem alike_iff : a.Alike b ↔
    ∀ name, Option.Rel (fun v w => v.equals w = true) (a.find? name) (b.find? name) := by
  constructor
  · intro h name
    have hbound : name ∈ b.names ↔ name ∈ a.names := by rw [h.names]
    rw [mem_names, mem_names] at hbound
    have hvalues := h.values name
    cases hv : a.find? name with
    | none =>
        rw [hv] at hbound
        have hnone : b.find? name = none := by simpa using hbound
        rw [hnone]
        exact .none
    | some v =>
        obtain ⟨w, hw⟩ := Option.isSome_iff_exists.1 (hbound.2 (by rw [hv]; rfl))
        rw [hw]
        exact .some (hvalues v w hv hw)
  · intro h
    refine ⟨b.names_increasing.eq_of_mem_iff a.names_increasing fun name => ?_, ?_⟩
    · rw [mem_names, mem_names, (h name).isSome_eq]
    · intro name v w hv hw
      have hname := h name
      rw [hv, hw] at hname
      cases hname with | some hvw =>
      exact hvw

theorem Alike.refl (a : Scope) : a.Alike a := alike_iff.2 fun _ => .refl Value.equals_refl

theorem Alike.define (h : a.Alike b) (name : String) {v w : Value} (hvw : v.equals w = true) :
    (a.define name v).Alike (b.define name w) := by
  rw [alike_iff] at h ⊢
  intro other
  rw [find?_define, find?_define]
  split
  · exact .some hvw
  · exact h other

theorem congruence_alike :
    Scope.Congruence Scope.Alike Eq fun v w : Value => v.equals w = true where
  empty := .refl _
  find? h hname := hname ▸ alike_iff.1 h _
  define h hname hvw := hname ▸ h.define _ hvw

end Scope

/-- Runs that see scopes with the same names and equal values. -/
def View.equal : View :=
  .scopewise Scope.Alike Eq (fun v w => v.equals w = true) Eq Eq

theorem View.lawful_equal [Machine] : equal.Lawful :=
  lawful_scopewise Scope.congruence_alike Signal.congruence_eq Value.congruence_equals
    (fun htokens _ => by rw [htokens.elim id Eq.symm]) fun hname => by rw [hname]

namespace Interpreter

/-- Two interpreters see environments with the same names and with equal values, scope by scope, and
are otherwise in the same state for a run. -/
structure Alike (s t : Interpreter) : Prop where
  current : s.chain.current < s.chain.forest.size
  current' : t.chain.current < t.chain.forest.size
  stack : List.Forall₂ Scope.Alike s.stack t.stack
  level : t.level = s.level
  maxDepth : t.maxDepth = s.maxDepth
  signal : t.signal = s.signal

section

variable [Machine]

/-- Programs do not see a difference between equal values. -/
theorem alike_execute {s t : Interpreter} (h : s.Alike t) (program : List Stmt) :
    (execute program t).1 = (execute program s).1 ∧
      (∃ lines, (execute program s).2.printed = lines ++ s.printed ∧
        (execute program t).2.printed = lines ++ t.printed) ∧
      (execute program s).2.Alike (execute program t).2 := by
  have hstart : View.equal.State s.printed t.printed () s t :=
    ⟨h.current, h.current', h.stack, .inr h.level, h.maxDepth, h.signal.symm, [], rfl, rfl⟩
  have hruns := (View.lawful_equal.onStatements s.printed t.printed).execute_self (fun _ => rfl)
    program () (.inl trivial)
  obtain ⟨houtcome, hend⟩ := (hruns s t hstart).eq rfl fun _ _ => id
  have hlevel : (execute program t).2.level = (execute program s).2.level := by
    rw [(keeps_execute program t).level, (keeps_execute program s).level, h.level]
  exact ⟨houtcome, hend.printed, hend.current, hend.current', hend.stack, hlevel, hend.maxDepth,
    hend.signal.symm⟩

/-! ## Comparing -/

theorem applyBinary_equalEqual {op : Token} (h : op.kind = .equalEqual) (v w : Value) :
    applyBinary op v w = Run.pure (.bool (v.equals w)) := by
  unfold applyBinary
  rw [h]

theorem applyBinary_bangEqual {op : Token} (h : op.kind = .bangEqual) (v w : Value) :
    applyBinary op v w = Run.pure (.bool !v.equals w) := by
  unfold applyBinary
  rw [h]

def comparison (v : Value) : Stmt :=
  .print (.ofKind .printWord 1)
    (.binary (.literal (.ofKind .nilWord 1) v.literal) (.ofKind .equalEqual 1)
      (.variable (.ofName "x" 1)))

def holding (v : Value) : Interpreter := new.defineGlobal "x" v

theorem atRest_holding (v : Value) : (holding v).AtRest :=
  AtRest.new.of_restores (Session.restores_apply new (.define "x" v))

theorem stack_holding (v : Value) : (holding v).stack = [Scope.empty.define "x" v] :=
  (atRest_holding v).scopes_eq

theorem alike_holding {v w : Value} (h : v.equals w = true) : (holding v).Alike (holding w) := by
  refine ⟨(atRest_holding v).current_lt, (atRest_holding w).current_lt, ?_, rfl, rfl, rfl⟩
  rw [stack_holding, stack_holding]
  exact .cons ((Scope.Alike.refl _).define "x" h) .nil

theorem read_holding (v : Value) : (holding v).chain.read (.ofName "x" 1) = .ok v := by
  have hfind : BigStep.Stack.find? "x" (holding v).stack = some v := by
    rw [stack_holding, BigStep.Stack.find?, Scope.find?_define, if_pos rfl, Option.orElse_some]
  rcases Forest.read_cases (atRest_holding v).current_lt (.ofName "x" 1) with
    ⟨w, hread, hw⟩ | ⟨-, hw⟩
  · cases hw.symm.trans hfind
    exact hread
  · cases hw.symm.trans hfind

theorem printed_comparison (v w : Value) :
    (execute [comparison v] (holding w)).2.printed = [(Value.bool (v.equals w)).display] := by
  have hread := read_holding w
  have hequal : applyBinary (.ofKind .equalEqual 1) v w = .pure (.bool (v.equals w)) :=
    applyBinary_equalEqual rfl v w
  have hlevel : (holding w).level = 0 := rfl
  have hdepth : (holding w).maxDepth = 10000 := rfl
  have hsignal : (holding w).signal.cause? = none := rfl
  have hprinted : (holding w).printed = [] := rfl
  simp [execute, exec, comparison, statement, nested, eval, bind, Run.bind, constant_literal,
    Run.pure, read, descend, ascend, tooDeep, checkSignal, printLine, pure, hread, hlevel, hdepth,
    hsignal, hequal, hprinted]

/-- Equality of values is being indistinguishable. It is an equivalence, under which numbers go by
their bits and all NaNs are one number. The two operators for it always have a value, one the
opposite of the other. Programs run alike from environments with the same names and equal values,
and leave such environments; and values that are not equal are told apart by some program. -/
theorem equals_indistinguishable :
    (Equivalence fun v w : Value => v.equals w = true) ∧
    (∀ x y : Double, (Value.number x).equals (.number y) = true ↔
      x.bits = y.bits ∨ x.isNaN = true ∧ y.isNaN = true) ∧
    (∀ eq ne : Token, eq.kind = .equalEqual → ne.kind = .bangEqual →
      ∀ (v w : Value) (s : Interpreter), applyBinary eq v w s = (.value (.bool (v.equals w)), s) ∧
        applyBinary ne v w s = (.value (.bool !v.equals w), s)) ∧
    (∀ (program : List Stmt) (s t : Interpreter), s.Alike t →
      (execute program t).1 = (execute program s).1 ∧
        (∃ lines, (execute program s).2.printed = lines ++ s.printed ∧
          (execute program t).2.printed = lines ++ t.printed) ∧
        (execute program s).2.Alike (execute program t).2) ∧
    ∀ v w : Value, v.equals w = true ↔ ∀ program : List Stmt,
      (execute program (holding w)).1 = (execute program (holding v)).1 ∧
        (execute program (holding w)).2.output = (execute program (holding v)).2.output := by
  refine ⟨Value.equivalence_equals, fun x y => ?_, fun eq ne heq hne v w s => ?_,
    fun program s t h => alike_execute h program, fun v w => ⟨fun h program => ?_, fun h => ?_⟩⟩
  · rw [Double.bits_inj]
    exact Number.same_iff
  · rw [applyBinary_equalEqual heq, applyBinary_bangEqual hne]
    exact ⟨rfl, rfl⟩
  · obtain ⟨houtcome, ⟨lines, hlines, hlines'⟩, -⟩ := alike_execute (alike_holding h) program
    refine ⟨houtcome, ?_⟩
    rw [output, output, hlines, hlines']
    rfl
  · have houtput := (h [comparison v]).2
    rw [output, output, printed_comparison, printed_comparison,
      Value.equals_refl] at houtput
    cases hsame : v.equals w with
    | true => rfl
    | false =>
        rw [hsame] at houtput
        exact absurd houtput (by decide)

end

/-- Two NaNs with different bits in environments of different histories, and a program that compares
them. -/
theorem indistinguishable_notNumbers :
    let v := Value.number ⟨0x7FF8000000000000⟩
    let w := Value.number ⟨0xFFF0000000000001⟩
    let t := { holding w with
      chain := (holding w).chain.enter.leave (holding w).chain.root, printed := ["a"] }
    (holding v).Alike t ∧ (execute [comparison v] t).1 = (execute [comparison v] (holding v)).1 ∧
      (execute [comparison v] t).2.printed = ["true", "a"] ∧
      (execute [comparison v] (holding v)).2.Alike (execute [comparison v] t).2 := by
  intro v w t
  obtain ⟨-, hbits, -, hrun, -⟩ := equals_indistinguishable
  have hequal : v.equals w = true := (hbits _ _).2 (.inr (by decide))
  have halike : (holding v).Alike t := by
    have h := alike_holding hequal
    have hstack : t.stack = (holding w).stack := Forest.scopes_enclose_old _ h.current'
    refine ⟨h.current, ?_, hstack ▸ h.stack, rfl, rfl, rfl⟩
    exact Nat.lt_of_lt_of_eq (Nat.lt_succ_of_lt h.current') (Forest.size_enclose _ _).symm
  obtain ⟨houtcome, ⟨lines, hlines, hlines'⟩, hafter⟩ := hrun [comparison v] _ t halike
  refine ⟨halike, houtcome, ?_, hafter⟩
  have htrue : (execute [comparison v] (holding v)).2.printed = ["true"] := by
    rw [printed_comparison, Value.equals_refl]
    rfl
  obtain rfl : lines = ["true"] := by
    rw [← htrue, hlines]
    exact (List.append_nil lines).symm
  exact hlines'

end Interpreter

end TreeScript
