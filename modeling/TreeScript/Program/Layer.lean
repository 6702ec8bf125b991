import TreeScript.Program.DecodeError
import TreeScript.Tree

/-!
# One layer of a program document

A statement or an expression is a mapping with one key, which names its kind; the value holds its
fields. `exprLayer` and `stmtLayer` check one node, with its fields but without the statements and
expressions below it, which they hand out as nodes. All nodes handed out are smaller than the node
they come from.
-/

namespace TreeScript.Program

open Yaml (Node Scalar)

inductive ExprLayer where
  | literal (token : Token) (value : Literal)
  | grouping (token : Token) (inner : Node)
  | unary (op : Token) (right : Node)
  | binary (left : Node) (op : Token) (right : Node)
  | logical (left : Node) (op : Token) (right : Node)
  | variable (name : Token)
  | assign (name : Token) (value : Node)

def ExprLayer.children : ExprLayer → List Node
  | .literal _ _ => []
  | .grouping _ inner => [inner]
  | .unary _ right => [right]
  | .binary left _ right => [left, right]
  | .logical left _ right => [left, right]
  | .variable _ => []
  | .assign _ value => [value]

/-- A statement with the nodes of its parts. -/
inductive StmtLayer where
  | expression (expr : Node)
  | print (token : Token) (expr : Node)
  | var (name : Token) (init : Option Node)
  | ite (token : Token) (condition yes : Node) (no : Option Node)
  | block (token : Token) (body : Node)

def StmtLayer.children : StmtLayer → List Node
  | .expression expr => [expr]
  | .print _ expr => [expr]
  | .var _ init => init.toList
  | .ite _ condition yes no => condition :: yes :: no.toList
  | .block _ body => [body]

def variant (n : Node) : Except DecodeError (Node × Node) :=
  match n.deref with
  | .mapping _ [(key, value)] => .ok (key, value.deref)
  | other => refuse other .notVariant

abbrev Fields : Type := List (String × Node)

/-- Reads entries as fields, on top of the fields that came before. -/
def readFields (allowed : List String) : List (Node × Node) → Fields → Except DecodeError Fields
  | [], before => .ok before
  | (key, value) :: rest, before =>
    if !allowed.contains key.text then complain key (.unknownField key.text allowed)
    else if (before.lookup key.text).isSome then complain key (.duplicateField key.text)
    else readFields allowed rest ((key.text, value.deref) :: before)

def fields (n : Node) (allowed : List String) : Except DecodeError Fields :=
  match n with
  | .mapping _ entries => readFields allowed entries []
  | other => refuse other .notMapping

def required (n : Node) (f : Fields) (name : String) : Except DecodeError Node :=
  match f.lookup name with
  | some v => .ok v
  | none => complain n (.missingField name)

def integer? : Node → Option Int
  | .scalar label text => (Scalar.ofTag label.tag text).bind Scalar.integer?
  | _ => none

/-- The line of a token: the field `line`, or else the line of the kind. -/
def lineOf (f : Fields) (key : Node) : Except DecodeError Int :=
  match f.lookup "line" with
  | none => .ok key.position.line
  | some v =>
    match integer? v with
    | some i => if 1 ≤ i then .ok i else complain v .badLine
    | none => complain v .badLine

def nonEmptyText (n : Node) (what : String) : Except DecodeError String :=
  match n with
  | .scalar label text =>
    if label.tag == "!!str" && !text.isEmpty then .ok text else complain n (.noText what)
  | _ => complain n (.noText what)

def identifier (n : Node) (what : String) : Except DecodeError String := do
  let name ← nonEmptyText n what
  if Token.Kind.ofWord name != .identifier then complain n (.reserved what name)
  return name

def unaryOperators : List Token.Kind := [.minus, .bang]

def logicalOperators : List Token.Kind := [.andWord, .orWord]

def binaryOperators : List Token.Kind :=
  [.minus, .plus, .slash, .star, .bangEqual, .equalEqual, .greater, .greaterEqual, .less,
    .lessEqual]

def operator (n : Node) (f : Fields) (line : Int) (allowed : List Token.Kind) :
    Except DecodeError Token := do
  let op ← required n f "op"
  match op with
  | .scalar _ text =>
    match allowed.find? (·.text == text) with
    | some kind => return ⟨kind, text, .nil, line, op.position.column⟩
    | none => complain op (.unsupportedOperator text)
  | _ => complain op (.unsupportedOperator op.text)

def literalLayer (key body : Node) : Except DecodeError ExprLayer :=
  match body with
  | .scalar label text =>
    let make (kind : Token.Kind) (lexeme : String) (value : Literal) : ExprLayer :=
      .literal ⟨kind, lexeme, value, key.position.line, label.position.column⟩ value
    if label.tag == "!!int" || label.tag == "!!float" then
      match (Scalar.ofTag label.tag text).bind Scalar.number? with
      | some x => .ok (make .number text (.number x))
      | none => complain body (.badNumber text)
    else if label.tag == "!!str" then .ok (make .string text (.text text))
    else if label.tag == "!!bool" then
      match Scalar.ofTag label.tag text with
      | some (.bool b) => .ok (make (if b then .trueWord else .falseWord) text (.bool b))
      | _ => complain body (.badBoolean text)
    else if label.tag == "!!null" then .ok (make .nilWord "nil" .nil)
    else complain body (.unsupportedTag label.tag)
  | _ => complain body .literalNotScalar

def unaryLayer (key body : Node) : Except DecodeError ExprLayer := do
  let f ← fields body ["op", "line", "right"]
  let line ← lineOf f key
  let op ← operator body f line unaryOperators
  let right ← required body f "right"
  return .unary op right

def operands (key body : Node) (allowed : List Token.Kind) :
    Except DecodeError (Node × Token × Node) := do
  let f ← fields body ["op", "line", "left", "right"]
  let line ← lineOf f key
  let op ← operator body f line allowed
  let left ← required body f "left"
  let right ← required body f "right"
  return (left, op, right)

/-- A variable: its name alone, or its fields. -/
def variableLayer (key body : Node) : Except DecodeError ExprLayer :=
  match body with
  | .scalar _ _ => do
    let name ← identifier body "variable"
    return .variable (.ofName name key.position.line)
  | _ => do
    let f ← fields body ["name", "line"]
    let name ← identifier (← required body f "name") "name"
    let line ← lineOf f key
    return .variable (.ofName name line)

def assignLayer (key body : Node) : Except DecodeError ExprLayer := do
  let f ← fields body ["name", "line", "value"]
  let name ← identifier (← required body f "name") "name"
  let line ← lineOf f key
  let value ← required body f "value"
  return .assign (.ofName name line) value

def exprBody (key body : Node) : Except DecodeError ExprLayer :=
  match key.text with
  | "literal" => literalLayer key body
  | "grouping" => .ok (.grouping (.ofKind .leftParen key.position.line) body)
  | "unary" => unaryLayer key body
  | "binary" => do
    let (left, op, right) ← operands key body binaryOperators
    return .binary left op right
  | "logical" => do
    let (left, op, right) ← operands key body logicalOperators
    return .logical left op right
  | "variable" => variableLayer key body
  | "assign" => assignLayer key body
  | kind => complain key (.unknownExpression kind)

def exprLayer (n : Node) : Except DecodeError ExprLayer := do
  let (key, body) ← variant n
  exprBody key body

def varLayer (key body : Node) : Except DecodeError StmtLayer := do
  let f ← fields body ["name", "line", "init"]
  let name ← identifier (← required body f "name") "name"
  let line ← lineOf f key
  return .var (.ofName name line) (f.lookup "init")

def iteLayer (key body : Node) : Except DecodeError StmtLayer := do
  let f ← fields body ["condition", "then", "else", "line"]
  let line ← lineOf f key
  let condition ← required body f "condition"
  let yes ← required body f "then"
  return .ite (.ofKind .ifWord line) condition yes (f.lookup "else")

def stmtBody (key body : Node) : Except DecodeError StmtLayer :=
  match key.text with
  | "expression" => .ok (.expression body)
  | "print" => .ok (.print (.ofKind .printWord key.position.line) body)
  | "var" => varLayer key body
  | "if" => iteLayer key body
  | "block" => .ok (.block (.ofKind .leftBrace key.position.line) body)
  | kind => complain key (.unknownStatement kind)

def stmtLayer (n : Node) : Except DecodeError StmtLayer := do
  let (key, body) ← variant n
  stmtBody key body

/-! ## The nodes of a layer are smaller -/

theorem sizeOf_deref_le (n : Node) : sizeOf n.deref ≤ sizeOf n := by
  fun_induction Node.deref n with
  | case1 _ _ target ih => simp only [Node.alias.sizeOf_spec]; omega
  | case2 | case3 | case4 | case5 => exact Nat.le_refl _

theorem sizeOf_variant {n key body : Node} (h : variant n = .ok (key, body)) :
    sizeOf body < sizeOf n := by
  have hn := sizeOf_deref_le n
  unfold variant at h
  split at h
  next key' value heq =>
    cases h
    have hv := sizeOf_deref_le value
    rw [heq] at hn
    simp only [Node.mapping.sizeOf_spec, List.cons.sizeOf_spec, List.nil.sizeOf_spec,
      Prod.mk.sizeOf_spec] at hn
    omega
  next => cases h

theorem mem_readFields {allowed : List String} {entries : List (Node × Node)} {before f : Fields}
    (h : readFields allowed entries before = .ok f) {p : String × Node} (hp : p ∈ f) :
    p ∈ before ∨ ∃ e ∈ entries, p.2 = e.2.deref := by
  induction entries generalizing before with
  | nil => cases h; exact .inl hp
  | cons entry rest ih =>
    obtain ⟨key, value⟩ := entry
    simp only [readFields] at h
    split at h
    · cases h
    · split at h
      · cases h
      · rcases ih h with hm | ⟨e, he, heq⟩
        · rcases List.mem_cons.1 hm with rfl | hm
          · exact .inr ⟨(key, value), List.mem_cons_self, rfl⟩
          · exact .inl hm
        · exact .inr ⟨e, List.mem_cons_of_mem _ he, heq⟩

theorem mem_of_lookup {f : Fields} {name : String} {v : Node} (h : f.lookup name = some v) :
    (name, v) ∈ f := by
  induction f with
  | nil => cases h
  | cons p rest ih =>
    obtain ⟨k, w⟩ := p
    rw [List.lookup_cons] at h
    split at h
    next heq => cases h; rw [eq_of_beq heq]; exact List.mem_cons_self
    next => exact List.mem_cons_of_mem _ (ih h)

theorem sizeOf_field {n v : Node} {allowed : List String} {f : Fields} {name : String}
    (hf : fields n allowed = .ok f) (hv : f.lookup name = some v) : sizeOf v < sizeOf n := by
  unfold fields at hf
  split at hf
  next label entries =>
    rcases mem_readFields hf (mem_of_lookup hv) with h | ⟨e, he, heq⟩
    · cases h
    · have h₁ := List.sizeOf_lt_of_mem he
      have h₂ := sizeOf_deref_le e.2
      obtain ⟨k, w⟩ := e
      simp only at heq h₂
      subst heq
      simp only [Prod.mk.sizeOf_spec, Node.mapping.sizeOf_spec] at h₁ ⊢
      omega
  next => cases hf

theorem lookup_of_required {n v : Node} {f : Fields} {name : String}
    (h : required n f name = .ok v) : f.lookup name = some v := by
  unfold required at h
  split at h
  next heq => cases h; exact heq
  next => cases h

theorem bind_eq_ok {x : Except ε α} {next : α → Except ε β} {b : β}
    (h : (x >>= next) = .ok b) : ∃ a, x = .ok a ∧ next a = .ok b := by
  cases x with
  | error e => cases h
  | ok a => exact ⟨a, rfl, h⟩

theorem sizeOf_operands {key body left right : Node} {op : Token} {allowed : List Token.Kind}
    (h : operands key body allowed = .ok (left, op, right)) :
    sizeOf left < sizeOf body ∧ sizeOf right < sizeOf body := by
  obtain ⟨f, hf, h⟩ := bind_eq_ok h
  obtain ⟨line, -, h⟩ := bind_eq_ok h
  obtain ⟨op', -, h⟩ := bind_eq_ok h
  obtain ⟨l, hl, h⟩ := bind_eq_ok h
  obtain ⟨r, hr, h⟩ := bind_eq_ok h
  cases h
  exact ⟨sizeOf_field hf (lookup_of_required hl), sizeOf_field hf (lookup_of_required hr)⟩

theorem children_literalLayer {key body : Node} {l : ExprLayer}
    (h : literalLayer key body = .ok l) : l.children = [] := by
  unfold literalLayer at h
  split at h
  · repeat' split at h
    all_goals cases h
    all_goals rfl
  · cases h

theorem children_variableLayer {key body : Node} {l : ExprLayer}
    (h : variableLayer key body = .ok l) : l.children = [] := by
  unfold variableLayer at h
  split at h
  · obtain ⟨_, -, h⟩ := bind_eq_ok h
    cases h; rfl
  · obtain ⟨_, -, h⟩ := bind_eq_ok h
    obtain ⟨_, -, h⟩ := bind_eq_ok h
    obtain ⟨_, -, h⟩ := bind_eq_ok h
    obtain ⟨_, -, h⟩ := bind_eq_ok h
    cases h; rfl

theorem sizeOf_exprBody {key body : Node} {l : ExprLayer} (h : exprBody key body = .ok l) :
    ∀ m ∈ l.children, sizeOf m ≤ sizeOf body := by
  unfold exprBody at h
  split at h
  · simp [children_literalLayer h]
  · cases h; simp [ExprLayer.children]
  · obtain ⟨f, hf, h⟩ := bind_eq_ok h
    obtain ⟨_, -, h⟩ := bind_eq_ok h
    obtain ⟨_, -, h⟩ := bind_eq_ok h
    obtain ⟨r, hr, h⟩ := bind_eq_ok h
    cases h
    simpa [ExprLayer.children] using Nat.le_of_lt (sizeOf_field hf (lookup_of_required hr))
  · obtain ⟨⟨left, op, right⟩, hp, h⟩ := bind_eq_ok h
    cases h
    have := sizeOf_operands hp
    simp only [ExprLayer.children, List.mem_cons, List.not_mem_nil, or_false]
    rintro m (rfl | rfl) <;> omega
  · obtain ⟨⟨left, op, right⟩, hp, h⟩ := bind_eq_ok h
    cases h
    have := sizeOf_operands hp
    simp only [ExprLayer.children, List.mem_cons, List.not_mem_nil, or_false]
    rintro m (rfl | rfl) <;> omega
  · simp [children_variableLayer h]
  · obtain ⟨f, hf, h⟩ := bind_eq_ok h
    obtain ⟨_, -, h⟩ := bind_eq_ok h
    obtain ⟨_, -, h⟩ := bind_eq_ok h
    obtain ⟨_, -, h⟩ := bind_eq_ok h
    obtain ⟨v, hv, h⟩ := bind_eq_ok h
    cases h
    simpa [ExprLayer.children] using Nat.le_of_lt (sizeOf_field hf (lookup_of_required hv))
  · cases h

theorem sizeOf_exprLayer {n m : Node} {l : ExprLayer} (h : exprLayer n = .ok l)
    (hm : m ∈ l.children) : sizeOf m < sizeOf n := by
  obtain ⟨⟨key, body⟩, hv, h⟩ := bind_eq_ok h
  have h₁ := sizeOf_variant hv
  have h₂ := sizeOf_exprBody h m hm
  omega

theorem sizeOf_stmtBody {key body : Node} {l : StmtLayer} (h : stmtBody key body = .ok l) :
    ∀ m ∈ l.children, sizeOf m ≤ sizeOf body := by
  unfold stmtBody at h
  split at h
  · cases h; simp [StmtLayer.children]
  · cases h; simp [StmtLayer.children]
  · obtain ⟨f, hf, h⟩ := bind_eq_ok h
    obtain ⟨_, -, h⟩ := bind_eq_ok h
    obtain ⟨_, -, h⟩ := bind_eq_ok h
    obtain ⟨_, -, h⟩ := bind_eq_ok h
    cases h
    simp only [StmtLayer.children, Option.mem_toList]
    exact fun m hm => Nat.le_of_lt (sizeOf_field hf hm)
  · obtain ⟨f, hf, h⟩ := bind_eq_ok h
    obtain ⟨_, -, h⟩ := bind_eq_ok h
    obtain ⟨c, hc, h⟩ := bind_eq_ok h
    obtain ⟨y, hy, h⟩ := bind_eq_ok h
    cases h
    simp only [StmtLayer.children, List.mem_cons, Option.mem_toList]
    rintro m (rfl | rfl | hm)
    · exact Nat.le_of_lt (sizeOf_field hf (lookup_of_required hc))
    · exact Nat.le_of_lt (sizeOf_field hf (lookup_of_required hy))
    · exact Nat.le_of_lt (sizeOf_field hf hm)
  · cases h; simp [StmtLayer.children]
  · cases h

theorem sizeOf_stmtLayer {n m : Node} {l : StmtLayer} (h : stmtLayer n = .ok l)
    (hm : m ∈ l.children) : sizeOf m < sizeOf n := by
  obtain ⟨⟨key, body⟩, hv, h⟩ := bind_eq_ok h
  have h₁ := sizeOf_variant hv
  have h₂ := sizeOf_stmtBody h m hm
  omega

end TreeScript.Program
