import TreeScript.Proofs.Format
import TreeScript.Proofs.Resolution
import TreeScript.Proofs.WellFormed

/-!
# What the checks of a layer accept

One equivalence for each check of a node: names, operators, lines, fields, and the layers that are
put together from them. On the right of each stands what the format asks for. The nodes have no
aliases but as keys, which count by their texts here.
-/

namespace TreeScript.Program

open Yaml (Node Scalar)

open Format

theorem bind_iff {ε α β : Type} {x : Except ε α} {next : α → Except ε β} {b : β} {P Q : α → Prop}
    (hx : ∀ {a}, x = .ok a ↔ P a) (hnext : ∀ a, P a → (next a = .ok b ↔ Q a)) :
    (x >>= next) = .ok b ↔ ∃ a, P a ∧ Q a := by
  constructor
  · intro h
    obtain ⟨a, ha, h⟩ := bind_eq_ok h
    have hp : P a := hx.1 ha
    exact ⟨a, hp, (hnext a hp).1 h⟩
  · rintro ⟨a, hp, hq⟩
    rw [hx.2 hp]
    exact (hnext a hp).2 hq

theorem bind_of_ok {ε α β : Type} {x : Except ε α} {next : α → Except ε β} {a : α} {b : β}
    (hx : x = .ok a) (hnext : next a = .ok b) : (x >>= next) = .ok b := by
  rw [hx]
  exact hnext

theorem pure_iff {ε α : Type} {a b : α} : (pure a : Except ε α) = .ok b ↔ b = a :=
  ⟨fun h => (Except.ok.inj h).symm, fun h => h ▸ rfl⟩

/-! ## Words and signs -/

structure Lists (table : Table) (kinds : List Token.Kind) : Prop where
  spelled : table = kinds.map fun kind => (kind.text, kind)
  distinct : kinds.Pairwise fun a b => a.text ≠ b.text

theorem Lists.find?_iff {table : Table} {kinds : List Token.Kind} (h : Lists table kinds)
    {text : String} {kind : Token.Kind} :
    kinds.find? (·.text == text) = some kind ↔ (text, kind) ∈ table := by
  obtain ⟨rfl, hdistinct⟩ := h
  rw [List.mem_map]
  constructor
  · intro h
    have htext : kind.text = text := by simpa using List.find?_some h
    exact ⟨kind, List.mem_of_find?_eq_some h, by rw [htext]⟩
  · rintro ⟨kind', hmem, heq⟩
    cases heq
    induction kinds with
    | nil => cases hmem
    | cons first rest ih =>
        obtain ⟨hfirst, hrest⟩ := List.pairwise_cons.1 hdistinct
        rcases List.mem_cons.1 hmem with rfl | hmem
        · simp
        · have hne : (first.text == kind.text) = false := beq_eq_false_iff_ne.2 (hfirst kind hmem)
          rw [List.find?_cons, hne]
          exact ih hrest hmem

theorem lists_unaryTable : Lists unaryTable unaryOperators := ⟨rfl, by decide⟩

theorem lists_logicalTable : Lists logicalTable logicalOperators := ⟨rfl, by decide⟩

theorem lists_binaryTable : Lists binaryTable binaryOperators := ⟨rfl, by decide⟩

theorem ofWord_iff {name : String} :
    Token.Kind.ofWord name = .identifier ↔ name ∉ reservedWords := by
  have hwords : reservedWords = Token.Kind.keywords.map Token.Kind.text := rfl
  rw [hwords, List.mem_map]
  constructor
  · rintro h ⟨keyword, hmem, htext⟩
    exact ofWord_eq_identifier h keyword hmem htext
  · intro h
    have hnone : Token.Kind.keywords.find? (·.text == name) = none :=
      List.find?_eq_none.2 fun keyword hmem htext => h ⟨keyword, hmem, eq_of_beq htext⟩
    rw [Token.Kind.ofWord, hnone]
    rfl

theorem nonEmptyText_iff {n : Node} {what text : String} :
    nonEmptyText n what = .ok text ↔
      ∃ label, n = .scalar label text ∧ label.tag = "!!str" ∧ text ≠ "" := by
  cases n with
  | scalar label text' =>
      by_cases h : label.tag = "!!str" ∧ text' ≠ ""
      · simp only [nonEmptyText, h.1, beq_self_eq_true, String.isEmpty_eq_false_iff.2 h.2]
        grind
      · simp only [nonEmptyText]
        grind [complain, String.isEmpty_iff]
  | sequence _ _ | mapping _ _ | «alias» _ _ _ | endless _ => simp [nonEmptyText, complain]

theorem identifier_iff {n : Node} {what name : String} :
    identifier n what = .ok name ↔ Name n name := by
  constructor
  · intro h
    obtain ⟨text, htext, h⟩ := bind_eq_ok h
    obtain ⟨label, rfl, htag, hne⟩ := nonEmptyText_iff.1 htext
    split at h
    next => cases h
    next hword =>
      cases h
      exact .text htag hne (ofWord_iff.1 (by simpa using hword))
  · rintro ⟨htag, hne, hword⟩
    refine bind_of_ok (nonEmptyText_iff.2 ⟨_, rfl, htag, hne⟩) ?_
    rw [ofWord_iff.2 hword]
    rfl

/-! ## Fields -/

theorem variant_iff {n key body : Node} (hn : n.Resolved) :
    variant n = .ok (key, body) ↔ ∃ label, n = .mapping label [(key, body)] := by
  unfold variant
  rw [hn.deref]
  constructor
  · intro h
    split at h
    next label key' value =>
      have hvalue : value.Resolved := hn.value _ List.mem_cons_self
      rw [hvalue.deref] at h
      cases h
      exact ⟨label, rfl⟩
    next => cases h
  · rintro ⟨label, rfl⟩
    have hbody : body.Resolved := hn.value _ List.mem_cons_self
    change Except.ok (key, body.deref) = _
    rw [hbody.deref]

def fieldsOf (entries : Entries) : Fields :=
  (entries.map fun entry => (entry.1.text, entry.2)).reverse

theorem fieldsOf_cons (key value : Node) (rest : Entries) (before : Fields) :
    fieldsOf ((key, value) :: rest) ++ before = fieldsOf rest ++ (key.text, value) :: before := by
  simp [fieldsOf]

theorem readFields_iff {allowed : List String} {entries : Entries} {before f : Fields}
    (hvalues : ∀ entry ∈ entries, entry.2.deref = entry.2) :
    readFields allowed entries before = .ok f ↔
      (∀ entry ∈ entries, entry.1.text ∈ allowed) ∧
        (entries.Pairwise fun a b => a.1.text ≠ b.1.text) ∧
        (∀ entry ∈ entries, before.lookup entry.1.text = none) ∧
        f = fieldsOf entries ++ before := by
  induction entries generalizing before with
  | nil => simp [readFields, fieldsOf, eq_comm]
  | cons entry rest ih =>
      obtain ⟨key, value⟩ := entry
      obtain ⟨hderef, hrest⟩ := List.forall_mem_cons.1 hvalues
      have hnew (name : String) : List.lookup name ((key.text, value) :: before) = none ↔
          key.text ≠ name ∧ before.lookup name = none := by
        simp only [List.lookup_eq_none_iff, List.forall_mem_cons, bne_iff_ne, ne_comm]
      simp only [readFields, hderef, List.forall_mem_cons, List.pairwise_cons, fieldsOf_cons]
      by_cases hknown : key.text ∈ allowed
      · cases hlookup : before.lookup key.text with
        | some v => simp [hknown, complain]
        | none =>
            simp only [List.contains_eq_mem, hknown, decide_true, Bool.not_true,
              Bool.false_eq_true, if_false, Option.isSome_none, true_and, ih hrest, hnew]
            grind
      · simp [hknown, complain]

theorem fields_iff {body : Node} {allowed : List String} {f : Fields} (hbody : body.Resolved) :
    fields body allowed = .ok f ↔
      ∃ entries, Record body allowed entries ∧ f = fieldsOf entries := by
  cases body with
  | mapping label entries =>
      change readFields allowed entries [] = .ok f ↔ _
      rw [readFields_iff fun entry h => (hbody.value entry h).deref]
      constructor
      · rintro ⟨hknown, hdistinct, -, rfl⟩
        exact ⟨entries, ⟨⟨label, rfl⟩, hknown, hdistinct⟩, List.append_nil _⟩
      · rintro ⟨entries', ⟨⟨label', heq⟩, hknown, hdistinct⟩, rfl⟩
        cases heq
        exact ⟨hknown, hdistinct, fun _ _ => rfl, (List.append_nil _).symm⟩
  | scalar _ _ | sequence _ _ | «alias» _ _ _ | endless _ =>
      constructor
      · intro h
        cases h
      · rintro ⟨entries, ⟨⟨label, heq⟩, _, _⟩, _⟩
        cases heq

theorem lookup_iff_mem {f : Fields} (hdistinct : f.Pairwise fun a b => a.1 ≠ b.1) {name : String}
    {v : Node} : f.lookup name = some v ↔ (name, v) ∈ f := by
  refine ⟨mem_of_lookup, fun h => ?_⟩
  induction f with
  | nil => cases h
  | cons field rest ih =>
      obtain ⟨hfirst, hrest⟩ := List.pairwise_cons.1 hdistinct
      rcases List.mem_cons.1 h with rfl | hmem
      · simp
      · have hne : (name == field.1) = false := beq_eq_false_iff_ne.2 (hfirst _ hmem).symm
        rw [List.lookup_cons, hne]
        exact ih hrest hmem

section Fields

variable {body : Node} {allowed : List String} {entries : Entries}

theorem lookup_iff (hrecord : Record body allowed entries) {name : String} {v : Node} :
    (fieldsOf entries).lookup name = some v ↔ Field entries name v := by
  have hdistinct : (fieldsOf entries).Pairwise fun a b => a.1 ≠ b.1 := by
    rw [fieldsOf, List.pairwise_reverse, List.pairwise_map]
    exact hrecord.distinct.imp Ne.symm
  rw [lookup_iff_mem hdistinct, fieldsOf, List.mem_reverse, List.mem_map]
  constructor
  · rintro ⟨⟨key, value⟩, hmem, heq⟩
    cases heq
    exact ⟨key, hmem, rfl⟩
  · rintro ⟨key, hmem, rfl⟩
    exact ⟨(key, v), hmem, rfl⟩

theorem lookup_none_iff (hrecord : Record body allowed entries) {name : String} :
    (fieldsOf entries).lookup name = none ↔ Absent entries name := by
  rw [Option.eq_none_iff_forall_not_mem]
  constructor
  · rintro h ⟨key, value⟩ hmem rfl
    exact h value ((lookup_iff hrecord).2 ⟨key, hmem, rfl⟩)
  · intro h v hv
    obtain ⟨key, hmem, hname⟩ := (lookup_iff hrecord).1 hv
    exact h (key, v) hmem hname

theorem required_iff (hrecord : Record body allowed entries) {n : Node} {name : String} {v : Node} :
    required n (fieldsOf entries) name = .ok v ↔ Field entries name v := by
  rw [← lookup_iff hrecord]
  refine ⟨lookup_of_required, fun h => ?_⟩
  unfold required
  rw [h]

theorem integer?_iff {v : Node} {i : Int} :
    integer? v = some i ↔ ∃ label text meaning, v = .scalar label text ∧
      Scalar.ofTag label.tag text = some meaning ∧ meaning.integer? = some i := by
  cases v with
  | scalar label text =>
      change (Scalar.ofTag label.tag text).bind Scalar.integer? = some i ↔ _
      rw [Option.bind_eq_some_iff]
      constructor
      · rintro ⟨meaning, hmeaning, hi⟩
        exact ⟨label, text, meaning, rfl, hmeaning, hi⟩
      · rintro ⟨label', text', meaning, heq, hmeaning, hi⟩
        cases heq
        exact ⟨meaning, hmeaning, hi⟩
  | sequence _ _ | mapping _ _ | «alias» _ _ _ | endless _ => simp [integer?]

theorem lineOf_iff (hrecord : Record body allowed entries) {key : Node} {line : Int} :
    lineOf (fieldsOf entries) key = .ok line ↔ Line entries key line := by
  constructor
  · intro h
    unfold lineOf at h
    split at h
    next hline =>
      cases h
      exact .default ((lookup_none_iff hrecord).1 hline)
    next v hline =>
      have hfield := (lookup_iff hrecord).1 hline
      split at h
      next i hi =>
        obtain ⟨label, text, meaning, rfl, hmeaning, hi⟩ := integer?_iff.1 hi
        split at h
        next hpos =>
          cases h
          exact .given hfield hmeaning hi hpos
        next => cases h
      next => cases h
  · rintro (⟨hfield, hmeaning, hi, hpos⟩ | habsent)
    · have hi := integer?_iff.2 ⟨_, _, _, rfl, hmeaning, hi⟩
      simp only [lineOf, (lookup_iff hrecord).2 hfield, hi, hpos, if_true]
    · simp only [lineOf, (lookup_none_iff hrecord).2 habsent]

theorem operator_iff (hrecord : Record body allowed entries) {n : Node} {line : Int}
    {kinds : List Token.Kind} {table : Table} (htable : Lists table kinds) {op : Token} :
    operator n (fieldsOf entries) line kinds = .ok op ↔ Operator table entries line op := by
  constructor
  · intro h
    obtain ⟨v, hv, h⟩ := bind_eq_ok h
    have hfield := (required_iff hrecord).1 hv
    split at h
    next label text =>
      split at h
      next kind hkind =>
        cases h
        exact .field hfield (htable.find?_iff.1 hkind)
      next => cases h
    next => cases h
  · rintro ⟨hfield, hkind⟩
    have hop := (required_iff (n := n) hrecord).2 hfield
    have hkind := htable.find?_iff.2 hkind
    simp only [operator, hop, bind, Except.bind, hkind]
    rfl

end Fields

/-! ## Layers -/

theorem literalLayer_iff {key body : Node} {l : ExprLayer} :
    literalLayer key body = .ok l ↔ ∃ label text kind lexeme value, body = .scalar label text ∧
      Tagged label.tag text kind lexeme value ∧
      l = .literal ⟨kind, lexeme, value, key.position.line, label.position.column⟩ value := by
  constructor
  · intro h
    unfold literalLayer at h
    split at h
    next label text =>
      split at h
      next htag =>
        have htag : label.tag = "!!int" ∨ label.tag = "!!float" := by simpa using htag
        split at h
        next x hx =>
          obtain ⟨meaning, hmeaning, hx⟩ := Option.bind_eq_some_iff.1 hx
          cases h
          exact ⟨label, text, _, _, _, rfl, .number htag hmeaning hx, rfl⟩
        next => cases h
      next =>
        split at h
        next htag =>
          cases h
          exact ⟨label, text, _, _, _, rfl, .text (eq_of_beq htag), rfl⟩
        next =>
          split at h
          next htag =>
            split at h
            next b hb =>
              cases h
              cases b with
              | true => exact ⟨label, text, _, _, _, rfl, .yes (eq_of_beq htag) hb, rfl⟩
              | false => exact ⟨label, text, _, _, _, rfl, .no (eq_of_beq htag) hb, rfl⟩
            next => cases h
          next =>
            split at h
            next htag =>
              cases h
              exact ⟨label, text, _, _, _, rfl, .null (eq_of_beq htag), rfl⟩
            next => cases h
    next => cases h
  · rintro ⟨label, text, kind, lexeme, value, rfl, htagged, rfl⟩
    cases htagged with
    | number htag hmeaning hx =>
        have htag : (label.tag == "!!int" || label.tag == "!!float") = true := by simpa using htag
        have hx := Option.bind_eq_some_iff.2 ⟨_, hmeaning, hx⟩
        simp only [literalLayer, htag, hx, if_true]
    | text htag => simp [literalLayer, htag]
    | yes htag hb => simp [literalLayer, htag, htag ▸ hb]
    | no htag hb => simp [literalLayer, htag, htag ▸ hb]
    | null htag => simp [literalLayer, htag]

section Layers

variable {key body : Node}

theorem bind_fields_iff (hbody : body.Resolved) {allowed : List String} {α : Type}
    {next : Fields → Except DecodeError α} {a : α} {Q : Entries → Prop}
    (hnext : ∀ entries, Record body allowed entries →
      (next (fieldsOf entries) = .ok a ↔ Q entries)) :
    (fields body allowed >>= next) = .ok a ↔
      ∃ entries, Record body allowed entries ∧ Q entries := by
  constructor
  · intro h
    obtain ⟨f, hf, h⟩ := bind_eq_ok h
    obtain ⟨entries, hrecord, rfl⟩ := (fields_iff hbody).1 hf
    exact ⟨entries, hrecord, (hnext entries hrecord).1 h⟩
  · rintro ⟨entries, hrecord, hq⟩
    rw [(fields_iff hbody).2 ⟨entries, hrecord, rfl⟩]
    exact (hnext entries hrecord).2 hq

theorem unaryLayer_iff (hbody : body.Resolved) {l : ExprLayer} :
    unaryLayer key body = .ok l ↔ ∃ entries, Record body ["op", "line", "right"] entries ∧
      ∃ line, Line entries key line ∧ ∃ op, Operator unaryTable entries line op ∧
      ∃ right, Field entries "right" right ∧ l = .unary op right := by
  refine bind_fields_iff hbody fun entries hrecord => ?_
  refine bind_iff (lineOf_iff hrecord) fun line _ => ?_
  refine bind_iff (operator_iff hrecord lists_unaryTable) fun op _ => ?_
  exact bind_iff (required_iff hrecord) fun right _ => pure_iff

theorem operands_iff (hbody : body.Resolved) {table : Table} {kinds : List Token.Kind}
    (htable : Lists table kinds) {parts : Node × Token × Node} :
    operands key body kinds = .ok parts ↔
      ∃ entries, Record body ["op", "line", "left", "right"] entries ∧
      ∃ line, Line entries key line ∧ ∃ op, Operator table entries line op ∧
      ∃ left, Field entries "left" left ∧ ∃ right, Field entries "right" right ∧
        parts = (left, op, right) := by
  refine bind_fields_iff hbody fun entries hrecord => ?_
  refine bind_iff (lineOf_iff hrecord) fun line _ => ?_
  refine bind_iff (operator_iff hrecord htable) fun op _ => ?_
  refine bind_iff (required_iff hrecord) fun left _ => ?_
  exact bind_iff (required_iff hrecord) fun right _ => pure_iff

theorem variableLayer_iff (hbody : body.Resolved) {l : ExprLayer} :
    variableLayer key body = .ok l ↔
      (∃ name, Name body name ∧ l = .variable (.ofName name key.position.line)) ∨
        ∃ entries, Record body ["name", "line"] entries ∧
        ∃ named, Field entries "name" named ∧ ∃ name, Name named name ∧
        ∃ line, Line entries key line ∧ l = .variable (.ofName name line) := by
  have hname : (do
        let name ← identifier body "variable"
        return ExprLayer.variable (.ofName name key.position.line)) = .ok l ↔
      ∃ name, Name body name ∧ l = .variable (.ofName name key.position.line) :=
    bind_iff identifier_iff fun name _ => pure_iff
  have hfields : (do
        let f ← fields body ["name", "line"]
        let name ← identifier (← required body f "name") "name"
        let line ← lineOf f key
        return ExprLayer.variable (.ofName name line)) = .ok l ↔
      ∃ entries, Record body ["name", "line"] entries ∧ ∃ named, Field entries "name" named ∧
        ∃ name, Name named name ∧ ∃ line, Line entries key line ∧
        l = .variable (.ofName name line) := by
    refine bind_fields_iff hbody fun entries hrecord => ?_
    refine bind_iff (required_iff hrecord) fun named _ => ?_
    refine bind_iff identifier_iff fun name _ => ?_
    exact bind_iff (lineOf_iff hrecord) fun line _ => pure_iff
  cases body with
  | scalar label text =>
      refine hname.trans ⟨.inl, ?_⟩
      rintro (h | ⟨entries, hrecord, _⟩)
      · exact h
      · obtain ⟨_, heq⟩ := hrecord.mapping
        cases heq
  | sequence _ _ | mapping _ _ | «alias» _ _ _ | endless _ =>
      refine hfields.trans ⟨.inr, ?_⟩
      rintro (⟨name, hname, _⟩ | h)
      · cases hname
      · exact h

theorem assignLayer_iff (hbody : body.Resolved) {l : ExprLayer} :
    assignLayer key body = .ok l ↔ ∃ entries, Record body ["name", "line", "value"] entries ∧
      ∃ named, Field entries "name" named ∧ ∃ name, Name named name ∧
      ∃ line, Line entries key line ∧ ∃ value, Field entries "value" value ∧
        l = .assign (.ofName name line) value := by
  refine bind_fields_iff hbody fun entries hrecord => ?_
  refine bind_iff (required_iff hrecord) fun named _ => ?_
  refine bind_iff identifier_iff fun name _ => ?_
  refine bind_iff (lineOf_iff hrecord) fun line _ => ?_
  exact bind_iff (required_iff hrecord) fun value _ => pure_iff

theorem varLayer_iff (hbody : body.Resolved) {l : StmtLayer} :
    varLayer key body = .ok l ↔ ∃ entries, Record body ["name", "line", "init"] entries ∧
      ∃ named, Field entries "name" named ∧ ∃ name, Name named name ∧
      ∃ line, Line entries key line ∧
        l = .var (.ofName name line) ((fieldsOf entries).lookup "init") := by
  refine bind_fields_iff hbody fun entries hrecord => ?_
  refine bind_iff (required_iff hrecord) fun named _ => ?_
  refine bind_iff identifier_iff fun name _ => ?_
  exact bind_iff (lineOf_iff hrecord) fun line _ => pure_iff

theorem iteLayer_iff (hbody : body.Resolved) {l : StmtLayer} :
    iteLayer key body = .ok l ↔
      ∃ entries, Record body ["condition", "then", "else", "line"] entries ∧
      ∃ line, Line entries key line ∧ ∃ condition, Field entries "condition" condition ∧
      ∃ yes, Field entries "then" yes ∧
        l = .ite (.ofKind .ifWord line) condition yes ((fieldsOf entries).lookup "else") := by
  refine bind_fields_iff hbody fun entries hrecord => ?_
  refine bind_iff (lineOf_iff hrecord) fun line _ => ?_
  refine bind_iff (required_iff hrecord) fun condition _ => ?_
  exact bind_iff (required_iff hrecord) fun yes _ => pure_iff

end Layers

end TreeScript.Program
