import TreeScript.Proofs.Aliases
import TreeScript.Proofs.Places

/-!
# Where errors stand

Every error of decoding stands at a node of the document, and a list of statements fails with the
error of its first item that is no statement. What stands behind this item has no part in the
error, and neither have the statements in front of it.
-/

namespace TreeScript

namespace Yaml.Node

/-- The node is a part of the other one: an item, a key or a value at any depth, also behind
aliases. -/
inductive Within (m : Node) : Node → Prop where
  | self : Within m m
  | item {label items item} : item ∈ items → Within m item → Within m (.sequence label items)
  | key {label entries entry} : entry ∈ entries → Within m entry.1 →
    Within m (.mapping label entries)
  | value {label entries entry} : entry ∈ entries → Within m entry.2 →
    Within m (.mapping label entries)
  | target {position name target} : Within m target → Within m (.alias position name target)

theorem Within.trans {k m n : Node} (hkm : k.Within m) (hmn : m.Within n) : k.Within n := by
  induction hmn with
  | self => exact hkm
  | item hmem _ ih => exact .item hmem ih
  | key hmem _ ih => exact .key hmem ih
  | value hmem _ ih => exact .value hmem ih
  | target _ ih => exact .target ih

theorem deref_within (n : Node) : n.deref.Within n := by
  fun_induction deref n with
  | case1 position name target ih => exact .target ih
  | case2 | case3 | case4 | case5 => exact .self

end Yaml.Node

namespace Program

open Yaml (Node Label)

/-! ## Computations on the parts of a node -/

def Yields {α : Type} (Q : α → Prop) (E : DecodeError → Prop) : Except DecodeError α → Prop
  | .ok a => Q a
  | .error e => E e

section Yields

variable {α β : Type} {P : α → Prop} {Q : β → Prop} {E : DecodeError → Prop}

theorem Yields.bind {x : Except DecodeError α} {next : α → Except DecodeError β}
    (hx : Yields P E x) (hnext : ∀ a, P a → Yields Q E (next a)) : Yields Q E (x >>= next) := by
  cases x with
  | error e => exact hx
  | ok a => exact hnext a hx

theorem Yields.of_ok {x : Except DecodeError α} {a : α} (h : Yields P E x) (hx : x = .ok a) :
    P a := by
  rw [hx] at h
  exact h

theorem Yields.of_error {x : Except DecodeError α} {e : DecodeError} (h : Yields P E x)
    (hx : x = .error e) : E e := by
  rw [hx] at h
  exact h

end Yields

/-- The computation stays within the node: its result is as it should be, and its error stands at a
part of the node. -/
abbrev Local (n : Node) {α : Type} (Q : α → Prop) : Except DecodeError α → Prop :=
  Yields Q fun e => ∃ m : Node, m.Within n ∧ m.position = e.position

theorem local_complain {n m : Node} {α : Type} {Q : α → Prop} (hm : m.Within n)
    (complaint : Complaint) : Local n Q (complain m complaint) :=
  ⟨m, hm, rfl⟩

theorem local_refuse {n m : Node} {α : Type} {Q : α → Prop} (hm : m.Within n)
    (complaint : Complaint) : Local n Q (refuse m complaint) :=
  local_complain hm _

/-! ## Checks -/

section Checks

variable {n m key body : Node} {f : Fields}

theorem local_variant (n : Node) :
    Local n (fun parts => parts.1.Within n ∧ parts.2.Within n) (variant n) := by
  have hderef := n.deref_within
  unfold variant
  split
  next label key value heq =>
    rw [heq] at hderef
    have hentry : (key, value) ∈ [(key, value)] := List.mem_cons_self
    exact ⟨Node.Within.trans (.key hentry .self) hderef,
      Node.Within.trans (.value hentry value.deref_within) hderef⟩
  next => exact local_refuse hderef _

def Fields.Within (f : Fields) (n : Node) : Prop := ∀ field ∈ f, field.2.Within n

theorem Fields.Within.lookup (hf : f.Within n) {name : String} {v : Node}
    (h : f.lookup name = some v) : v.Within n :=
  hf (name, v) (mem_of_lookup h)

theorem local_readFields (allowed : List String) {entries : List (Node × Node)} {before : Fields}
    (hentries : ∀ entry ∈ entries, entry.1.Within n ∧ entry.2.Within n)
    (hbefore : before.Within n) :
    Local n (fun f => Fields.Within f n) (readFields allowed entries before) := by
  induction entries generalizing before with
  | nil => exact hbefore
  | cons entry rest ih =>
      obtain ⟨key, value⟩ := entry
      obtain ⟨⟨hkey, hvalue⟩, hrest⟩ := List.forall_mem_cons.1 hentries
      rw [readFields]
      split
      · exact local_complain hkey _
      · split
        · exact local_complain hkey _
        · exact ih hrest (List.forall_mem_cons.2 ⟨value.deref_within.trans hvalue, hbefore⟩)

theorem local_fields (hbody : body.Within n) (allowed : List String) :
    Local n (fun f => Fields.Within f n) (fields body allowed) := by
  unfold fields
  split
  next label entries =>
    refine local_readFields allowed (fun entry hentry => ?_) (by simp [Fields.Within])
    exact ⟨Node.Within.trans (.key hentry .self) hbody,
      Node.Within.trans (.value hentry .self) hbody⟩
  next => exact local_refuse hbody _

theorem local_required (hm : m.Within n) (hf : f.Within n) (name : String) :
    Local n (fun v => v.Within n) (required m f name) := by
  unfold required
  split
  next v hv => exact hf.lookup hv
  next => exact local_complain hm _

theorem local_lineOf (hf : f.Within n) (key : Node) : Local n (fun _ => True) (lineOf f key) := by
  unfold lineOf
  split
  next => exact trivial
  next v hv =>
    split
    next i _ =>
      split
      · exact trivial
      · exact local_complain (hf.lookup hv) _
    next => exact local_complain (hf.lookup hv) _

theorem local_nonEmptyText (hm : m.Within n) (what : String) :
    Local n (fun _ => True) (nonEmptyText m what) := by
  unfold nonEmptyText
  split
  · split
    · exact trivial
    · exact local_complain hm _
  · exact local_complain hm _

theorem local_identifier (hm : m.Within n) (what : String) :
    Local n (fun _ => True) (identifier m what) := by
  refine (local_nonEmptyText hm what).bind fun name _ => ?_
  split
  · exact local_complain hm _
  · exact trivial

theorem local_operator (hm : m.Within n) (hf : f.Within n) (line : Int)
    (allowed : List Token.Kind) : Local n (fun _ => True) (operator m f line allowed) := by
  refine (local_required hm hf "op").bind fun op hop => ?_
  split
  · split
    · exact trivial
    · exact local_complain hop _
  · exact local_complain hop _

/-! ## Layers -/

def ExprLayer.Within (l : ExprLayer) (n : Node) : Prop := ∀ m ∈ l.children, m.Within n

def StmtLayer.Within (l : StmtLayer) (n : Node) : Prop := ∀ m ∈ l.children, m.Within n

variable (hbody : body.Within n)

include hbody

theorem local_literalLayer (key : Node) :
    Local n (fun l => ExprLayer.Within l n) (literalLayer key body) := by
  unfold literalLayer
  split
  · repeat' split
    all_goals first
      | exact local_complain hbody _
      | exact List.forall_mem_nil _
  · exact local_complain hbody _

theorem local_unaryLayer (key : Node) :
    Local n (fun l => ExprLayer.Within l n) (unaryLayer key body) := by
  refine (local_fields hbody _).bind fun f hf => ?_
  refine (local_lineOf hf key).bind fun line _ => ?_
  refine (local_operator hbody hf line _).bind fun op _ => ?_
  refine (local_required hbody hf "right").bind fun right hright => ?_
  exact List.forall_mem_singleton.2 hright

theorem local_operands (key : Node) (allowed : List Token.Kind) :
    Local n (fun parts => parts.1.Within n ∧ parts.2.2.Within n) (operands key body allowed) := by
  refine (local_fields hbody _).bind fun f hf => ?_
  refine (local_lineOf hf key).bind fun line _ => ?_
  refine (local_operator hbody hf line _).bind fun op _ => ?_
  refine (local_required hbody hf "left").bind fun left hleft => ?_
  refine (local_required hbody hf "right").bind fun right hright => ?_
  exact ⟨hleft, hright⟩

theorem local_variableLayer (key : Node) :
    Local n (fun l => ExprLayer.Within l n) (variableLayer key body) := by
  unfold variableLayer
  split
  · exact (local_identifier hbody _).bind fun name _ => List.forall_mem_nil _
  · refine (local_fields hbody _).bind fun f hf => ?_
    refine (local_required hbody hf "name").bind fun named hnamed => ?_
    refine (local_identifier hnamed _).bind fun name _ => ?_
    exact (local_lineOf hf key).bind fun line _ => List.forall_mem_nil _

theorem local_assignLayer (key : Node) :
    Local n (fun l => ExprLayer.Within l n) (assignLayer key body) := by
  refine (local_fields hbody _).bind fun f hf => ?_
  refine (local_required hbody hf "name").bind fun named hnamed => ?_
  refine (local_identifier hnamed _).bind fun name _ => ?_
  refine (local_lineOf hf key).bind fun line _ => ?_
  refine (local_required hbody hf "value").bind fun value hvalue => ?_
  exact List.forall_mem_singleton.2 hvalue

theorem local_exprBody (hkey : key.Within n) :
    Local n (fun l => ExprLayer.Within l n) (exprBody key body) := by
  have hpair {left right : Node} (h : left.Within n ∧ right.Within n) :
      ∀ m ∈ [left, right], m.Within n :=
    List.forall_mem_cons.2 ⟨h.1, List.forall_mem_singleton.2 h.2⟩
  unfold exprBody
  split
  · exact local_literalLayer hbody key
  · exact List.forall_mem_singleton.2 hbody
  · exact local_unaryLayer hbody key
  · exact (local_operands hbody key _).bind fun parts h => hpair h
  · exact (local_operands hbody key _).bind fun parts h => hpair h
  · exact local_variableLayer hbody key
  · exact local_assignLayer hbody key
  · exact local_complain hkey _

theorem local_varLayer (key : Node) :
    Local n (fun l => StmtLayer.Within l n) (varLayer key body) := by
  refine (local_fields hbody _).bind fun f hf => ?_
  refine (local_required hbody hf "name").bind fun named hnamed => ?_
  refine (local_identifier hnamed _).bind fun name _ => ?_
  refine (local_lineOf hf key).bind fun line _ m hm => ?_
  exact hf.lookup (Option.mem_toList.1 hm)

theorem local_iteLayer (key : Node) :
    Local n (fun l => StmtLayer.Within l n) (iteLayer key body) := by
  refine (local_fields hbody _).bind fun f hf => ?_
  refine (local_lineOf hf key).bind fun line _ => ?_
  refine (local_required hbody hf "condition").bind fun condition hcondition => ?_
  refine (local_required hbody hf "then").bind fun yes hyes => ?_
  have hno : ∀ m ∈ (f.lookup "else").toList, m.Within n :=
    fun m hm => hf.lookup (Option.mem_toList.1 hm)
  exact List.forall_mem_cons.2 ⟨hcondition, List.forall_mem_cons.2 ⟨hyes, hno⟩⟩

theorem local_stmtBody (hkey : key.Within n) :
    Local n (fun l => StmtLayer.Within l n) (stmtBody key body) := by
  unfold stmtBody
  split
  · exact List.forall_mem_singleton.2 hbody
  · exact List.forall_mem_singleton.2 hbody
  · exact local_varLayer hbody key
  · exact local_iteLayer hbody key
  · exact List.forall_mem_singleton.2 hbody
  · exact local_complain hkey _

end Checks

theorem local_exprLayer (n : Node) : Local n (fun l => ExprLayer.Within l n) (exprLayer n) :=
  (local_variant n).bind fun _ h => local_exprBody h.2 h.1

theorem local_stmtLayer (n : Node) : Local n (fun l => StmtLayer.Within l n) (stmtLayer n) :=
  (local_variant n).bind fun _ h => local_stmtBody h.2 h.1

theorem within_exprLayer {n m : Node} {l : ExprLayer} (h : exprLayer n = .ok l)
    (hm : m ∈ l.children) : m.Within n :=
  (local_exprLayer n).of_ok h m hm

theorem within_stmtLayer {n m : Node} {l : StmtLayer} (h : stmtLayer n = .ok l)
    (hm : m ∈ l.children) : m.Within n :=
  (local_stmtLayer n).of_ok h m hm

/-! ## Statements and expressions -/

theorem local_places (p : Place) :
    Local p.2 (fun below => ∀ c ∈ below, c.2.Within p.2) (places p) := by
  obtain ⟨role, n⟩ := p
  cases role with
  | expr =>
      cases h : exprLayer n with
      | error e =>
          rw [places, h]
          exact (local_exprLayer n).of_error h
      | ok l =>
          rw [places, h]
          intro c hc
          apply within_exprLayer h
          rw [← map_snd_exprPlaces]
          exact List.mem_map_of_mem hc
  | stmt =>
      cases h : stmtLayer n with
      | error e =>
          rw [places, h]
          exact (local_stmtLayer n).of_error h
      | ok l =>
          rw [places, h]
          intro c hc
          apply within_stmtLayer h
          rw [← map_snd_stmtPlaces]
          exact List.mem_map_of_mem hc
  | stmts =>
      have hderef := n.deref_within
      rw [places]
      split
      next label items heq =>
        rw [heq] at hderef
        intro c hc
        obtain ⟨item, hitem, rfl⟩ := List.mem_map.1 hc
        exact Node.Within.trans (.item hitem .self) hderef
      next => exact local_refuse hderef _

/-- The error at a place stands at a part of its node. -/
theorem within_of_check_error (p : Place) : ∀ {e : DecodeError}, check p = .error e →
    ∃ m : Node, m.Within p.2 ∧ m.position = e.position := by
  apply Place.induction _ p
  intro p ih e h
  rcases check_eq_error h with hlayer | ⟨below, hbelow, c, hc, he⟩
  · exact (local_places p).of_error hlayer
  · obtain ⟨m, hm, hposition⟩ := ih below hbelow c hc he
    exact ⟨m, hm.trans ((local_places p).of_ok hbelow c hc), hposition⟩

theorem check_of_decodeStmt_error {n : Node} {e : DecodeError} (h : decodeStmt n = .error e) :
    check (.stmt, n) = .error e := by
  rw [check, h]
  rfl

theorem check_of_decodeStmts_error {n : Node} {e : DecodeError} (h : decodeStmts n = .error e) :
    check (.stmts, n) = .error e := by
  rw [check, h]
  rfl

/-! ## The first item that is no statement -/

theorem decodeItems_error_iff {items : List Node} {e : DecodeError} :
    decodeItems items = .error e ↔ ∃ before item after, items = before ++ item :: after ∧
      (∀ b ∈ before, ∃ stmt, decodeStmt b = .ok stmt) ∧ decodeStmt item = .error e := by
  constructor
  · intro h
    induction items with
    | nil => rw [decodeItems] at h; cases h
    | cons first rest ih =>
        rw [decodeItems] at h
        cases hfirst : decodeStmt first with
        | error e' =>
            rw [hfirst] at h
            cases h
            exact ⟨[], first, rest, rfl, by simp, hfirst⟩
        | ok stmt =>
            rw [hfirst] at h
            cases hrest : decodeItems rest with
            | ok stmts => rw [hrest] at h; cases h
            | error e' =>
                rw [hrest] at h
                cases h
                obtain ⟨before, item, after, rfl, hbefore, hitem⟩ := ih hrest
                exact ⟨first :: before, item, after, rfl,
                  List.forall_mem_cons.2 ⟨⟨stmt, hfirst⟩, hbefore⟩, hitem⟩
  · rintro ⟨before, item, after, rfl, hbefore, hitem⟩
    induction before with
    | nil =>
        rw [List.nil_append, decodeItems, hitem]
        rfl
    | cons first rest ih =>
        obtain ⟨⟨stmt, hfirst⟩, hrest⟩ := List.forall_mem_cons.1 hbefore
        rw [List.cons_append, decodeItems, hfirst, ih hrest]
        rfl

theorem decodeStmts_of_deref {n : Node} {label : Label} {items : List Node}
    (h : n.deref = .sequence label items) : decodeStmts n = decodeItems items := by
  rw [decodeStmts, h]

/-- A document that is no program has its error at one of its nodes: at the root, if this is no
sequence, or else at a part of its first item that is no statement, and then the error is the one of
this item. Every list with this item has the same error, as long as there are only statements in
front of the item. -/
theorem decodeStmts_error_local {root : Node} {e : DecodeError} (h : decodeStmts root = .error e) :
    (∃ m : Node, m.Within root ∧ m.position = e.position) ∧
      (((∀ label items, root.deref ≠ .sequence label items) ∧
          e = ⟨root.deref.position, Complaint.notStatements.about root.deref⟩) ∨
        ∃ label before item after, root.deref = .sequence label (before ++ item :: after) ∧
          (∀ b ∈ before, ∃ stmt, decodeStmt b = .ok stmt) ∧ decodeStmt item = .error e ∧
          (∃ m : Node, m.Within item ∧ m.position = e.position) ∧
          ∀ (other : Node) (label' : Label) (before' after' : List Node),
            other.deref = .sequence label' (before' ++ item :: after') →
            (∀ b ∈ before', ∃ stmt, decodeStmt b = .ok stmt) → decodeStmts other = .error e) := by
  refine ⟨within_of_check_error _ (check_of_decodeStmts_error h), ?_⟩
  rcases root.deref_cases with ⟨label, text, hderef⟩ | ⟨label, items, hderef⟩ |
    ⟨label, entries, hderef⟩ | ⟨position, hderef⟩
  · rw [decodeStmts, hderef] at h
    rw [hderef]
    exact .inl ⟨by simp, (Except.error.inj h).symm⟩
  · rw [decodeStmts_of_deref hderef] at h
    obtain ⟨before, item, after, rfl, hbefore, hitem⟩ := decodeItems_error_iff.1 h
    have hpart := within_of_check_error _ (check_of_decodeStmt_error hitem)
    refine .inr ⟨label, before, item, after, hderef, hbefore, hitem, hpart, ?_⟩
    intro other label' before' after' hother hbefore'
    rw [decodeStmts_of_deref hother]
    exact decodeItems_error_iff.2 ⟨before', item, after', rfl, hbefore', hitem⟩
  · rw [decodeStmts, hderef] at h
    rw [hderef]
    exact .inl ⟨by simp, (Except.error.inj h).symm⟩
  · rw [decodeStmts, hderef] at h
    rw [hderef]
    exact .inl ⟨by simp, (Except.error.inj h).symm⟩

/-- The document
```
- print: {literal: &text a}
- block: [{print: *text}]
- print: {}
```
-/
def misusedText : Node :=
  let text : Node := .scalar ⟨⟨1, 20⟩, "!!str", some "text"⟩ "a"
  let print := pair 2 11 (leaf 2 12 "print") (.alias ⟨2, 19⟩ "text" text)
  .sequence ⟨⟨1, 1⟩, "!!seq", none⟩
    [pair 1 3 (leaf 1 3 "print") (pair 1 10 (leaf 1 11 "literal") text),
      pair 2 3 (leaf 2 3 "block") (.sequence ⟨⟨2, 10⟩, "!!seq", none⟩ [print]),
      pair 3 3 (leaf 3 3 "print") (.mapping ⟨⟨3, 10⟩, "!!map", none⟩ [])]

/-- The error of the second item stands in the first one, where the node of its alias is. -/
theorem decodeStmts_misusedText :
    decodeStmts misusedText = .error ⟨⟨1, 20⟩, .notVariant⟩ ∧
      ∃ m : Node, m.Within misusedText ∧ m.position = ⟨1, 20⟩ := by
  have h : decodeStmts misusedText = .error ⟨⟨1, 20⟩, .notVariant⟩ := by cbv
  exact ⟨h, (decodeStmts_error_local h).1⟩

end Program

end TreeScript
