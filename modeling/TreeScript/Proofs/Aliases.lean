import Mathlib
import TreeScript.Proofs.Resolution

/-!
# Aliases and anchors

As the root, as an item and as a value, an alias does what a copy of its node does: `Node.expanded`
puts such copies in place of all aliases, and a document is decoded in the same way with them. The
names of anchors say nothing there either, and may be changed at will (`Node.renamed`). A key is
different. It counts by its text, and the text of an alias is the name of its anchor and not the
text of the node that it stands for, so that a document with an alias as a key may get another
meaning, or lose it, when an anchor is renamed.
-/

namespace TreeScript

namespace Yaml

def Label.renamed (rename : String → String) (label : Label) : Label :=
  { label with anchor := label.anchor.map rename }

namespace Node

/-! ## Other names for anchors -/

section Renamed

variable (rename : String → String)

mutual

def renamed : Node → Node
  | .scalar label text => .scalar (label.renamed rename) text
  | .sequence label items => .sequence (label.renamed rename) (renamedItems items)
  | .mapping label entries => .mapping (label.renamed rename) (renamedEntries entries)
  | .alias position name target => .alias position (rename name) target.renamed
  | .endless position => .endless position

def renamedItems : List Node → List Node
  | [] => []
  | item :: rest => item.renamed :: renamedItems rest

def renamedEntries : List (Node × Node) → List (Node × Node)
  | [] => []
  | (key, value) :: rest => (key.renamed, value.renamed) :: renamedEntries rest

end

end Renamed

variable {rename : String → String}

theorem bareKey_renamed {key : Node} (h : ∀ name ∈ key.aliasName, rename name = name) :
    (key.renamed rename).bareKey = key.bareKey := by
  cases key with
  | scalar label text => rfl
  | sequence label items => rfl
  | mapping label entries => rfl
  | «alias» position name target =>
      have hname : rename name = name := h name List.mem_cons_self
      simp only [renamed, bareKey, text, hname]
      rfl
  | endless position => rfl

mutual

theorem bare_renamed {n : Node} (h : ∀ name ∈ n.aliasKeys, rename name = name) :
    (n.renamed rename).bare = n.bare := by
  match n with
  | .scalar label text => rfl
  | .sequence label items =>
      rw [renamed, bare, bare, bareItems_renamed h]
      rfl
  | .mapping label entries =>
      rw [renamed, bare, bare, bareEntries_renamed h]
      rfl
  | .alias position name target =>
      rw [renamed, bare, bare]
      exact bare_renamed h
  | .endless position => rfl

theorem bareItems_renamed {items : List Node}
    (h : ∀ name ∈ aliasKeysOfItems items, rename name = name) :
    bareItems (renamedItems rename items) = bareItems items := by
  match items with
  | [] => rfl
  | item :: rest =>
      rw [aliasKeysOfItems, List.forall_mem_append] at h
      rw [renamedItems, bareItems, bareItems, bare_renamed h.1, bareItems_renamed h.2]

theorem bareEntries_renamed {entries : List (Node × Node)}
    (h : ∀ name ∈ aliasKeysOfEntries entries, rename name = name) :
    bareEntries (renamedEntries rename entries) = bareEntries entries := by
  match entries with
  | [] => rfl
  | (key, value) :: rest =>
      rw [aliasKeysOfEntries, List.forall_mem_append, List.forall_mem_append] at h
      obtain ⟨⟨hkey, hvalue⟩, hrest⟩ := h
      rw [renamedEntries, bareEntries, bareEntries, bareKey_renamed hkey, bare_renamed hvalue,
        bareEntries_renamed hrest]

end

end Node

def hasEvents (text : RawText) (expected : List Event) : Bool :=
  match events text with
  | .ok (some found) => decide (found = expected)
  | _ => false

theorem Node.ofText_of_hasEvents {text : RawText} {expected : List Event} {n : Node}
    (h : hasEvents text expected = true) (hn : Node.ofEvents expected = .ok n) :
    Node.ofText text = .ok (some n) := by
  unfold hasEvents at h
  split at h
  next found hfound =>
    unfold Node.ofText
    rw [hfound, of_decide_eq_true h]
    change (do return some (← Node.ofEvents expected)) = _
    rw [hn]
    rfl
  next => cases h

end Yaml

namespace Program

open Yaml (Node)

/-! ## Decoding -/

theorem decode_of_ofText {text : RawText} {n : Node} (h : Node.ofText text = .ok (some n)) :
    decode text = (decodeStmts n).mapError .notProgram := by
  unfold decode decode? readRoot
  rw [h]
  change (do
    let program ← (do return some (← (decodeStmts n).mapError ReadError.notProgram))
    return program.getD []) = _
  cases decodeStmts n with
  | ok program => rfl
  | error e => rfl

theorem decodeExpression_of_ofText {text : RawText} {n : Node}
    (h : Node.ofText text = .ok (some n)) :
    decodeExpression text = (decodeExpr n).mapError .notProgram := by
  unfold decodeExpression readRoot
  rw [h]
  rfl

/-- A document without aliases as keys is decoded like the one with copies in place of its aliases,
in its statements with all their tokens as well as in its errors with their places. -/
theorem decode_expanded {n : Node} (h : n.aliasKeys = []) :
    n.expanded.AliasFree ∧ decodeStmts n = decodeStmts n.expanded ∧
      decodeExpr n = decodeExpr n.expanded ∧
      ∀ text, Node.ofText text = .ok (some n) →
        decode text = (decodeStmts n.expanded).mapError .notProgram ∧
          decodeExpression text = (decodeExpr n.expanded).mapError .notProgram := by
  have hbare : n.bare = n.expanded.bare := (Node.bare_expanded h).symm
  have hstmts := decodeStmts_congr hbare
  have hexpr := decodeExpr_congr hbare
  refine ⟨n.aliasFree_expanded, hstmts, hexpr, fun text htext => ⟨?_, ?_⟩⟩
  · rw [decode_of_ofText htext, hstmts]
  · rw [decodeExpression_of_ofText htext, hexpr]

def leaf (line column : Nat) (text : String) : Node := .scalar ⟨⟨line, column⟩, "!!str", none⟩ text

def pair (line column : Nat) (key value : Node) : Node :=
  .mapping ⟨⟨line, column⟩, "!!map", none⟩ [(key, value)]

/-- The document
```
- expression: &text {literal: a}
- print: *text
```
-/
def sharedLiteral : Node :=
  let text : Node := .mapping ⟨⟨1, 15⟩, "!!map", some "text"⟩
    [(leaf 1 22 "literal", leaf 1 31 "a")]
  .sequence ⟨⟨1, 1⟩, "!!seq", none⟩
    [pair 1 3 (leaf 1 3 "expression") text,
      pair 2 3 (leaf 2 3 "print") (.alias ⟨2, 10⟩ "text" text)]

theorem decode_sharedLiteral :
    sharedLiteral.aliasKeys = [] ∧
      decodeStmts sharedLiteral = decodeStmts sharedLiteral.expanded :=
  ⟨rfl, (decode_expanded (n := sharedLiteral) rfl).2.1⟩

/-- Anchors may be renamed, as long as the aliases that stand as keys keep their names. -/
theorem decode_renamed {n : Node} {rename : String → String}
    (h : ∀ name ∈ n.aliasKeys, rename name = name) :
    decodeStmts (n.renamed rename) = decodeStmts n ∧
      decodeExpr (n.renamed rename) = decodeExpr n :=
  ⟨decodeStmts_congr (Node.bare_renamed h), decodeExpr_congr (Node.bare_renamed h)⟩

theorem decode_renamed_sharedLiteral :
    (∀ name ∈ sharedLiteral.aliasKeys, Equiv.swap "text" "other" name = name) ∧
      decodeStmts (sharedLiteral.renamed (Equiv.swap "text" "other")) =
        decodeStmts sharedLiteral := by
  have hfixed : ∀ name ∈ sharedLiteral.aliasKeys, Equiv.swap "text" "other" name = name := by
    intro name hname
    cases hname
  exact ⟨hfixed, (decode_renamed hfixed).1⟩

/-- The document
```
- {&other print: {literal: a}}
- {*other : {literal: b}}
```
-/
def aliasedKind : Node :=
  let kind : Node := .scalar ⟨⟨1, 4⟩, "!!str", some "other"⟩ "print"
  .sequence ⟨⟨1, 1⟩, "!!seq", none⟩
    [pair 1 3 kind (pair 1 18 (leaf 1 19 "literal") (leaf 1 28 "a")),
      pair 2 3 (.alias ⟨2, 4⟩ "other" kind) (pair 2 13 (leaf 2 14 "literal") (leaf 2 23 "b"))]

theorem decodeStmts_aliasedKind :
    decodeStmts aliasedKind = .error ⟨⟨2, 4⟩, .unknownStatement "other"⟩ := by
  cbv

theorem decodeStmts_aliasedKind_renamed :
    decodeStmts (aliasedKind.renamed (Equiv.swap "other" "print")) = .ok
      [.print (.ofKind .printWord 1) (.literal ⟨.string, "a", .text "a", 1, 28⟩ (.text "a")),
        .print (.ofKind .printWord 2) (.literal ⟨.string, "b", .text "b", 2, 23⟩ (.text "b"))] := by
  cbv

/-- Where an alias stands as a key, a document may decode with one name of its anchor and fail with
another one. -/
theorem decode_renamed_aliasedKind :
    ¬ ∀ (n : Node) (rename : String → String), Function.Injective rename →
      decodeStmts (n.renamed rename) = decodeStmts n ∧
        decodeExpr (n.renamed rename) = decodeExpr n := by
  intro hsame
  have hstmts := (hsame aliasedKind _ (Equiv.swap "other" "print").injective).1
  rw [decodeStmts_aliasedKind, decodeStmts_aliasedKind_renamed] at hstmts
  cases hstmts

end Program

end TreeScript
