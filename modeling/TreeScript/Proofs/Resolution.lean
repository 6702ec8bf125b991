import TreeScript.Proofs.Reading

/-!
# Documents without aliases

`Node.expanded` puts a copy of the node that it stands for, with the positions of that node, in
place of every alias. `Node.resolved` does so with the root, the items and the values, and leaves
the keys as they are written. A document is decoded in the same way as the resolved one, in its
errors too, and in the same way as the expanded one if none of its aliases is a key.
-/

namespace TreeScript

namespace Yaml.Node

def aliasName : Node → List String
  | .alias _ name _ => [name]
  | _ => []

mutual

/-- The names of the aliases that stand as keys, whatever is inside of keys apart. -/
def aliasKeys : Node → List String
  | .scalar _ _ => []
  | .sequence _ items => aliasKeysOfItems items
  | .mapping _ entries => aliasKeysOfEntries entries
  | .alias _ _ target => target.aliasKeys
  | .endless _ => []

def aliasKeysOfItems : List Node → List String
  | [] => []
  | item :: rest => item.aliasKeys ++ aliasKeysOfItems rest

def aliasKeysOfEntries : List (Node × Node) → List String
  | [] => []
  | (key, value) :: rest => key.aliasName ++ value.aliasKeys ++ aliasKeysOfEntries rest

end

/-! ## Copies in place of aliases -/

mutual

/-- The node with a copy of what it stands for, at its own places, for every alias. -/
def expanded : Node → Node
  | .scalar label text => .scalar label text
  | .sequence label items => .sequence label (expandedItems items)
  | .mapping label entries => .mapping label (expandedEntries entries)
  | .alias _ _ target => target.expanded
  | .endless position => .endless position

def expandedItems : List Node → List Node
  | [] => []
  | item :: rest => item.expanded :: expandedItems rest

def expandedEntries : List (Node × Node) → List (Node × Node)
  | [] => []
  | (key, value) :: rest => (key.expanded, value.expanded) :: expandedEntries rest

end

/-- There is no alias in the node, on either side of its entries. -/
inductive AliasFree : Node → Prop where
  | scalar {label text} : AliasFree (.scalar label text)
  | sequence {label items} : (∀ item ∈ items, AliasFree item) → AliasFree (.sequence label items)
  | mapping {label entries} : (∀ entry ∈ entries, AliasFree entry.1) →
    (∀ entry ∈ entries, AliasFree entry.2) → AliasFree (.mapping label entries)
  | endless {position} : AliasFree (.endless position)

mutual

theorem aliasFree_expanded (n : Node) : n.expanded.AliasFree := by
  match n with
  | .scalar label text => exact .scalar
  | .sequence label items => exact .sequence (aliasFree_expandedItems items)
  | .mapping label entries =>
      have hfree := aliasFree_expandedEntries entries
      exact .mapping (fun entry h => (hfree entry h).1) fun entry h => (hfree entry h).2
  | .alias position name target => exact aliasFree_expanded target
  | .endless position => exact .endless

theorem aliasFree_expandedItems (items : List Node) :
    ∀ item ∈ expandedItems items, item.AliasFree := by
  match items with
  | [] => simp [expandedItems]
  | item :: rest =>
      rw [expandedItems, List.forall_mem_cons]
      exact ⟨aliasFree_expanded item, aliasFree_expandedItems rest⟩

theorem aliasFree_expandedEntries (entries : List (Node × Node)) :
    ∀ entry ∈ expandedEntries entries, entry.1.AliasFree ∧ entry.2.AliasFree := by
  match entries with
  | [] => simp [expandedEntries]
  | (key, value) :: rest =>
      rw [expandedEntries, List.forall_mem_cons]
      exact ⟨⟨aliasFree_expanded key, aliasFree_expanded value⟩, aliasFree_expandedEntries rest⟩

end

theorem bareKey_expanded {key : Node} (h : key.aliasName = []) :
    key.expanded.bareKey = key.bareKey := by
  cases key with
  | scalar label text => rfl
  | sequence label items => rfl
  | mapping label entries => rfl
  | endless position => rfl
  | «alias» position name target => cases h

mutual

theorem bare_expanded {n : Node} (h : n.aliasKeys = []) : n.expanded.bare = n.bare := by
  match n with
  | .scalar label text => rfl
  | .sequence label items => rw [expanded, bare, bare, bareItems_expanded h]
  | .mapping label entries => rw [expanded, bare, bare, bareEntries_expanded h]
  | .alias position name target =>
      rw [expanded, bare]
      exact bare_expanded h
  | .endless position => rfl

theorem bareItems_expanded {items : List Node} (h : aliasKeysOfItems items = []) :
    bareItems (expandedItems items) = bareItems items := by
  match items with
  | [] => rfl
  | item :: rest =>
      rw [aliasKeysOfItems, List.append_eq_nil_iff] at h
      rw [expandedItems, bareItems, bareItems, bare_expanded h.1, bareItems_expanded h.2]

theorem bareEntries_expanded {entries : List (Node × Node)} (h : aliasKeysOfEntries entries = []) :
    bareEntries (expandedEntries entries) = bareEntries entries := by
  match entries with
  | [] => rfl
  | (key, value) :: rest =>
      rw [aliasKeysOfEntries, List.append_eq_nil_iff, List.append_eq_nil_iff] at h
      obtain ⟨⟨hkey, hvalue⟩, hrest⟩ := h
      rw [expandedEntries, bareEntries, bareEntries, bareKey_expanded hkey, bare_expanded hvalue,
        bareEntries_expanded hrest]

end

/-! ## Aliases as keys at most -/

mutual

/-- The node with its aliases replaced by the nodes that they stand for, keys apart. -/
def resolved : Node → Node
  | .scalar label text => .scalar label text
  | .sequence label items => .sequence label (resolvedItems items)
  | .mapping label entries => .mapping label (resolvedEntries entries)
  | .alias _ _ target => target.resolved
  | .endless position => .endless position

def resolvedItems : List Node → List Node
  | [] => []
  | item :: rest => item.resolved :: resolvedItems rest

def resolvedEntries : List (Node × Node) → List (Node × Node)
  | [] => []
  | (key, value) :: rest => (key, value.resolved) :: resolvedEntries rest

end

theorem resolved_deref (n : Node) : n.deref.resolved = n.resolved := by
  fun_induction deref n with
  | case1 position name target ih => rw [ih, resolved]
  | case2 | case3 | case4 | case5 => rfl

theorem deref_resolved (n : Node) : n.resolved.deref = n.resolved := by
  rw [← resolved_deref]
  fun_induction deref n with
  | case1 position name target ih => exact ih
  | case2 | case3 | case4 | case5 => rfl

mutual

theorem resolved_resolved (n : Node) : n.resolved.resolved = n.resolved := by
  match n with
  | .scalar label text => rfl
  | .sequence label items => rw [resolved, resolved, resolvedItems_resolved items]
  | .mapping label entries => rw [resolved, resolved, resolvedEntries_resolved entries]
  | .alias position name target => rw [resolved, resolved_resolved target]
  | .endless position => rfl

theorem resolvedItems_resolved (items : List Node) :
    resolvedItems (resolvedItems items) = resolvedItems items := by
  match items with
  | [] => rfl
  | item :: rest =>
      rw [resolvedItems, resolvedItems, resolved_resolved item, resolvedItems_resolved rest]

theorem resolvedEntries_resolved (entries : List (Node × Node)) :
    resolvedEntries (resolvedEntries entries) = resolvedEntries entries := by
  match entries with
  | [] => rfl
  | (key, value) :: rest =>
      rw [resolvedEntries, resolvedEntries, resolved_resolved value, resolvedEntries_resolved rest]

end

mutual

theorem bare_resolved (n : Node) : n.resolved.bare = n.bare := by
  match n with
  | .scalar label text => rfl
  | .sequence label items => rw [resolved, bare, bare, bareItems_resolved items]
  | .mapping label entries => rw [resolved, bare, bare, bareEntries_resolved entries]
  | .alias position name target => rw [resolved, bare, bare_resolved target]
  | .endless position => rfl

theorem bareItems_resolved (items : List Node) :
    bareItems (resolvedItems items) = bareItems items := by
  match items with
  | [] => rfl
  | item :: rest =>
      rw [resolvedItems, bareItems, bareItems, bare_resolved item, bareItems_resolved rest]

theorem bareEntries_resolved (entries : List (Node × Node)) :
    bareEntries (resolvedEntries entries) = bareEntries entries := by
  match entries with
  | [] => rfl
  | (key, value) :: rest =>
      rw [resolvedEntries, bareEntries, bareEntries, bare_resolved value,
        bareEntries_resolved rest]

end

def Resolved (n : Node) : Prop := n.resolved = n

theorem Resolved.deref {n : Node} (h : n.Resolved) : n.deref = n := by
  have := n.deref_resolved
  rwa [h] at this

theorem Resolved.item {label : Label} {items : List Node}
    (h : (Node.sequence label items).Resolved) : ∀ item ∈ items, item.Resolved := by
  have hmap : resolvedItems items = items := by
    have h : Node.sequence label (resolvedItems items) = .sequence label items := h
    injection h
  clear h
  induction items with
  | nil => simp
  | cons item rest ih =>
      rw [resolvedItems, List.cons.injEq] at hmap
      exact List.forall_mem_cons.2 ⟨hmap.1, ih hmap.2⟩

theorem Resolved.value {label : Label} {entries : List (Node × Node)}
    (h : (Node.mapping label entries).Resolved) : ∀ entry ∈ entries, entry.2.Resolved := by
  have hmap : resolvedEntries entries = entries := by
    have h : Node.mapping label (resolvedEntries entries) = .mapping label entries := h
    injection h
  clear h
  induction entries with
  | nil => simp
  | cons entry rest ih =>
      rw [resolvedEntries, List.cons.injEq] at hmap
      exact List.forall_mem_cons.2 ⟨congrArg Prod.snd hmap.1, ih hmap.2⟩

theorem resolved_sequence {label : Label} {items : List Node} (h : ∀ item ∈ items, item.Resolved) :
    (Node.sequence label items).Resolved := by
  have hmap : resolvedItems items = items := by
    induction items with
    | nil => rfl
    | cons item rest ih =>
        obtain ⟨hitem, hrest⟩ := List.forall_mem_cons.1 h
        rw [resolvedItems, hitem, ih hrest]
  rw [Resolved, resolved, hmap]

theorem resolved_mapping {label : Label} {entries : List (Node × Node)}
    (h : ∀ entry ∈ entries, entry.2.Resolved) : (Node.mapping label entries).Resolved := by
  have hmap : resolvedEntries entries = entries := by
    induction entries with
    | nil => rfl
    | cons entry rest ih =>
        obtain ⟨key, value⟩ := entry
        obtain ⟨hvalue, hrest⟩ := List.forall_mem_cons.1 h
        have hvalue : value.resolved = value := hvalue
        rw [resolvedEntries, hvalue, ih hrest]
  rw [Resolved, resolved, hmap]

theorem AliasFree.resolved {n : Node} (h : n.AliasFree) : n.Resolved := by
  induction h with
  | scalar => rfl
  | sequence _ ih => exact resolved_sequence ih
  | mapping _ _ _ ihvalues => exact resolved_mapping ihvalues
  | endless => rfl

end Yaml.Node

namespace Program

open Yaml (Node)

/-- A program is decoded in the same way with its aliases and without them. -/
theorem decodeStmts_resolved (n : Node) : decodeStmts n.resolved = decodeStmts n :=
  decodeStmts_congr n.bare_resolved

end Program

end TreeScript
