import TreeScript.Proofs.WellFormed

/-!
# Every node of a document stands on a line

Lines of nodes are counted from one. Nodes are built from events one by one, so what is shown is an
invariant of the builder: all that it holds, complete or not, stands on a line.
-/

namespace TreeScript.Yaml.Node

/-! ## Collections inside themselves -/

theorem replaceItems_eq_map (start : Position) (new : Node) (items : List Node) :
    replaceItems start new items = items.map (replace start new) := by
  induction items with
  | nil => rfl
  | cons item rest ih => rw [replaceItems, ih, List.map_cons]

theorem replaceEntries_eq_map (start : Position) (new : Node) (entries : List (Node × Node)) :
    replaceEntries start new entries =
      entries.map fun entry => (replace start new entry.1, replace start new entry.2) := by
  induction entries with
  | nil => rfl
  | cons entry rest ih => rw [replaceEntries, ih, List.map_cons]

theorem placed_replace {n new : Node} (hn : n.Placed) (hnew : new.Placed) (start : Position) :
    (replace start new n).Placed := by
  induction hn with
  | scalar hline =>
      rw [replace]
      exact .scalar hline
  | sequence hline hitems ih =>
      rw [replace, replaceItems_eq_map]
      exact .sequence hline (List.forall_mem_map.2 ih)
  | mapping hline hkeys hvalues ihkeys ihvalues =>
      rw [replace, replaceEntries_eq_map]
      exact .mapping hline (List.forall_mem_map.2 ihkeys) (List.forall_mem_map.2 ihvalues)
  | «alias» hline htarget ih =>
      rw [replace]
      exact .alias hline ih
  | endless hline =>
      rw [replace]
      split
      · exact hnew
      · exact .endless hline

theorem placed_unroll {start : Position} {n : Node} (hstart : 1 ≤ start.line) (hn : n.Placed)
    (times : Nat) : (unroll start n times).Placed := by
  induction times with
  | zero => exact .endless hstart
  | succ times ih => exact placed_replace hn ih start

/-! ## Builders -/

def Partial.Placed : Partial → Prop
  | .sequence label _ items => 1 ≤ label.position.line ∧ ∀ item ∈ items, item.Placed
  | .mapping label _ entries =>
    1 ≤ label.position.line ∧ ∀ entry ∈ entries, entry.1.Placed ∧ entry.2.Placed
  | .keyed label _ entries key =>
    1 ≤ label.position.line ∧ (∀ entry ∈ entries, entry.1.Placed ∧ entry.2.Placed) ∧ key.Placed

structure Builder.Placed (b : Builder) : Prop where
  stack : ∀ part ∈ b.stack, part.Placed
  anchors : ∀ anchor ∈ b.anchors, anchor.2.Placed
  root : ∀ n ∈ b.root, n.Placed

namespace Builder

theorem placed_place {b : Builder} {n : Node} (hb : b.Placed) (hn : n.Placed) :
    (b.place n).Placed := by
  unfold place
  split
  · refine ⟨hb.stack, hb.anchors, ?_⟩
    rintro m ⟨⟩
    exact hn
  next label anchor items rest hstack =>
    obtain ⟨hline, hitems⟩ := hb.stack _ (by rw [hstack]; exact List.mem_cons_self)
    refine ⟨?_, hb.anchors, hb.root⟩
    rintro part (_ | ⟨_, hpart⟩)
    · refine ⟨hline, ?_⟩
      rintro item (_ | ⟨_, hitem⟩)
      · exact hn
      · exact hitems item hitem
    · exact hb.stack part (by rw [hstack]; exact List.mem_cons_of_mem _ hpart)
  next label anchor entries rest hstack =>
    obtain ⟨hline, hentries⟩ := hb.stack _ (by rw [hstack]; exact List.mem_cons_self)
    refine ⟨?_, hb.anchors, hb.root⟩
    rintro part (_ | ⟨_, hpart⟩)
    · exact ⟨hline, hentries, hn⟩
    · exact hb.stack part (by rw [hstack]; exact List.mem_cons_of_mem _ hpart)
  next label anchor entries key rest hstack =>
    obtain ⟨hline, hentries, hkey⟩ := hb.stack _ (by rw [hstack]; exact List.mem_cons_self)
    refine ⟨?_, hb.anchors, hb.root⟩
    rintro part (_ | ⟨_, hpart⟩)
    · refine ⟨hline, ?_⟩
      rintro entry (_ | ⟨_, hentry⟩)
      · exact ⟨hkey, hn⟩
      · exact hentries entry hentry
    · exact hb.stack part (by rw [hstack]; exact List.mem_cons_of_mem _ hpart)

theorem placed_name {b : Builder} {n : Node} (hb : b.Placed) (hn : n.Placed)
    (anchor : Option String) : (b.name anchor n).1.Placed := by
  cases anchor with
  | none => exact hb
  | some text =>
      refine ⟨hb.stack, ?_, hb.root⟩
      intro entry hentry
      rcases Array.mem_push.1 hentry with hentry | rfl
      · exact hb.anchors entry hentry
      · exact hn

theorem placed_complete {b : Builder} {n : Node} (hb : b.Placed) (hn : n.Placed)
    (anchor : Option Nat) : (b.complete anchor n).Placed := by
  cases anchor with
  | none => exact hb
  | some i =>
      refine ⟨hb.stack, ?_, hb.root⟩
      intro entry hentry
      obtain ⟨j, hj⟩ := Array.mem_iff_getElem?.1 hentry
      change (b.anchors.modify i _)[j]? = some entry at hj
      rw [Array.getElem?_modify] at hj
      split at hj
      · obtain ⟨old, -, rfl⟩ := Option.map_eq_some_iff.1 hj
        exact hn
      · exact hb.anchors entry (Array.mem_of_getElem? hj)

theorem placed_push {b : Builder} {part : Partial} (hb : b.Placed) (hpart : part.Placed) :
    Placed { b with stack := part :: b.stack } := by
  refine ⟨?_, hb.anchors, hb.root⟩
  rintro other (_ | ⟨_, hother⟩)
  · exact hpart
  · exact hb.stack other hother

theorem placed_pop {b : Builder} {part : Partial} {rest : List Partial} (hb : b.Placed)
    (hstack : b.stack = part :: rest) : part.Placed ∧ Placed { b with stack := rest } := by
  have hparts := hb.stack
  rw [hstack] at hparts
  exact ⟨hparts part List.mem_cons_self,
    fun other hother => hparts other (List.mem_cons_of_mem part hother), hb.anchors, hb.root⟩

theorem label_line (p : Properties) (tag : String) : 1 ≤ (label p tag).position.line :=
  Nat.le_add_left 1 _

theorem placed_placeAlias {b : Builder} {position : Position} {target : Node} (hb : b.Placed)
    (hline : 1 ≤ position.line) (htarget : target.Placed) (name : String) :
    (b.placeAlias position name target).Placed := by
  unfold placeAlias
  split
  · exact placed_place ⟨hb.stack, hb.anchors, hb.root⟩ (.alias hline htarget)
  · exact placed_place hb (.alias hline htarget)

theorem placed_close {b : Builder} {label : Label} {n : Node} (hb : b.Placed)
    (hline : 1 ≤ label.position.line) (hn : n.Placed) (anchor : Option Nat) :
    (b.close label anchor n).Placed := by
  unfold close
  have hall : (if b.inside.count label.position = 0 then n
      else unroll label.position n (b.inside.count label.position + 2)).Placed := by
    split
    · exact hn
    · exact placed_unroll hline hn _
  exact placed_place (placed_complete hb hall anchor) hall

theorem placed_step {b c : Builder} {event : Event} (hb : b.Placed) (h : b.step event = .ok c) :
    c.Placed := by
  cases event with
  | scalar p text plain =>
      cases h
      have hn : (Node.scalar (label p (scalarTag p.tag text plain)) text).Placed :=
        .scalar (label_line p _)
      exact placed_place (placed_name hb hn p.anchor) hn
  | «alias» mark name =>
      simp only [step] at h
      split at h
      next found target hfound =>
        cases h
        rw [Array.findRev?_eq_find?_reverse] at hfound
        have hmem := Array.mem_reverse.1 (Array.mem_of_find?_eq_some hfound)
        exact placed_placeAlias hb (Nat.le_add_left 1 _) (hb.anchors _ hmem) name
      next => cases h
  | sequenceStart p =>
      cases h
      have hstart : (Node.endless p.mark.position).Placed := .endless (Nat.le_add_left 1 _)
      exact placed_push (placed_name hb hstart p.anchor)
        ⟨label_line p _, fun _ hitem => (List.not_mem_nil hitem).elim⟩
  | mappingStart p =>
      cases h
      have hstart : (Node.endless p.mark.position).Placed := .endless (Nat.le_add_left 1 _)
      exact placed_push (placed_name hb hstart p.anchor)
        ⟨label_line p _, fun _ hentry => (List.not_mem_nil hentry).elim⟩
  | collectionEnd =>
      simp only [step] at h
      split at h
      next label anchor items rest hstack =>
        cases h
        obtain ⟨⟨hline, hitems⟩, hrest⟩ := placed_pop hb hstack
        have hn : (Node.sequence label items.reverse).Placed :=
          .sequence hline fun item hitem => hitems item (List.mem_reverse.1 hitem)
        exact placed_close hrest hline hn anchor
      next label anchor entries rest hstack =>
        cases h
        obtain ⟨⟨hline, hentries⟩, hrest⟩ := placed_pop hb hstack
        have hn : (Node.mapping label entries.reverse).Placed :=
          .mapping hline (fun entry hentry => (hentries entry (List.mem_reverse.1 hentry)).1)
            fun entry hentry => (hentries entry (List.mem_reverse.1 hentry)).2
        exact placed_close hrest hline hn anchor
      next => cases h

theorem placed_foldlM {events : List Event} {b c : Builder} (hb : b.Placed)
    (h : events.foldlM step b = .ok c) : c.Placed := by
  induction events generalizing b with
  | nil =>
      cases h
      exact hb
  | cons event rest ih =>
      rw [List.foldlM_cons] at h
      obtain ⟨d, hd, h⟩ := Program.bind_eq_ok h
      exact ih (placed_step hb hd) h

theorem placed_empty : Placed {} :=
  ⟨fun _ h => (List.not_mem_nil h).elim, fun _ h => (Array.not_mem_empty _ h).elim,
    fun _ h => by cases h⟩

end Builder

theorem placed_ofEvents {events : List Event} {n : Node} (h : ofEvents events = .ok n) :
    n.Placed := by
  obtain ⟨b, hb, h⟩ := Program.bind_eq_ok h
  have hplaced := Builder.placed_foldlM Builder.placed_empty hb
  split at h
  next root hroot =>
    cases h
    exact hplaced.root n hroot
  next => cases h

theorem placed_ofText {text : RawText} {n : Node} (h : ofText text = .ok (some n)) :
    n.Placed := by
  obtain ⟨events, _, h⟩ := Program.bind_eq_ok h
  split at h
  · obtain ⟨root, hroot, h⟩ := Program.bind_eq_ok h
    cases h
    exact placed_ofEvents hroot
  · cases h

end TreeScript.Yaml.Node
