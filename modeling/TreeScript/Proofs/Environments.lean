import Mathlib.Data.List.Induction
import Mathlib.Data.List.Sort
import TreeScript.Proofs.ByteOrder
import TreeScript.Proofs.Lookup

/-!
# Environments and the history that made them

Environments are what their history says, in any order of its actions that is possible at all. The
link of an environment is the one that it was made with, for good. Links lead to older environments,
so no way outwards comes back and every loop along the links ends. The names of an environment are
those that were defined in that very environment, in the order of their bytes; assignments and
actions on other environments leave them alone.
-/

namespace TreeScript

/-! ## Ordered names -/

/-- However the members of an increasing list are gathered, sorting them by their bytes gives the
list. -/
theorem eq_of_sorted_perm {l keys sorted : List String} (h : l.Pairwise (· < ·))
    (hnodup : keys.Nodup) (hmem : ∀ name, name ∈ keys ↔ name ∈ l) (hperm : sorted.Perm keys)
    (hsorted : sorted.Pairwise fun a b => ¬ Text.bytes b < Text.bytes a) : sorted = l := by
  have hincreasing : sorted.Pairwise (· < ·) := by
    apply (hsorted.and (hperm.nodup_iff.2 hnodup)).imp
    rintro a b ⟨hle, hne⟩
    rw [Text.bytes_lt_iff, not_lt] at hle
    exact lt_of_le_of_ne hle hne
  apply hincreasing.eq_of_mem_iff h
  intro name
  rw [hperm.mem_iff, hmem]

theorem Scope.names_increasing (s : Scope) : s.names.Pairwise (· < ·) :=
  List.pairwise_map.2 s.ordered

namespace Forest

theorem names_increasing (f : Forest) (i : Nat) : (f.names i).Pairwise (· < ·) := by
  unfold names
  cases f.get? i with
  | none => exact List.Pairwise.nil
  | some e => exact e.scope.names_increasing

/-! ## Possible histories -/

def Action.On (f : Forest) : Action → Prop
  | .root => True
  | .enclose outer => outer < f.size
  | .define i _ _ => i < f.size
  | .assign i _ _ => i < f.size

/-- From some environments on, each action of the history is on those that exist by then. -/
def Possible (f : Forest) : List Action → Prop
  | [] => True
  | action :: rest => action.On f ∧ (f.act action).Possible rest

theorem after_concat (history : List Action) (action : Action) :
    after (history ++ [action]) = (after history).act action := by
  rw [after, List.foldl_append]
  rfl

theorem possible_concat {f : Forest} {history : List Action} {action : Action} :
    f.Possible (history ++ [action]) ↔ f.Possible history ∧ action.On (history.foldl act f) := by
  induction history generalizing f with
  | nil => simp [Possible]
  | cons first rest ih => simp only [List.cons_append, Possible, List.foldl_cons, ih, and_assoc]

/-! ## Links -/

def links (history : List Action) : List (Option Nat) :=
  history.filterMap fun
    | .root => some none
    | .enclose outer => some (some outer)
    | _ => none

/-- The way outwards leads from one environment to the next. -/
def Inside (f : Forest) (i o : Nat) : Prop := f.outer? i = some o

theorem get?_addRoot (f : Forest) (i : Nat) :
    f.addRoot.get? i = if i = f.size then some ⟨.empty, none⟩ else f.get? i := by
  unfold addRoot get? size
  rw [Array.getElem?_push]

theorem get?_enclose (f : Forest) (outer i : Nat) :
    (f.enclose outer).get? i =
      if i = f.size then some ⟨.empty, if outer < f.size then some outer else none⟩
      else f.get? i := by
  unfold enclose get? size
  rw [Array.getElem?_push]

theorem link_define (f : Forest) (j : Nat) (name : String) (value : Value) (i : Nat) :
    ((f.define j name value).get? i).map (·.outer) = (f.get? i).map (·.outer) := by
  rw [get?_define]
  split
  · rw [Option.map_map]
    rfl
  · rfl

theorem extends_addRoot (f : Forest) : f.Extends f.addRoot := by
  intro i e he
  have hne : i ≠ f.size := Nat.ne_of_lt (lt_size he)
  refine ⟨e, ?_, rfl, fun _ hname => hname⟩
  rw [get?_addRoot, if_neg hne, he]

theorem act_assign_cases (f : Forest) (i : Nat) (name : Token) (value : Value) :
    f.act (.assign i name value) = f ∨
      ∃ j, f.resolve? i name.lexeme = some j ∧
        f.act (.assign i name value) = f.define j name.lexeme value := by
  cases h : f.assign i name value with
  | error e =>
    left
    rw [act, h]
  | ok g =>
    obtain ⟨j, hj, rfl⟩ := assign_eq_define h
    right
    refine ⟨j, hj, ?_⟩
    rw [act, h]

theorem extends_act (f : Forest) (action : Action) : f.Extends (f.act action) := by
  cases action with
  | root => exact extends_addRoot f
  | enclose outer => exact extends_enclose f outer
  | define i name value => exact extends_define f i name value
  | assign i name value =>
    rcases act_assign_cases f i name value with h | ⟨j, -, h⟩
    · rw [h]
      exact Extends.refl f
    · rw [h]
      exact extends_define f j name.lexeme value

theorem extends_foldl_act (f : Forest) (later : List Action) : f.Extends (later.foldl act f) := by
  induction later generalizing f with
  | nil => exact Extends.refl f
  | cons action later ih => exact (extends_act f action).trans (ih (f.act action))

theorem Extends.link_eq {f g : Forest} (h : f.Extends g) {i : Nat} (hi : i < f.size) :
    (g.get? i).map (·.outer) = (f.get? i).map (·.outer) := by
  obtain ⟨e, he⟩ := exists_get? hi
  obtain ⟨e', he', ho, -⟩ := h i e he
  rw [he, he', Option.map_some, Option.map_some, ho]

theorem size_act (f : Forest) (action : Action) :
    (f.act action).size = f.size + (links [action]).length := by
  cases action with
  | root => simp [act, addRoot, size, links]
  | enclose outer => simp [act, links]
  | define i name value => simp [act, define, size, links]
  | assign i name value =>
    rcases act_assign_cases f i name value with h | ⟨j, -, h⟩
    · simp [h, links]
    · simp [h, define, size, links]

theorem links_concat (history : List Action) (action : Action) :
    links (history ++ [action]) = links history ++ links [action] := List.filterMap_append

theorem size_after (history : List Action) : (after history).size = (links history).length := by
  induction history using List.reverseRecOn with
  | nil => rfl
  | append_singleton history action ih =>
    rw [after_concat, size_act, ih, links_concat, List.length_append]

theorem getElem?_concat_eq_ite {α : Type} (l : List α) (x : α) (i : Nat) :
    (l ++ [x])[i]? = if i = l.length then some x else l[i]? := by
  grind

theorem link_after {history : List Action} (h : empty.Possible history) (i : Nat) :
    ((after history).get? i).map (·.outer) = (links history)[i]? := by
  induction history using List.reverseRecOn with
  | nil => rfl
  | append_singleton history action ih =>
    obtain ⟨hbefore, hon⟩ := possible_concat.1 h
    have hlink := ih hbefore
    rw [after_concat, links_concat]
    cases action with
    | root =>
      show ((after history).addRoot.get? i).map _ = (links history ++ [none])[i]?
      rw [get?_addRoot, getElem?_concat_eq_ite, size_after, ← hlink]
      split <;> rfl
    | enclose outer =>
      show (((after history).enclose outer).get? i).map _ = (links history ++ [some outer])[i]?
      have houter : outer < (after history).size := hon
      rw [get?_enclose, if_pos houter, getElem?_concat_eq_ite, size_after, ← hlink]
      split <;> rfl
    | define j name value =>
      show (((after history).define j name value).get? i).map _ = (links history ++ [])[i]?
      rw [link_define, hlink, List.append_nil]
    | assign j name value =>
      show (((after history).act _).get? i).map _ = (links history ++ [])[i]?
      rw [List.append_nil, ← hlink]
      rcases act_assign_cases (after history) j name value with h | ⟨k, -, h⟩
      · rw [h]
      · rw [h, link_define]

theorem lt_of_inside {f : Forest} {i o : Nat} (h : f.Inside i o) : o < i := by
  obtain ⟨e, he, ho⟩ := Option.bind_eq_some_iff.1 h
  exact f.older i e o he ho

theorem not_inside_self (f : Forest) (i : Nat) : ¬ Relation.TransGen f.Inside i i := by
  intro hcycle
  have hlt {j k : Nat} (h : Relation.TransGen f.Inside j k) : k < j := by
    induction h with
    | single h => exact lt_of_inside h
    | tail _ h ih => exact Nat.lt_trans (lt_of_inside h) ih
  exact Nat.lt_irrefl i (hlt hcycle)

/-! ## Loops along the links -/

/-- From an environment, or from outside of all of them, a loop goes outwards up to where `stop`
holds. It makes so many steps and ends at an environment or outside. -/
inductive Loop (f : Forest) (stop : Nat → Prop) : Option Nat → Nat → Option Nat → Prop where
  | outside : Loop f stop none 0 none
  | found {i} : stop i → Loop f stop (some i) 0 (some i)
  | further {i steps r} : ¬ stop i → Loop f stop (f.outer? i) steps r →
    Loop f stop (some i) (steps + 1) r

section Loop

variable {f : Forest} {stop : Nat → Prop} {i : Nat}

theorem Loop.outermost (hstop : ¬ stop i) (ho : f.outer? i = none) :
    f.Loop stop (some i) 1 none := by
  apply Loop.further hstop
  rw [ho]
  exact .outside

theorem Loop.inner {o steps : Nat} {found : Option Nat} (hstop : ¬ stop i)
    (ho : f.outer? i = some o) (h : f.Loop stop (some o) steps found) :
    f.Loop stop (some i) (steps + 1) found := by
  apply Loop.further hstop
  rw [ho]
  exact h

end Loop

theorem outer?_of_get? {f : Forest} {i : Nat} {e : Environment} (h : f.get? i = some e) :
    f.outer? i = e.outer := by
  rw [outer?, h, Option.bind_some]

theorem depth_root {f : Forest} {i : Nat} (hi : i < f.size) (ho : f.outer? i = none) :
    f.depth i = 1 := by
  obtain ⟨e, he⟩ := exists_get? hi
  rw [outer?_of_get? he] at ho
  rw [depth, path_root he ho, List.length_singleton]

theorem depth_inner {f : Forest} {i o : Nat} (ho : f.outer? i = some o) :
    f.depth i = f.depth o + 1 := by
  obtain ⟨e, he, hlink⟩ := Option.bind_eq_some_iff.1 ho
  rw [depth, path_inner he hlink, List.length_cons, depth]

/-- Whatever a loop looks for, it ends, at the latest behind all scopes. -/
theorem exists_loop {f : Forest} (stop : Nat → Prop) {i : Nat} (hi : i < f.size) :
    ∃ steps found, f.Loop stop (some i) steps found ∧ steps ≤ f.depth i := by
  induction i, hi using rec_path with
  | root i e he ho =>
    by_cases hstop : stop i
    · exact ⟨0, some i, .found hstop, Nat.zero_le _⟩
    · rw [← outer?_of_get? he] at ho
      have hdepth : f.depth i = 1 := depth_root (lt_size he) ho
      exact ⟨1, none, .outermost hstop ho, Nat.le_of_eq hdepth.symm⟩
  | inner i e o he ho _ _ ih =>
    by_cases hstop : stop i
    · exact ⟨0, some i, .found hstop, Nat.zero_le _⟩
    · obtain ⟨steps, found, hloop, hle⟩ := ih
      rw [← outer?_of_get? he] at ho
      refine ⟨steps + 1, found, .inner hstop ho hloop, ?_⟩
      rw [depth_inner ho]
      exact Nat.succ_le_succ hle

theorem loop_depth {f : Forest} {i : Nat} (hi : i < f.size) :
    f.Loop (fun _ => False) (some i) (f.depth i) none := by
  induction i, hi using rec_path with
  | root i e he ho =>
    rw [← outer?_of_get? he] at ho
    rw [depth_root (lt_size he) ho]
    exact .outermost not_false ho
  | inner i e o he ho _ _ ih =>
    rw [← outer?_of_get? he] at ho
    rw [depth_inner ho]
    exact .inner not_false ho ih

theorem resolve?_of_binds {f : Forest} {i : Nat} {name : String} (h : f.binds name i = true) :
    f.resolve? i name = some i := by
  cases he : f.get? i with
  | none => simp [binds, he] at h
  | some e =>
    rw [binds_eq_isSome he] at h
    exact resolve?_here he h

theorem resolve?_of_not_binds {f : Forest} {i : Nat} {name : String}
    (h : ¬ f.binds name i = true) :
    f.resolve? i name = (f.outer? i).bind fun o => f.resolve? o name := by
  cases he : f.get? i with
  | none =>
    have hi : f.size ≤ i := by
      rw [← Nat.not_lt, ← get?_eq_some_iff_lt, he]
      decide
    rw [resolve?, path_of_le hi, outer?, he]
    rfl
  | some e =>
    rw [binds_eq_isSome he, Option.not_isSome_iff_eq_none] at h
    rw [outer?_of_get? he]
    cases ho : e.outer with
    | none => exact resolve?_outermost he h ho
    | some o => exact resolve?_further he h ho

/-- A loop that looks for a name ends where the name is looked up. -/
theorem found_eq_resolve? {f : Forest} {name : String} {start : Option Nat} {steps : Nat}
    {found : Option Nat} (h : f.Loop (fun j => f.binds name j = true) start steps found) :
    found = start.bind fun i => f.resolve? i name := by
  induction h with
  | outside => rfl
  | found hbinds => exact (resolve?_of_binds hbinds).symm
  | further hbinds _ ih => exact ih.trans (resolve?_of_not_binds hbinds).symm

/-! ## Names -/

theorem names_define_of_ne {f : Forest} {i j : Nat} (h : j ≠ i) (name : String) (value : Value) :
    (f.define j name value).names i = f.names i := by
  rw [names, get?_define, if_neg h, names]

theorem mem_names_define {f : Forest} {j : Nat} (hj : j < f.size) (name other : String)
    (value : Value) (i : Nat) :
    other ∈ (f.define j name value).names i ↔ j = i ∧ other = name ∨ other ∈ f.names i := by
  by_cases hij : j = i
  · subst hij
    rw [mem_names, mem_names, find?_scope_define hj]
    by_cases hname : name = other
    · simp [hname]
    · simp [hname, Ne.symm hname]
  · simp [names_define_of_ne hij, hij]

theorem names_define_of_bound {f : Forest} {j : Nat} {name : String}
    (h : ((f.scope j).find? name).isSome) (hj : j < f.size) (value : Value) (i : Nat) :
    (f.define j name value).names i = f.names i := by
  apply (names_increasing _ i).eq_of_mem_iff (names_increasing f i)
  intro other
  rw [mem_names_define hj]
  constructor
  · rintro (⟨rfl, rfl⟩ | hother)
    · exact mem_names.2 h
    · exact hother
  · exact .inr

theorem names_of_added {f g : Forest} {link : Option Nat} {i : Nat}
    (h : g.get? i = if i = f.size then some ⟨.empty, link⟩ else f.get? i) :
    g.names i = f.names i := by
  by_cases hi : i = f.size
  · have hnone : f.get? i = none := by
      rw [← Option.not_isSome_iff_eq_none, get?_eq_some_iff_lt, hi]
      exact Nat.lt_irrefl _
    rw [names, names, h, if_pos hi, hnone]
    rfl
  · rw [names, names, h, if_neg hi]

theorem names_act {f : Forest} {i : Nat} {action : Action}
    (h : ∀ name value, action ≠ .define i name value) : (f.act action).names i = f.names i := by
  cases action with
  | root => exact names_of_added (get?_addRoot f i)
  | enclose outer => exact names_of_added (get?_enclose f outer i)
  | define j name value =>
    apply names_define_of_ne
    rintro rfl
    exact h name value rfl
  | assign j name value =>
    -- Where an assignment finds its name, the name is bound already, so it adds none.
    rcases act_assign_cases f j name value with hsame | ⟨k, hk, hdefine⟩
    · rw [hsame]
    · rw [hdefine]
      exact names_define_of_bound (isSome_find?_of_resolve? hk) (lt_size_of_resolve? hk) value i

theorem names_foldl_act {f : Forest} {i : Nat} {later : List Action}
    (h : ∀ name value, .define i name value ∉ later) :
    (later.foldl act f).names i = f.names i := by
  induction later generalizing f with
  | nil => rfl
  | cons action later ih =>
    have hlater : ∀ name value, .define i name value ∉ later :=
      fun name value hmem => h name value (List.mem_cons_of_mem action hmem)
    have haction : ∀ name value, action ≠ .define i name value :=
      fun name value heq => h name value (heq ▸ List.mem_cons_self)
    rw [List.foldl_cons, ih hlater, names_act haction]

def Defines (history : List Action) (i : Nat) (name : String) : Prop :=
  ∃ value, .define i name value ∈ history

theorem defines_concat {history : List Action} {action : Action} {i : Nat} {name : String} :
    Defines (history ++ [action]) i name ↔
      Defines history i name ∨ ∃ value, action = .define i name value := by
  simp only [Defines, List.mem_append, List.mem_singleton, exists_or, eq_comm]

theorem mem_names_after {history : List Action} (h : empty.Possible history) {i : Nat}
    {name : String} : name ∈ (after history).names i ↔ Defines history i name := by
  induction history using List.reverseRecOn with
  | nil => simp [after, names, get?, empty, Defines]
  | append_singleton history action ih =>
    obtain ⟨hbefore, hon⟩ := possible_concat.1 h
    rw [after_concat, defines_concat, ← ih hbefore]
    by_cases hdefine : ∃ other value, action = .define i other value
    · obtain ⟨other, value, rfl⟩ := hdefine
      have hi : i < (after history).size := hon
      show name ∈ ((after history).define i other value).names i ↔ _
      rw [mem_names_define hi]
      simp [or_comm, eq_comm]
    · have hother : ∀ other value, action ≠ .define i other value :=
        fun other value heq => hdefine ⟨other, value, heq⟩
      rw [names_act hother]
      simp [hother]

/-! ## The law of environments -/

/-- What environments have kept of the history that made them. -/
structure Represents (f : Forest) (history : List Action) : Prop where
  /-- Environments have the links that they were made with. -/
  made : ∀ i, (f.get? i).map (·.outer) = (links history)[i]?
  /-- Whatever is done later, links stay. -/
  kept : ∀ (later : List Action) i, i < f.size →
    ((later.foldl act f).get? i).map (·.outer) = (f.get? i).map (·.outer)
  acyclic : ∀ i, ¬ Relation.TransGen f.Inside i i
  /-- Every loop along the links ends. -/
  ends : ∀ stop i, i < f.size →
    ∃ steps found, f.Loop stop (some i) steps found ∧ steps ≤ f.depth i
  /-- The depth is what a loop to the outside counts. -/
  counted : ∀ i, i < f.size → f.Loop (fun _ => False) (some i) (f.depth i) none
  depth_root : ∀ i, i < f.size → f.outer? i = none → f.depth i = 1
  depth_inner : ∀ i o, f.outer? i = some o → f.depth i = f.depth o + 1
  /-- A name is read where a loop finds it. -/
  read : ∀ i (name : Token) steps found,
    f.Loop (fun j => f.binds name.lexeme j = true) (some i) steps found →
      f.read i name = (found.bind fun j => (f.scope j).find? name.lexeme).elim
        (.error (.undefined name)) .ok
  /-- A name is assigned where a loop finds it. -/
  assign : ∀ i (name : Token) value steps found,
    f.Loop (fun j => f.binds name.lexeme j = true) (some i) steps found →
      f.assign i name value = found.elim (.error (.undefined name)) fun j =>
        .ok (f.define j name.lexeme value)
  increasing : ∀ i, (f.names i).Pairwise fun a b => Text.bytes a < Text.bytes b
  nodup : ∀ i, (f.names i).Nodup
  /-- The names are those that were defined in the very environment. -/
  names : ∀ i name, name ∈ f.names i ↔ Defines history i name
  /-- Sorting the bound names gives the same list, in whatever order they come. -/
  sorted : ∀ i (keys sorted : List String), keys.Nodup →
    (∀ name, name ∈ keys ↔ ((f.scope i).find? name).isSome) → sorted.Perm keys →
      (sorted.Pairwise fun a b => ¬ Text.bytes b < Text.bytes a) → sorted = f.names i
  /-- Other histories that define the same names, in whatever order, give the same list. -/
  reordered : ∀ other i j, empty.Possible other →
    (∀ name, Defines other j name ↔ Defines history i name) → (after other).names j = f.names i
  /-- Only definitions in the very environment change its names. -/
  unchanged : ∀ (later : List Action) i, (∀ name value, .define i name value ∉ later) →
    (later.foldl act f).names i = f.names i

/-- After every possible history, environments are what the history says. -/
theorem represents_after {history : List Action} (h : empty.Possible history) :
    (after history).Represents history where
  made := link_after h
  kept later _ hi := (extends_foldl_act _ later).link_eq hi
  acyclic := not_inside_self _
  ends stop _ hi := exists_loop stop hi
  counted _ hi := loop_depth hi
  depth_root _ hi ho := depth_root hi ho
  depth_inner _ _ ho := depth_inner ho
  read i name steps found hloop := by
    have hfound := found_eq_resolve? hloop
    rw [Option.bind_some] at hfound
    rw [read_eq, hfound]
    split
    next v hv => rw [hv, Option.elim_some]
    next hnone => rw [hnone, Option.elim_none]
  assign i name value steps found hloop := by
    have hfound := found_eq_resolve? hloop
    rw [Option.bind_some] at hfound
    rw [Forest.assign, hfound]
    cases (after history).resolve? i name.lexeme with
    | none => rfl
    | some j => rfl
  increasing i := (names_increasing _ i).imp Text.bytes_lt
  nodup i := (names_increasing _ i).imp ne_of_lt
  names _ _ := mem_names_after h
  sorted i keys sorted hnodup hkeys hperm hsorted := by
    apply eq_of_sorted_perm (names_increasing _ i) hnodup _ hperm hsorted
    intro name
    rw [hkeys, mem_names]
  reordered other i j hother hsame := by
    apply (names_increasing _ j).eq_of_mem_iff (names_increasing _ i)
    intro name
    rw [mem_names_after hother, mem_names_after h, hsame]
  unchanged _ _ hlater := names_foldl_act hlater

/-- Two environments inside a root, with definitions in the root and in one of them and with
assignments that succeed and that fail. -/
theorem represents_siblings :
    let history : List Action :=
      [.root, .define 0 "b" .nil, .enclose 0, .enclose 0, .define 1 "c" .nil,
        .assign 2 (.ofName "c" 1) .nil, .define 0 "a" .nil,
        .assign 2 (.ofName "a" 1) (.bool true)]
    let reordered : List Action := [.root, .define 0 "a" .nil, .define 0 "b" .nil]
    empty.Possible history ∧ (after history).Represents history ∧ (after history).depth 2 = 2 ∧
      (after history).names 0 = ["a", "b"] ∧
      (after reordered).names 0 = (after history).names 0 ∧ "c" ∉ (after history).names 2 := by
  intro history reordered
  have hpossible : empty.Possible history := by
    simp [history, Possible, Action.On, size_act, links]
  have hlaw := represents_after hpossible
  have hlink (i : Nat) : (after history).outer? i = (links history)[i]?.join := by
    rw [← hlaw.made, outer?]
    cases (after history).get? i <;> rfl
  refine ⟨hpossible, hlaw, ?_, ?_, ?_, ?_⟩
  · have hroot : (after history).depth 0 = 1 := by
      apply hlaw.depth_root 0 _ (hlink 0)
      rw [size_after]
      decide
    rw [hlaw.depth_inner 2 0 (hlink 2), hroot]
  · apply (names_increasing _ 0).eq_of_mem_iff (by decide)
    intro name
    rw [hlaw.names]
    simp [Defines, history, exists_or, or_comm]
  · apply hlaw.reordered reordered 0 0
    · simp [reordered, Possible, Action.On, size_act, links]
    · simp [Defines, history, reordered, exists_or, or_comm]
  · rw [hlaw.names]
    simp [Defines, history]

end Forest

end TreeScript
