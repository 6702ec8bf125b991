import TreeScript.Scope.Chain

/-!
# Environments and the scopes seen from them

Two views of a forest that the theory of runs rests on. `Forest.Extends` says what no operation ever
takes back: environments, their links and the names they bind. `Forest.scopes` lists the scopes seen
from an environment, innermost first, and how the operations change that list.
-/

namespace TreeScript

namespace Scope

@[simp] theorem find?_empty (name : String) : empty.find? name = none := rfl

theorem lookup_cons_eq_ite (n name : String) (v : Value) (rest : List (String × Value)) :
    ((n, v) :: rest).lookup name = if name = n then some v else rest.lookup name := by
  rw [List.lookup_cons]
  by_cases h : name = n
  · rw [beq_iff_eq.2 h, if_pos h]
  · rw [beq_eq_false_iff_ne.2 h, if_neg h]

theorem lookup_insert (name other : String) (value : Value)
    (entries : List (String × Value)) :
    (insert name value entries).lookup other =
      if other = name then some value else entries.lookup other := by
  induction entries with
  | nil => rw [insert, lookup_cons_eq_ite]
  | cons entry rest ih =>
      obtain ⟨n, v⟩ := entry
      rw [insert]
      split
      · rw [lookup_cons_eq_ite]
      · split
        case isTrue heq =>
          subst heq
          simp only [lookup_cons_eq_ite]
          split <;> rfl
        case isFalse hne =>
          rw [lookup_cons_eq_ite, lookup_cons_eq_ite, ih]
          by_cases hother : other = name
          · rw [if_neg (by rw [hother]; exact hne), if_pos hother, if_pos hother]
          · rw [if_neg hother, if_neg hother]

theorem find?_define (s : Scope) (name other : String) (value : Value) :
    (s.define name value).find? other = if other = name then some value else s.find? other :=
  lookup_insert name other value s.entries

theorem isSome_find?_define {s : Scope} {other : String} (name : String) (value : Value)
    (h : (s.find? other).isSome) : ((s.define name value).find? other).isSome := by
  rw [find?_define]
  split
  · rfl
  · exact h

theorem mem_names {s : Scope} {name : String} : name ∈ s.names ↔ (s.find? name).isSome := by
  rw [find?, List.lookup_isSome_iff, names, List.mem_map]
  constructor
  · rintro ⟨entry, hentry, rfl⟩
    exact ⟨entry, hentry, beq_self_eq_true _⟩
  · rintro ⟨entry, hentry, heq⟩
    exact ⟨entry, hentry, (eq_of_beq heq).symm⟩

end Scope

namespace Forest

theorem get?_eq_some_iff_lt {f : Forest} {i : Nat} : (f.get? i).isSome ↔ i < f.size := by
  simp [get?, size]

theorem exists_get? {f : Forest} {i : Nat} (h : i < f.size) : ∃ e, f.get? i = some e :=
  Option.isSome_iff_exists.1 (get?_eq_some_iff_lt.2 h)

theorem lt_size {f : Forest} {i : Nat} {e : Environment} (h : f.get? i = some e) : i < f.size :=
  get?_eq_some_iff_lt.1 (by simp [h])

theorem get?_define (f : Forest) (i j : Nat) (name : String) (value : Value) :
    (f.define i name value).get? j =
      if i = j then (f.get? j).map fun e => { e with scope := e.scope.define name value }
      else f.get? j := by
  simp only [define, get?, Array.getElem?_modify]

@[simp] theorem size_enclose (f : Forest) (i : Nat) : (f.enclose i).size = f.size + 1 := by
  simp [enclose, size]

theorem get?_enclose_lt {f : Forest} {i j : Nat} (h : j < f.size) :
    (f.enclose i).get? j = f.get? j := by
  have hne : j ≠ f.members.size := Nat.ne_of_lt h
  simp [enclose, get?, Array.getElem?_push, hne]

theorem get?_enclose_new {f : Forest} {i : Nat} (h : i < f.size) :
    (f.enclose i).get? f.size = some ⟨.empty, some i⟩ := by
  have hi : i < f.members.size := h
  simp [enclose, get?, size, hi]

theorem scope_of_get? {f : Forest} {i : Nat} {e : Environment} (h : f.get? i = some e) :
    f.scope i = e.scope := by
  simp [scope, h]

theorem mem_names {f : Forest} {i : Nat} {name : String} :
    name ∈ f.names i ↔ ((f.scope i).find? name).isSome := by
  unfold names scope
  cases f.get? i with
  | none => simp
  | some e => exact Scope.mem_names

theorem scope_enclose {f : Forest} {i : Nat} (hi : i < f.size) (j : Nat) :
    (f.enclose j).scope i = f.scope i := by
  rw [scope, scope, get?_enclose_lt hi]

theorem scope_define_of_ne {f : Forest} {i j : Nat} (h : j ≠ i) (name : String)
    (value : Value) : (f.define i name value).scope j = f.scope j := by
  simp [scope, get?_define, Ne.symm h]

theorem find?_scope_define {f : Forest} {i : Nat} (hi : i < f.size) (j : Nat) (name other : String)
    (value : Value) :
    ((f.define j name value).scope i).find? other =
      if j = i ∧ name = other then some value else (f.scope i).find? other := by
  obtain ⟨e, he⟩ := exists_get? hi
  by_cases hj : j = i
  · have hdefine : (f.define j name value).get? i =
        some { e with scope := e.scope.define name value } := by
      rw [get?_define, if_pos hj, he]
      rfl
    rw [scope_of_get? hdefine, scope_of_get? he, Scope.find?_define]
    simp only [hj, true_and, eq_comm]
  · rw [scope_define_of_ne (Ne.symm hj), if_neg fun h => hj h.1]

theorem binds_eq_isSome {f : Forest} {i : Nat} {e : Environment} (h : f.get? i = some e)
    (name : String) : f.binds name i = (e.scope.find? name).isSome := by
  simp [binds, h]

/-- An assignment defines the name anew in the nearest environment that binds it. -/
theorem assign_eq_define {f g : Forest} {i : Nat} {name : Token} {value : Value}
    (h : f.assign i name value = .ok g) :
    ∃ j, f.resolve? i name.lexeme = some j ∧ g = f.define j name.lexeme value := by
  unfold assign at h
  split at h
  next j hj =>
    cases h
    exact ⟨j, hj, rfl⟩
  next => cases h

theorem isSome_find?_of_resolve? {f : Forest} {i j : Nat} {name : String}
    (h : f.resolve? i name = some j) : ((f.scope j).find? name).isSome := by
  have hbinds := List.find?_some h
  unfold binds at hbinds
  split at hbinds
  next e he => rwa [scope_of_get? he]
  next => cases hbinds

/-! ## What no operation takes back -/

/-- `g` still has the environments of `f`, with the same links and with at least their names. -/
def Extends (f g : Forest) : Prop :=
  ∀ i e, f.get? i = some e → ∃ e', g.get? i = some e' ∧ e'.outer = e.outer ∧
    ∀ name, (e.scope.find? name).isSome → (e'.scope.find? name).isSome

namespace Extends

theorem refl (f : Forest) : f.Extends f := fun _ e h => ⟨e, h, rfl, fun _ hn => hn⟩

theorem trans {f g h : Forest} (hfg : f.Extends g) (hgh : g.Extends h) : f.Extends h := by
  intro i e he
  obtain ⟨e', he', ho', hn'⟩ := hfg i e he
  obtain ⟨e'', he'', ho'', hn''⟩ := hgh i e' he'
  exact ⟨e'', he'', ho''.trans ho', fun name hn => hn'' name (hn' name hn)⟩

theorem lt_size {f g : Forest} (h : f.Extends g) {i : Nat} (hi : i < f.size) : i < g.size := by
  obtain ⟨e, he⟩ := exists_get? hi
  obtain ⟨e', he', -⟩ := h i e he
  exact Forest.lt_size he'

theorem size_le {f g : Forest} (h : f.Extends g) : f.size ≤ g.size :=
  Nat.le_of_not_lt fun hlt => Nat.lt_irrefl g.size (h.lt_size hlt)

theorem outer?_eq {f g : Forest} (h : f.Extends g) {i : Nat} (hi : i < f.size) :
    g.outer? i = f.outer? i := by
  obtain ⟨e, he⟩ := exists_get? hi
  obtain ⟨e', he', ho, -⟩ := h i e he
  simp only [outer?, he, he', Option.bind_some, ho]

theorem isSome_find? {f g : Forest} (h : f.Extends g) {i : Nat} {name : String}
    (hn : ((f.scope i).find? name).isSome) : ((g.scope i).find? name).isSome := by
  cases he : f.get? i with
  | none => simp [scope, he] at hn
  | some e =>
      obtain ⟨e', he', -, hnames⟩ := h i e he
      rw [scope_of_get? he] at hn
      rw [scope_of_get? he']
      exact hnames name hn

end Extends

theorem extends_define (f : Forest) (i : Nat) (name : String) (value : Value) :
    f.Extends (f.define i name value) := by
  intro j e he
  by_cases hij : i = j
  · refine ⟨{ e with scope := e.scope.define name value }, ?_, rfl, ?_⟩
    · rw [get?_define, if_pos hij, he]
      rfl
    · exact fun other hother => Scope.isSome_find?_define name value hother
  · exact ⟨e, by rw [get?_define, if_neg hij, he], rfl, fun _ hn => hn⟩

theorem extends_enclose (f : Forest) (i : Nat) : f.Extends (f.enclose i) := by
  intro j e he
  exact ⟨e, by rw [get?_enclose_lt (lt_size he), he], rfl, fun _ hn => hn⟩

theorem extends_assign {f g : Forest} {i : Nat} {name : Token} {value : Value}
    (h : f.assign i name value = .ok g) : f.Extends g := by
  unfold assign at h
  split at h
  · cases h
    exact extends_define f _ _ _
  · cases h

/-! ## The scopes seen from an environment -/

theorem path_root {f : Forest} {i : Nat} {e : Environment} (h : f.get? i = some e)
    (ho : e.outer = none) : f.path i = [i] := by
  have hi : f.members[i]? = some e := h
  unfold path
  split
  next hn => rw [hi] at hn; cases hn
  next e' he' =>
    rw [hi] at he'
    cases he'
    split
    · rfl
    next o ho' => rw [ho] at ho'; cases ho'

theorem path_inner {f : Forest} {i o : Nat} {e : Environment} (h : f.get? i = some e)
    (ho : e.outer = some o) : f.path i = i :: f.path o := by
  have hi : f.members[i]? = some e := h
  rw [path]
  split
  next hn => rw [hi] at hn; cases hn
  next e' he' =>
    rw [hi] at he'
    cases he'
    split
    next ho' => rw [ho] at ho'; cases ho'
    next o' ho' => rw [ho] at ho'; cases ho'; rfl

@[elab_as_elim]
theorem rec_path {f : Forest} {motive : (i : Nat) → i < f.size → Prop}
    (root : ∀ i e (h : f.get? i = some e), e.outer = none → motive i (lt_size h))
    (inner : ∀ i e o (h : f.get? i = some e), e.outer = some o → o < i →
      (ho : o < f.size) → motive o ho → motive i (lt_size h))
    (i : Nat) (h : i < f.size) : motive i h := by
  induction i using Nat.strongRecOn with
  | ind i ih =>
      obtain ⟨e, he⟩ := exists_get? h
      cases ho : e.outer with
      | none => exact root i e he ho
      | some o =>
          have hlt : o < i := f.older i e o he ho
          have hsize : o < f.size := Nat.lt_trans hlt h
          exact inner i e o he ho hlt hsize (ih o hlt hsize)

/-- The path outwards never changes. -/
theorem path_extends {f g : Forest} (h : f.Extends g) {i : Nat} (hi : i < f.size) :
    g.path i = f.path i := by
  induction i, hi using rec_path with
  | root i e he ho =>
      obtain ⟨e', he', ho', -⟩ := h i e he
      rw [path_root he ho, path_root he' (ho'.trans ho)]
  | inner i e o he ho _ _ ih =>
      obtain ⟨e', he', ho', -⟩ := h i e he
      rw [path_inner he ho, path_inner he' (ho'.trans ho), ih]

theorem le_of_mem_path {f : Forest} {i j : Nat} (hi : i < f.size) (hj : j ∈ f.path i) :
    j ≤ i := by
  induction i, hi using rec_path with
  | root i e he ho =>
      rw [path_root he ho, List.mem_singleton] at hj
      exact Nat.le_of_eq hj
  | inner i e o he ho hlt _ ih =>
      rw [path_inner he ho, List.mem_cons] at hj
      rcases hj with rfl | hj
      · exact Nat.le_refl j
      · exact Nat.le_trans (ih hj) (Nat.le_of_lt hlt)

def scopes (f : Forest) (i : Nat) : List Scope := (f.path i).map f.scope

theorem scopes_root {f : Forest} {i : Nat} {e : Environment} (h : f.get? i = some e)
    (ho : e.outer = none) : f.scopes i = [e.scope] := by
  rw [scopes, path_root h ho, List.map_singleton, scope_of_get? h]

theorem scopes_inner {f : Forest} {i o : Nat} {e : Environment} (h : f.get? i = some e)
    (ho : e.outer = some o) : f.scopes i = e.scope :: f.scopes o := by
  rw [scopes, path_inner h ho, List.map_cons, scope_of_get? h, scopes]

theorem length_scopes (f : Forest) (i : Nat) : (f.scopes i).length = f.depth i := by
  simp [scopes, depth]

theorem scopes_define_older {f : Forest} {i o : Nat} (hlt : o < i) (ho : o < f.size)
    (name : String) (value : Value) : (f.define i name value).scopes o = f.scopes o := by
  rw [scopes, scopes, path_extends (extends_define f i name value) ho]
  apply List.map_congr_left
  intro j hj
  have hle := le_of_mem_path ho hj
  exact scope_define_of_ne (by omega) name value

theorem scopes_define {f : Forest} {i : Nat} {s : Scope} {rest : List Scope}
    (hi : i < f.size) (h : f.scopes i = s :: rest) (name : String) (value : Value) :
    (f.define i name value).scopes i = s.define name value :: rest := by
  obtain ⟨e, he⟩ := exists_get? hi
  have he' : (f.define i name value).get? i =
      some { e with scope := e.scope.define name value } := by
    simp [get?_define, he]
  cases ho : e.outer with
  | none =>
      rw [scopes_root he ho] at h
      cases h
      exact scopes_root he' ho
  | some o =>
      have hlt : o < i := f.older i e o he ho
      rw [scopes_inner he ho] at h
      cases h
      rw [scopes_inner he' ho, scopes_define_older hlt (Nat.lt_trans hlt hi)]

theorem scopes_enclose_old {f : Forest} (i : Nat) {j : Nat} (hj : j < f.size) :
    (f.enclose i).scopes j = f.scopes j := by
  rw [scopes, scopes, path_extends (extends_enclose f i) hj]
  apply List.map_congr_left
  intro k hk
  have hle := le_of_mem_path hj hk
  have hk' : k < f.size := by omega
  simp [scope, get?_enclose_lt hk']

theorem scopes_enclose_new {f : Forest} {i : Nat} (hi : i < f.size) :
    (f.enclose i).scopes f.size = .empty :: f.scopes i := by
  rw [scopes_inner (get?_enclose_new hi) rfl, scopes_enclose_old i hi]

end Forest

end TreeScript
