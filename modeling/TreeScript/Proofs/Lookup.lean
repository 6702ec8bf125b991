import Mathlib.Data.List.Find
import TreeScript.Proofs.Forest

/-!
# Names seen from environments that share what is around them

`Forest.Nearest` says, link by link, which environment binds a name as it is seen from another one.
Reading and assigning succeed just where there is one. An assignment through one environment shows
in all environments with the same nearest one, and nowhere else; a definition shows where the
defined environment is the nearest one from then on. This holds after every history of changes.
-/

namespace TreeScript

namespace Forest

/-! ## Histories -/

inductive Action where
  | root
  | enclose (outer : Nat)
  | define (i : Nat) (name : String) (value : Value)
  | assign (i : Nat) (name : Token) (value : Value)

/-- The environments after an action. An assignment that fails leaves them as they were. -/
def act (f : Forest) : Action → Forest
  | .root => f.addRoot
  | .enclose outer => f.enclose outer
  | .define i name value => f.define i name value
  | .assign i name value =>
    match f.assign i name value with
    | .ok g => g
    | .error _ => f

def after (history : List Action) : Forest := history.foldl act empty

/-! ## The nearest environment -/

/-- From number `i` outwards, `j` is the first environment whose own scope binds the name. -/
inductive Nearest (f : Forest) (name : String) : Nat → Nat → Prop where
  | here {i e} : f.get? i = some e → (e.scope.find? name).isSome → Nearest f name i i
  | further {i e o j} : f.get? i = some e → e.scope.find? name = none → e.outer = some o →
    Nearest f name o j → Nearest f name i j

theorem path_of_le {f : Forest} {i : Nat} (h : f.size ≤ i) : f.path i = [] := by
  have hi : f.members[i]? = none := Array.getElem?_eq_none h
  rw [path]
  split
  next => rfl
  next e he => rw [hi] at he; cases he

theorem resolve?_here {f : Forest} {i : Nat} {e : Environment} {name : String}
    (he : f.get? i = some e) (hbinds : (e.scope.find? name).isSome) :
    f.resolve? i name = some i := by
  rw [← binds_eq_isSome he] at hbinds
  rw [resolve?]
  cases ho : e.outer with
  | none => rw [path_root he ho, List.find?_cons, hbinds]
  | some o => rw [path_inner he ho, List.find?_cons, hbinds]

theorem resolve?_further {f : Forest} {i o : Nat} {e : Environment} {name : String}
    (he : f.get? i = some e) (hbinds : e.scope.find? name = none) (ho : e.outer = some o) :
    f.resolve? i name = f.resolve? o name := by
  have hfalse : f.binds name i = false := by rw [binds_eq_isSome he, hbinds, Option.isSome_none]
  rw [resolve?, path_inner he ho, List.find?_cons, hfalse, resolve?]

theorem resolve?_outermost {f : Forest} {i : Nat} {e : Environment} {name : String}
    (he : f.get? i = some e) (hbinds : e.scope.find? name = none) (ho : e.outer = none) :
    f.resolve? i name = none := by
  have hfalse : f.binds name i = false := by rw [binds_eq_isSome he, hbinds, Option.isSome_none]
  rw [resolve?, path_root he ho, List.find?_cons, hfalse, List.find?_nil]

theorem nearest_of_binds {f : Forest} {i j : Nat} {e : Environment} {name : String}
    (he : f.get? i = some e) (hbinds : (e.scope.find? name).isSome)
    (h : f.resolve? i name = some j) : f.Nearest name i j := by
  rw [resolve?_here he hbinds] at h
  cases h
  exact .here he hbinds

/-- The search along the path finds the nearest environment. -/
theorem nearest_iff {f : Forest} {name : String} {i j : Nat} :
    f.Nearest name i j ↔ f.resolve? i name = some j := by
  constructor
  · intro h
    induction h with
    | here he hbinds => exact resolve?_here he hbinds
    | further he hbinds ho _ ih => rw [resolve?_further he hbinds ho, ih]
  · intro h
    by_cases hi : i < f.size
    · induction i, hi using rec_path with
      | root i e he ho =>
          cases hfound : e.scope.find? name with
          | none =>
              rw [resolve?_outermost he hfound ho] at h
              cases h
          | some v => exact nearest_of_binds he (by rw [hfound, Option.isSome_some]) h
      | inner i e o he ho _ _ ih =>
          cases hfound : e.scope.find? name with
          | none =>
              rw [resolve?_further he hfound ho] at h
              exact .further he hfound ho (ih h)
          | some v => exact nearest_of_binds he (by rw [hfound, Option.isSome_some]) h
    · rw [resolve?, path_of_le (Nat.le_of_not_lt hi)] at h
      cases h

theorem exists_nearest_iff {f : Forest} {name : String} {i : Nat} :
    (∃ j, f.Nearest name i j) ↔ (f.resolve? i name).isSome := by
  simp only [nearest_iff, Option.isSome_iff_exists]

theorem lt_size_of_resolve? {f : Forest} {name : String} {i j : Nat}
    (h : f.resolve? i name = some j) : j < f.size := by
  have hbinds := isSome_find?_of_resolve? h
  cases hj : f.get? j with
  | none => simp [scope, hj] at hbinds
  | some e => exact lt_size hj

/-! ## Reading -/

theorem read_eq {f : Forest} {i : Nat} {name : Token} :
    f.read i name =
      match (f.resolve? i name.lexeme).bind fun j => (f.scope j).find? name.lexeme with
      | some v => .ok v
      | none => .error (.undefined name) := by
  have hvalue : (fun j => (f.get? j).bind fun e => e.scope.find? name.lexeme) =
      fun j => (f.scope j).find? name.lexeme := by
    funext j
    cases hj : f.get? j with
    | none => simp [scope, hj]
    | some e => rw [scope_of_get? hj, Option.bind_some]
  rw [← hvalue]
  rfl

theorem read_congr {f g : Forest} {i : Nat} {name : Token}
    (hresolve : g.resolve? i name.lexeme = f.resolve? i name.lexeme)
    (hvalue : ∀ j, f.resolve? i name.lexeme = some j →
      (g.scope j).find? name.lexeme = (f.scope j).find? name.lexeme) :
    g.read i name = f.read i name := by
  rw [read_eq, read_eq, hresolve]
  cases hj : f.resolve? i name.lexeme with
  | none => rfl
  | some j => simp only [Option.bind_some, hvalue j hj]

theorem read_of_resolve? {f : Forest} {i j : Nat} {name : Token} {v : Value}
    (hresolve : f.resolve? i name.lexeme = some j) (hv : (f.scope j).find? name.lexeme = some v) :
    f.read i name = .ok v := by
  rw [read_eq, hresolve, Option.bind_some, hv]

theorem read_ok_iff {f : Forest} {i : Nat} {name : Token} {v : Value} :
    f.read i name = .ok v ↔
      ∃ j, f.Nearest name.lexeme i j ∧ (f.scope j).find? name.lexeme = some v := by
  constructor
  · intro h
    rw [read_eq] at h
    split at h
    next w hw =>
      obtain ⟨j, hj, hv⟩ := Option.bind_eq_some_iff.1 hw
      cases h
      exact ⟨j, nearest_iff.2 hj, hv⟩
    next => cases h
  · rintro ⟨j, hj, hv⟩
    exact read_of_resolve? (nearest_iff.1 hj) hv

/-! ## Changes -/

theorem path_define (f : Forest) (j : Nat) (name : String) (value : Value) (i : Nat) :
    (f.define j name value).path i = f.path i := by
  by_cases hi : i < f.size
  · exact path_extends (extends_define f j name value) hi
  · have hsize : (f.define j name value).size = f.size := Array.size_modify
    have hle : f.size ≤ i := Nat.le_of_not_lt hi
    rw [path_of_le hle, path_of_le (hsize.symm ▸ hle)]

theorem binds_define_of_ne {f : Forest} {i j : Nat} {name other : String}
    (h : i ≠ j ∨ other ≠ name) (value : Value) :
    (f.define j name value).binds other i = f.binds other i := by
  cases hi : f.get? i with
  | none => simp [binds, get?_define, hi]
  | some e =>
      by_cases hij : j = i
      · have hother : other ≠ name := h.resolve_left fun hne => hne hij.symm
        simp [binds, get?_define, hi, hij, Scope.find?_define, hother]
      · simp [binds, get?_define, hi, hij]

theorem binds_define_of_binds {f : Forest} {j : Nat} {name : String}
    (h : ((f.scope j).find? name).isSome) (value : Value) (other : String) (i : Nat) :
    (f.define j name value).binds other i = f.binds other i := by
  by_cases hij : i ≠ j ∨ other ≠ name
  · exact binds_define_of_ne hij value
  · obtain ⟨rfl, rfl⟩ : i = j ∧ other = name := by simpa [not_or] using hij
    cases hi : f.get? i with
    | none => simp [scope, hi] at h
    | some e =>
        rw [scope_of_get? hi] at h
        simp [binds, get?_define, hi, Scope.find?_define, h]

theorem resolve?_define_of_binds {f : Forest} {j : Nat} {name : String}
    (h : ((f.scope j).find? name).isSome) (value : Value) (i : Nat) (other : String) :
    (f.define j name value).resolve? i other = f.resolve? i other := by
  rw [resolve?, resolve?, path_define]
  exact List.find?_congr fun k _ => binds_define_of_binds h value other k

theorem resolve?_define_of_ne {f : Forest} {name other : String} (h : other ≠ name) (j : Nat)
    (value : Value) (i : Nat) :
    (f.define j name value).resolve? i other = f.resolve? i other := by
  rw [resolve?, resolve?, path_define]
  exact List.find?_congr fun k _ => binds_define_of_ne (.inr h) value

theorem resolve?_define_of_resolve?_ne {f : Forest} {i j : Nat} {name : String} {value : Value}
    (h : (f.define j name value).resolve? i name ≠ some j) :
    (f.define j name value).resolve? i name = f.resolve? i name := by
  rw [resolve?, path_define] at h ⊢
  rw [resolve?]
  generalize f.path i = path at h ⊢
  induction path with
  | nil => rfl
  | cons k rest ih =>
      rw [List.find?_cons] at h
      rw [List.find?_cons, List.find?_cons]
      by_cases hkj : k = j
      · subst hkj
        cases hnew : (f.define k name value).binds name k with
        | true =>
            rw [hnew] at h
            exact absurd rfl h
        | false =>
            -- Nothing that was bound gets lost, so the name was not bound here before either.
            have hold : f.binds name k = false := by
              cases hk : f.get? k with
              | none => simp [binds, hk]
              | some e => simp [binds, get?_define, hk, Scope.find?_define] at hnew
            rw [hnew] at h
            rw [hold]
            exact ih h
      · have hsame : (f.define j name value).binds name k = f.binds name k :=
          binds_define_of_ne (.inl hkj) value
        rw [hsame] at h ⊢
        cases hk : f.binds name k with
        | true => rfl
        | false =>
            rw [hk] at h
            exact ih h

section Assign

variable {f g : Forest} {i : Nat} {name : Token} {value : Value}

theorem assign_of_resolve?_none (h : f.resolve? i name.lexeme = none) (value : Value) :
    f.assign i name value = .error (.undefined name) := by
  rw [assign, h]

theorem exists_assign_iff :
    (∃ g, f.assign i name value = .ok g) ↔ ∃ j, f.Nearest name.lexeme i j := by
  rw [exists_nearest_iff, assign]
  cases f.resolve? i name.lexeme with
  | none => simp
  | some j => simp

theorem nearest_assign (h : f.assign i name value = .ok g) (other : String) (k j : Nat) :
    g.Nearest other k j ↔ f.Nearest other k j := by
  obtain ⟨target, htarget, rfl⟩ := assign_eq_define h
  rw [nearest_iff, nearest_iff, resolve?_define_of_binds (isSome_find?_of_resolve? htarget)]

theorem read_assign_of_same (h : f.assign i name value = .ok g) {k j : Nat} {other : Token}
    (hname : other.lexeme = name.lexeme) (hi : f.Nearest name.lexeme i j)
    (hk : f.Nearest name.lexeme k j) : g.read k other = .ok value := by
  obtain ⟨target, htarget, rfl⟩ := assign_eq_define h
  have hj : j = target := Option.some.inj ((nearest_iff.1 hi).symm.trans htarget)
  subst hj
  have hbinds := isSome_find?_of_resolve? htarget
  refine read_of_resolve? (j := j) ?_ ?_
  · rw [resolve?_define_of_binds hbinds, hname]
    exact nearest_iff.1 hk
  · rw [find?_scope_define (lt_size_of_resolve? htarget), if_pos ⟨rfl, hname.symm⟩]

theorem read_assign_of_other (h : f.assign i name value = .ok g) {k : Nat} {other : Token}
    (hother : other.lexeme = name.lexeme →
      ¬ ∃ j, f.Nearest name.lexeme i j ∧ f.Nearest name.lexeme k j) :
    g.read k other = f.read k other := by
  obtain ⟨target, htarget, rfl⟩ := assign_eq_define h
  refine read_congr (resolve?_define_of_binds (isSome_find?_of_resolve? htarget) value k _) ?_
  intro j hj
  rw [find?_scope_define (lt_size_of_resolve? hj), if_neg]
  rintro ⟨rfl, hname⟩
  rw [← hname] at hj
  exact hother hname.symm ⟨target, nearest_iff.2 htarget, nearest_iff.2 hj⟩

end Assign

section Define

variable {f : Forest} {i k : Nat} {name : String} {value : Value} {other : Token}

theorem read_define_of_nearest (hname : other.lexeme = name)
    (hk : (f.define i name value).Nearest name k i) :
    (f.define i name value).read k other = .ok value := by
  have hresolve := nearest_iff.1 hk
  have hi : i < f.size := by
    have hlt := lt_size_of_resolve? hresolve
    rwa [size, define, Array.size_modify] at hlt
  refine read_of_resolve? (j := i) ?_ ?_
  · rw [hname, hresolve]
  · rw [find?_scope_define hi, if_pos ⟨rfl, hname.symm⟩]

theorem read_define_of_other
    (hother : other.lexeme = name → ¬ (f.define i name value).Nearest name k i) :
    (f.define i name value).read k other = f.read k other := by
  by_cases hname : other.lexeme = name
  · have hne : (f.define i name value).resolve? k name ≠ some i :=
      fun h => hother hname (nearest_iff.2 h)
    have hresolve := resolve?_define_of_resolve?_ne hne
    refine read_congr (by rw [hname]; exact hresolve) fun j hj => ?_
    rw [hname] at hj
    rw [find?_scope_define (lt_size_of_resolve? hj), if_neg]
    rintro ⟨rfl, -⟩
    exact hne (hresolve.trans hj)
  · refine read_congr (resolve?_define_of_ne hname i value k) fun j hj => ?_
    rw [find?_scope_define (lt_size_of_resolve? hj), if_neg fun h => hname h.2.symm]

end Define

/-! ## The law of lookup -/

/-- What is read and assigned from every environment, before and after every change. -/
structure Lookup (f : Forest) : Prop where
  /-- A name can be read where it has a nearest environment, and has its value there. -/
  read : ∀ i name v, f.read i name = .ok v ↔
    ∃ j, f.Nearest name.lexeme i j ∧ (f.scope j).find? name.lexeme = some v
  readable : ∀ i name, (∃ v, f.read i name = .ok v) ↔ ∃ j, f.Nearest name.lexeme i j
  assignable : ∀ i name v, (∃ g, f.assign i name v = .ok g) ↔ ∃ j, f.Nearest name.lexeme i j
  unbound : ∀ i name v, (¬ ∃ j, f.Nearest name.lexeme i j) →
    f.read i name = .error (.undefined name) ∧ f.assign i name v = .error (.undefined name) ∧
      f.act (.assign i name v) = f
  assigned : ∀ i name v g, f.assign i name v = .ok g → ∀ k other,
    other.lexeme = name.lexeme ∧ (∃ j, f.Nearest name.lexeme i j ∧ f.Nearest name.lexeme k j) →
      g.read k other = .ok v
  unassigned : ∀ i name v g, f.assign i name v = .ok g → ∀ k other,
    ¬ (other.lexeme = name.lexeme ∧
        ∃ j, f.Nearest name.lexeme i j ∧ f.Nearest name.lexeme k j) →
      g.read k other = f.read k other
  defined : ∀ i name v k other,
    other.lexeme = name ∧ (f.define i name v).Nearest name k i →
      (f.define i name v).read k other = .ok v
  undefined : ∀ i name v k other,
    ¬ (other.lexeme = name ∧ (f.define i name v).Nearest name k i) →
      (f.define i name v).read k other = f.read k other
  /-- Assignments, also those that fail, leave every name with its nearest environments. -/
  nearest : ∀ i name v other k j,
    (f.act (.assign i name v)).Nearest other k j ↔ f.Nearest other k j

theorem exists_read_iff {f : Forest} {i : Nat} {name : Token} :
    (∃ v, f.read i name = .ok v) ↔ ∃ j, f.Nearest name.lexeme i j := by
  constructor
  · rintro ⟨v, hv⟩
    obtain ⟨j, hj, -⟩ := read_ok_iff.1 hv
    exact ⟨j, hj⟩
  · rintro ⟨j, hj⟩
    have hbinds := isSome_find?_of_resolve? (nearest_iff.1 hj)
    obtain ⟨v, hv⟩ := Option.isSome_iff_exists.1 hbinds
    exact ⟨v, read_ok_iff.2 ⟨j, hj, hv⟩⟩

/-- After every history, names are looked up by the nearest environment that binds them. -/
theorem lookup_after (history : List Action) : (after history).Lookup where
  read _ _ _ := read_ok_iff
  readable _ _ := exists_read_iff
  assignable _ _ _ := exists_assign_iff
  unbound i name v hnone := by
    have hresolve : (after history).resolve? i name.lexeme = none := by
      rw [exists_nearest_iff, Option.not_isSome_iff_eq_none] at hnone
      exact hnone
    have hassign := assign_of_resolve?_none hresolve v
    refine ⟨?_, hassign, ?_⟩
    · rw [read_eq, hresolve]
      rfl
    · rw [act, hassign]
  assigned _ _ _ _ h _ _ hsame := by
    obtain ⟨hname, j, hi, hk⟩ := hsame
    exact read_assign_of_same h hname hi hk
  unassigned _ _ _ _ h _ _ hother := read_assign_of_other h fun hname hsame => hother ⟨hname, hsame⟩
  defined _ _ _ _ _ h := read_define_of_nearest h.1 h.2
  undefined _ _ _ _ _ hother := read_define_of_other fun hname hk => hother ⟨hname, hk⟩
  nearest i name v other k j := by
    cases h : (after history).assign i name v with
    | ok g =>
        rw [act, h]
        exact nearest_assign h other k j
    | error e => rw [act, h]

end Forest

end TreeScript
