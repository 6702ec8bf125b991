import TreeScript.Value

/-!
# Scopes

A scope binds finitely many names to values. The bindings are kept in increasing order of their
names, so that two scopes with the same bindings are the same scope.
-/

namespace TreeScript

namespace Scope

/-- Binds `name` in an ordered list of bindings, replacing an earlier binding of it. -/
def insert (name : String) (value : Value) : List (String × Value) → List (String × Value)
  | [] => [(name, value)]
  | (n, v) :: rest =>
    if name < n then (name, value) :: (n, v) :: rest
    else if name = n then (name, value) :: rest
    else (n, v) :: insert name value rest

theorem mem_insert {name : String} {value : Value} {p : String × Value}
    {entries : List (String × Value)} (h : p ∈ insert name value entries) :
    p = (name, value) ∨ p ∈ entries := by
  induction entries with
  | nil => simpa [insert] using h
  | cons entry rest ih =>
    obtain ⟨n, v⟩ := entry
    simp only [insert] at h
    split at h
    · simpa using h
    · split at h
      · simp only [List.mem_cons] at h ⊢
        exact h.imp id .inr
      · simp only [List.mem_cons] at h ⊢
        rcases h with h | h
        · exact .inr (.inl h)
        · exact (ih h).imp id .inr

theorem ordered_insert (name : String) (value : Value) {entries : List (String × Value)}
    (h : entries.Pairwise (·.1 < ·.1)) : (insert name value entries).Pairwise (·.1 < ·.1) := by
  induction entries with
  | nil => simp [insert]
  | cons entry rest ih =>
    obtain ⟨n, v⟩ := entry
    obtain ⟨hn, hrest⟩ := List.pairwise_cons.1 h
    simp only [insert]
    split
    case isTrue hlt =>
      refine List.pairwise_cons.2 ⟨fun p hp => ?_, h⟩
      rcases List.mem_cons.1 hp with rfl | hp
      · exact hlt
      · exact String.lt_trans hlt (hn p hp)
    case isFalse hlt =>
      split
      case isTrue heq =>
        subst heq
        exact List.pairwise_cons.2 ⟨hn, hrest⟩
      case isFalse heq =>
        refine List.pairwise_cons.2 ⟨fun p hp => ?_, ih hrest⟩
        rcases mem_insert hp with rfl | hp
        · exact Decidable.byContradiction fun hge =>
            heq (String.le_antisymm (String.not_lt.1 hge) (String.not_lt.1 hlt))
        · exact hn p hp

end Scope

structure Scope where
  entries : List (String × Value)
  ordered : entries.Pairwise (·.1 < ·.1)

namespace Scope

def empty : Scope := ⟨[], .nil⟩

def find? (s : Scope) (name : String) : Option Value := s.entries.lookup name

def define (s : Scope) (name : String) (value : Value) : Scope :=
  ⟨insert name value s.entries, ordered_insert name value s.ordered⟩

def names (s : Scope) : List String := s.entries.map (·.1)

end Scope

end TreeScript
