import Mathlib.Data.List.Infix
import TreeScript.Files.Path

/-!
# Paths and places

A place below the root is as good as its path. The operations on paths that only look at their text
(`clean`, `join`, `outer`) do to the path of a place what `Place.ofPath`, a new innermost name and
`List.tail` do to the place.
-/

namespace TreeScript.Files

/-! ## Splitting -/

@[simp] theorem splitSlashes_slash (rest : List Char) :
    splitSlashes ('/' :: rest) = [] :: splitSlashes rest := by
  simp [splitSlashes]

theorem exists_splitSlashes (text : List Char) :
    ∃ part parts, splitSlashes text = part :: parts := by
  unfold splitSlashes
  split
  · exact ⟨_, _, rfl⟩
  · exact ⟨_, _, rfl⟩
  · split <;> exact ⟨_, _, rfl⟩

theorem splitSlashes_cons {c : Char} (hc : c ≠ '/') {rest part : List Char}
    {parts : List (List Char)} (h : splitSlashes rest = part :: parts) :
    splitSlashes (c :: rest) = (c :: part) :: parts := by
  rw [splitSlashes, h]
  simpa using hc

theorem splitSlashes_append (before after : List Char) :
    splitSlashes (before ++ '/' :: after) = splitSlashes before ++ splitSlashes after := by
  induction before with
  | nil => simp [splitSlashes]
  | cons c rest ih =>
      by_cases hc : c = '/'
      · subst hc
        simp [ih]
      · obtain ⟨part, parts, hrest⟩ := exists_splitSlashes rest
        rw [hrest] at ih
        rw [List.cons_append, splitSlashes_cons hc ih, splitSlashes_cons hc hrest]
        rfl

theorem splitSlashes_of_not_mem {text : List Char} (h : '/' ∉ text) :
    splitSlashes text = [text] := by
  induction text with
  | nil => rfl
  | cons c rest ih =>
      rw [List.mem_cons, not_or] at h
      exact splitSlashes_cons (Ne.symm h.1) (ih h.2)

theorem not_mem_of_mem_splitSlashes {text : List Char} :
    ∀ part ∈ splitSlashes text, '/' ∉ part := by
  induction text with
  | nil => simp [splitSlashes]
  | cons c rest ih =>
      by_cases hc : c = '/'
      · subst hc
        simpa using ih
      · obtain ⟨part, parts, hrest⟩ := exists_splitSlashes rest
        rw [hrest, List.forall_mem_cons] at ih
        rw [splitSlashes_cons hc hrest, List.forall_mem_cons, List.mem_cons, not_or]
        exact ⟨⟨Ne.symm hc, ih.1⟩, ih.2⟩

theorem parts_append (before after : String) :
    parts (before ++ "/" ++ after) = parts before ++ parts after := by
  simp [parts, splitSlashes_append]

theorem parts_of_not_mem {part : String} (h : '/' ∉ part.toList) : parts part = [part] := by
  simp [parts, splitSlashes_of_not_mem h]

theorem not_mem_of_mem_parts {path part : String} (h : part ∈ parts path) : '/' ∉ part.toList := by
  obtain ⟨chars, hchars, rfl⟩ := List.mem_map.1 h
  simpa using not_mem_of_mem_splitSlashes chars hchars

theorem parts_intercalate {names : List String} (hnames : names ≠ [])
    (h : ∀ name ∈ names, '/' ∉ name.toList) : parts (String.intercalate "/" names) = names := by
  induction names with
  | nil => exact absurd rfl hnames
  | cons name rest ih =>
      rw [List.forall_mem_cons] at h
      by_cases hrest : rest = []
      · subst hrest
        exact parts_of_not_mem h.1
      · rw [String.intercalate_cons_of_ne_nil hrest, parts_append, parts_of_not_mem h.1,
          ih hrest h.2, List.singleton_append]

/-! ## Clean places -/

/-- Names that lead one place further in, and are not taken for anything else in a path. -/
structure IsName (name : String) : Prop where
  noSlash : '/' ∉ name.toList
  notEmpty : name ≠ ""
  notHere : name ≠ "."
  notAbove : name ≠ ".."

namespace Place

def Clean (here : Place) : Prop := ∀ name ∈ here, IsName name

variable {here above : Place} {name : String}

theorem clean_nil : Clean [] := List.forall_mem_nil _

theorem clean_cons : Clean (name :: above) ↔ IsName name ∧ above.Clean := List.forall_mem_cons

theorem Clean.of_suffix (h : here.Clean) (habove : above <:+ here) : above.Clean :=
  fun name hname => h name (habove.mem hname)

theorem follow_of_isName (h : IsName name) : follow here name = name :: here := by
  simp [follow, h.notEmpty, h.notHere, h.notAbove]

theorem clean_follow (hhere : here.Clean) {part : String} (hpart : '/' ∉ part.toList) :
    (follow here part).Clean := by
  unfold follow
  split
  · exact hhere
  · split
    · exact hhere.of_suffix (List.tail_suffix here)
    · rename_i hstays habove
      simp only [Bool.or_eq_true, beq_iff_eq, not_or] at hstays habove
      exact clean_cons.2 ⟨⟨hpart, hstays.1, hstays.2, habove⟩, hhere⟩

theorem clean_foldl_follow (hhere : here.Clean) {steps : List String}
    (h : ∀ part ∈ steps, '/' ∉ part.toList) : (steps.foldl follow here).Clean := by
  induction steps generalizing here with
  | nil => exact hhere
  | cons part rest ih =>
      rw [List.forall_mem_cons] at h
      exact ih (clean_follow hhere h.1) h.2

theorem clean_locate (hhere : here.Clean) (path : String) : (here.locate path).Clean := by
  have hstart : Clean (if isAbsolute path then [] else here) := by
    split
    · exact clean_nil
    · exact hhere
  exact clean_foldl_follow hstart fun _ => not_mem_of_mem_parts

theorem clean_ofPath (path : String) : (ofPath path).Clean := clean_locate clean_nil path

theorem foldl_follow_of_isName {names : List String} (h : ∀ name ∈ names, IsName name) :
    names.foldl follow here = names.reverse ++ here := by
  induction names generalizing here with
  | nil => rfl
  | cons name rest ih =>
      rw [List.forall_mem_cons] at h
      rw [List.foldl_cons, follow_of_isName h.1, ih h.2, List.reverse_cons, List.append_assoc,
        List.singleton_append]

/-! ## The path of a place -/

theorem ofPath_eq (path : String) : ofPath path = (parts path).foldl follow [] := by
  unfold ofPath locate
  split <;> rfl

theorem ofPath_append (before after : String) :
    ofPath (before ++ "/" ++ after) = (parts after).foldl follow (ofPath before) := by
  rw [ofPath_eq, ofPath_eq, parts_append, List.foldl_append]

theorem ofPath_append_slash (before : String) : ofPath (before ++ "/") = ofPath before := by
  have h := ofPath_append before ""
  rw [String.append_empty] at h
  exact h

theorem ofPath_path (h : here.Clean) : ofPath here.path = here := by
  by_cases hroot : here = []
  · subst hroot
    rfl
  · have hnames : ∀ name ∈ here.reverse, IsName name := fun name hname =>
      h name (List.mem_reverse.1 hname)
    have hreverse : here.reverse ≠ [] := by simpa using hroot
    have hpath : here.path = "" ++ "/" ++ String.intercalate "/" here.reverse := rfl
    have hparts := parts_intercalate hreverse fun name hname => (hnames name hname).noSlash
    rw [hpath, ofPath_append, hparts, foldl_follow_of_isName hnames, List.reverse_reverse]
    exact List.append_nil here

theorem path_injective {there : Place} (h : here.Clean) (hthere : there.Clean)
    (hpath : here.path = there.path) : here = there := by
  rw [← ofPath_path h, hpath, ofPath_path hthere]

theorem path_cons (name : String) (above : Place) :
    path (name :: above) = (if above = [] then "" else above.path) ++ "/" ++ name := by
  split
  · rename_i hroot
    subst hroot
    rfl
  · rename_i hroot
    have habove : above.reverse ≠ [] := by simpa using hroot
    rw [path, List.reverse_cons,
      String.intercalate_append_of_ne_nil habove (List.cons_ne_nil _ _)]
    simp only [path, String.intercalate_singleton, String.append_assoc]

end Place

/-! ## Operations on the text of a path -/

/-- The shortest path from the root to where a path leads. -/
def clean (path : String) : String := (Place.ofPath path).path

def join (directory name : String) : String := clean (directory ++ "/" ++ name)

def absolute (workingDirectory path : String) : String :=
  if isAbsolute path then clean path else join workingDirectory path

/-- The directory that a path lies in: what stands up to its last slash. -/
def outer (path : String) : String :=
  clean (String.ofList (path.toList.reverse.dropWhile (· != '/')).reverse)

theorem outer_append {before name : String} (h : '/' ∉ name.toList) :
    outer (before ++ "/" ++ name) = clean (before ++ "/") := by
  have hname : ∀ c ∈ name.toList.reverse, (c != '/') = true := by
    intro c hc
    rw [bne_iff_ne]
    rintro rfl
    exact h (List.mem_reverse.1 hc)
  -- From behind, the name is what stands before the first slash.
  have hreverse : (before ++ "/" ++ name).toList.reverse =
      name.toList.reverse ++ (before ++ "/").toList.reverse := by
    rw [String.toList_append, List.reverse_append]
  have hslash : (before ++ "/").toList.reverse = '/' :: before.toList.reverse := by
    rw [String.toList_append, List.reverse_append]
    rfl
  have hdrop : (before ++ "/" ++ name).toList.reverse.dropWhile (· != '/') =
      (before ++ "/").toList.reverse := by
    rw [hreverse, List.dropWhile_append_of_pos hname, hslash]
    rfl
  rw [outer, hdrop, List.reverse_reverse, String.ofList_toList]

namespace Place

variable {here above : Place} {name : String}

theorem path_locate_ofPath (workingDirectory path : String) :
    ((ofPath workingDirectory).locate path).path = absolute workingDirectory path := by
  unfold absolute
  split
  · rename_i habsolute
    rw [clean, ofPath_eq path, locate, if_pos habsolute]
  · rename_i hrelative
    rw [join, clean, ofPath_append, locate, if_neg hrelative]

theorem join_path (hhere : here.Clean) (hname : IsName name) :
    join here.path name = here.child name := by
  rw [join, clean, ofPath_append, ofPath_path hhere, parts_of_not_mem hname.noSlash,
    List.foldl_cons, follow_of_isName hname]
  rfl

theorem outer_path (h : here.Clean) : outer here.path = path here.tail := by
  cases here with
  | nil => decide +kernel
  | cons name above =>
      obtain ⟨hname, habove⟩ := clean_cons.1 h
      rw [path_cons, outer_append hname.noSlash, clean, ofPath_append_slash]
      split
      · rename_i hroot
        rw [List.tail_cons, hroot]
        rfl
      · rw [ofPath_path habove, List.tail_cons]

theorem outer_path_eq_self (h : here.Clean) : outer here.path = here.path ↔ here = [] := by
  rw [outer_path h]
  constructor
  · intro hsame
    have htail := path_injective (h.of_suffix (List.tail_suffix here)) h hsame
    by_contra hne
    exact List.ne_cons_self ((htail.trans (List.cons_head_tail hne).symm))
  · rintro rfl
    rfl

end Place

end TreeScript.Files
