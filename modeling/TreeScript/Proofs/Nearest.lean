import TreeScript.Proofs.Paths
import TreeScript.Settings.Load

/-!
# The nearest settings

Who looks for settings climbs from a directory to the one that it lies in, until there is no other:
`Climbs` tells this by the text of paths alone. What is found is `Nearest`: it lies in the innermost
directory that has settings at all, under the name that is preferred there. What directories above
that one hold makes no difference.
-/

namespace TreeScript.Settings

open Files (Place IsName join outer absolute isAbsolute)

inductive Climbs (fs : FileSystem) : String → Option String → Prop where
  | found {directory path} : (fileNames.map (join directory)).find? fs.has = some path →
    Climbs fs directory (some path)
  | higher {directory result} : (fileNames.map (join directory)).find? fs.has = none →
    outer directory ≠ directory → Climbs fs (outer directory) result → Climbs fs directory result
  | nowhere {directory} : (fileNames.map (join directory)).find? fs.has = none →
    outer directory = directory → Climbs fs directory none

theorem Climbs.deterministic {fs : FileSystem} {directory : String} {result result' : Option String}
    (h : Climbs fs directory result) (h' : Climbs fs directory result') : result = result' := by
  induction h with
  | found hhere =>
      cases h' with
      | found hhere' => exact hhere.symm.trans hhere'
      | higher hhere' | nowhere hhere' => cases hhere.symm.trans hhere'
  | higher hhere hnext _ ih =>
      cases h' with
      | found hhere' => cases hhere.symm.trans hhere'
      | higher _ _ hrest' => exact ih hrest'
      | nowhere _ hlast => exact absurd hlast hnext
  | nowhere hhere hlast =>
      cases h' with
      | found hhere' => cases hhere.symm.trans hhere'
      | higher _ hnext => exact absurd hlast hnext
      | nowhere => rfl

theorem isName_of_mem_fileNames : ∀ name ∈ fileNames, IsName name := by
  intro name hname
  have hnames : name = "lox.yaml" ∨ name = "lox.yml" := by simpa [fileNames] using hname
  rcases hnames with rfl | rfl <;> exact ⟨by decide, by decide, by decide, by decide⟩

/-- A name that settings have at a place, unless they have a name there that is preferred. -/
structure Preferred (fs : FileSystem) (place : Place) (name : String) : Prop where
  present : fs.has (place.child name) = true
  first : name = "lox.yaml" ∨ name = "lox.yml" ∧ fs.has (place.child "lox.yaml") = false

/-- A place is above another one if it is an end of it. -/
def Above (place below : Place) : Prop := place <:+ below ∧ place ≠ below

/-- The nearest settings, as seen from a place. -/
structure Nearest (fs : FileSystem) (start place : Place) (name : String) : Prop where
  within : place <:+ start
  preferred : Preferred fs place name
  closest : ∀ below, Above place below → below <:+ start →
    ∀ other ∈ fileNames, fs.has (below.child other) = false

section Search

variable {fs : FileSystem} {start place : Place} {name : String}

theorem Preferred.mem_fileNames (h : Preferred fs place name) : name ∈ fileNames := by
  rcases h.first with rfl | ⟨rfl, -⟩ <;> decide

theorem not_preferred_of_none (h : ∀ other ∈ fileNames, fs.has (place.child other) = false) :
    ¬Preferred fs place name := by
  intro hpreferred
  have hpresent := hpreferred.present
  rw [h name hpreferred.mem_fileNames] at hpresent
  cases hpresent

/-! ## At one place -/

theorem find?_children_eq_none :
    (fileNames.map place.child).find? fs.has = none ↔
      ∀ name ∈ fileNames, fs.has (place.child name) = false := by
  simp [List.find?_eq_none]

theorem find?_children_eq_some {path : String} :
    (fileNames.map place.child).find? fs.has = some path ↔
      ∃ name, Preferred fs place name ∧ path = place.child name := by
  rw [fileNames, List.map_cons, List.map_cons, List.map_nil, List.find?_cons, List.find?_cons,
    List.find?_nil]
  constructor
  · intro h
    cases hfirst : fs.has (place.child "lox.yaml") with
    | true =>
        rw [hfirst] at h
        exact ⟨"lox.yaml", ⟨hfirst, .inl rfl⟩, (Option.some.inj h).symm⟩
    | false =>
        cases hsecond : fs.has (place.child "lox.yml") with
        | true =>
            rw [hfirst, hsecond] at h
            exact ⟨"lox.yml", ⟨hsecond, .inr ⟨rfl, hfirst⟩⟩, (Option.some.inj h).symm⟩
        | false =>
            rw [hfirst, hsecond] at h
            cases h
  · rintro ⟨name, ⟨hpresent, rfl | ⟨rfl, hfirst⟩⟩, rfl⟩
    · rw [hpresent]
    · rw [hfirst, hpresent]

theorem map_join_path (h : place.Clean) :
    fileNames.map (join place.path) = fileNames.map place.child :=
  List.map_congr_left fun name hname => Place.join_path h (isName_of_mem_fileNames name hname)

/-! ## Climbing -/

theorem candidates_nil : candidates [] = fileNames.map (Place.child []) := rfl

theorem candidates_cons (name : String) (above : Place) :
    candidates (name :: above) = fileNames.map (Place.child (name :: above)) ++ candidates above :=
  rfl

theorem mem_candidates {path : String} :
    path ∈ candidates start ↔
      ∃ place : Place, place <:+ start ∧ ∃ name ∈ fileNames, path = place.child name := by
  have hancestors : start.ancestors = start.tails := by
    induction start with
    | nil => rfl
    | cons name above ih => rw [Place.ancestors, ih, List.tails_cons]
  simp only [candidates, hancestors, List.mem_flatMap, List.mem_tails, List.mem_map, eq_comm]

theorem climbs_candidates (h : start.Clean) :
    Climbs fs start.path ((candidates start).find? fs.has) := by
  induction start with
  | nil =>
      rw [candidates_nil, ← map_join_path h]
      cases hhere : (fileNames.map (join (Place.path []))).find? fs.has with
      | some path => exact .found hhere
      | none => exact .nowhere hhere ((Place.outer_path_eq_self h).2 rfl)
  | cons name above ih =>
      rw [candidates_cons, List.find?_append, ← map_join_path h]
      cases hhere : (fileNames.map (join (Place.path (name :: above)))).find? fs.has with
      | some path => exact .found hhere
      | none =>
          have hnext : outer (Place.path (name :: above)) ≠ Place.path (name :: above) :=
            fun hlast => List.cons_ne_nil _ _ ((Place.outer_path_eq_self h).1 hlast)
          have houter : outer (Place.path (name :: above)) = Place.path above := Place.outer_path h
          exact .higher hhere hnext (houter ▸ ih (Place.clean_cons.1 h).2)

/-- To climb from a place is to look through its candidates. -/
theorem climbs_iff (h : start.Clean) {result : Option String} :
    Climbs fs start.path result ↔ (candidates start).find? fs.has = result := by
  constructor
  · exact (climbs_candidates h).deterministic
  · rintro rfl
    exact climbs_candidates h

/-! ## What is nearest -/

theorem nearest_iff_of_here {here : String} (hhere : here ∈ fileNames)
    (hhas : fs.has (start.child here) = true) :
    Nearest fs start place name ↔ place = start ∧ Preferred fs start name := by
  constructor
  · intro h
    have hplace : place = start := by
      by_contra hne
      have hnone := h.closest start ⟨h.within, hne⟩ (List.suffix_refl start) here hhere
      rw [hhas] at hnone
      cases hnone
    exact ⟨hplace, hplace ▸ h.preferred⟩
  · rintro ⟨rfl, hpreferred⟩
    refine ⟨List.suffix_refl place, hpreferred, fun below habove hbelow => ?_⟩
    exact absurd (habove.1.eq_of_length_le hbelow.length_le) habove.2

theorem nearest_cons_iff {inner : String} {above : Place}
    (hnone : ∀ other ∈ fileNames, fs.has (Place.child (inner :: above) other) = false) :
    Nearest fs (inner :: above) place name ↔ Nearest fs above place name := by
  constructor
  · intro h
    have hplace : place <:+ above := by
      rcases List.suffix_cons_iff.1 h.within with rfl | hplace
      · exact absurd h.preferred (not_preferred_of_none hnone)
      · exact hplace
    exact ⟨hplace, h.preferred, fun below habove hbelow =>
      h.closest below habove (hbelow.trans (List.suffix_cons _ _))⟩
  · intro h
    refine ⟨h.within.trans (List.suffix_cons _ _), h.preferred, fun below habove hbelow => ?_⟩
    rcases List.suffix_cons_iff.1 hbelow with rfl | hbelow
    · exact hnone
    · exact h.closest below habove hbelow

theorem find?_candidates_eq_none :
    (candidates start).find? fs.has = none ↔
      ∀ place : Place, place <:+ start →
        ∀ name ∈ fileNames, fs.has (place.child name) = false := by
  rw [List.find?_eq_none]
  constructor
  · intro h place hplace name hname
    simpa using h _ (mem_candidates.2 ⟨place, hplace, name, hname, rfl⟩)
  · intro h path hpath
    obtain ⟨place, hplace, name, hname, rfl⟩ := mem_candidates.1 hpath
    rw [h place hplace name hname]
    exact Bool.false_ne_true

theorem find?_candidates_eq_some {path : String} :
    (candidates start).find? fs.has = some path ↔
      ∃ (place : Place) (name : String), Nearest fs start place name ∧ path = place.child name := by
  -- Where the place itself has settings, both sides are about this place alone.
  have hself {here : Place} (hhere : (fileNames.map here.child).find? fs.has ≠ none) :
      (fileNames.map here.child).find? fs.has = some path ↔
        ∃ (place : Place) (name : String),
          Nearest fs here place name ∧ path = place.child name := by
    rw [Ne, find?_children_eq_none] at hhere
    push Not at hhere
    obtain ⟨other, hother, hhas⟩ := hhere
    rw [find?_children_eq_some]
    simp [nearest_iff_of_here hother (Bool.ne_false_iff.1 hhas)]
  induction start with
  | nil =>
      rw [candidates_nil]
      by_cases hhere : (fileNames.map (Place.child [])).find? fs.has = none
      · rw [hhere]
        constructor
        · exact nofun
        · rintro ⟨place, name, h, -⟩
          obtain rfl := List.suffix_nil.1 h.within
          exact absurd h.preferred (not_preferred_of_none (find?_children_eq_none.1 hhere))
      · exact hself hhere
  | cons inner above ih =>
      rw [candidates_cons, List.find?_append]
      by_cases hhere : (fileNames.map (Place.child (inner :: above))).find? fs.has = none
      · simp only [hhere, Option.none_or, nearest_cons_iff (find?_children_eq_none.1 hhere)]
        exact ih
      · rw [← hself hhere, Option.or_of_isSome (Option.isSome_iff_ne_none.2 hhere)]

theorem Nearest.of_has_eq {fs' : FileSystem} (h : Nearest fs start place name)
    (hsame : ∀ here : Place, here <:+ start → ¬Above here place → ∀ other ∈ fileNames,
      fs'.has (here.child other) = fs.has (here.child other)) :
    Nearest fs' start place name := by
  have hplace := hsame place h.within fun habove => habove.2 rfl
  refine ⟨h.within, ⟨?_, h.preferred.first.imp_right fun hfirst => ⟨hfirst.1, ?_⟩⟩, ?_⟩
  · rw [hplace name h.preferred.mem_fileNames]
    exact h.preferred.present
  · rw [hplace "lox.yaml" List.mem_cons_self]
    exact hfirst.2
  · intro below habove hbelow other hother
    -- What lies below the place is not above it as well.
    have hnot : ¬Above below place := fun hagain =>
      habove.2 (habove.1.eq_of_length_le hagain.1.length_le)
    rw [hsame below hbelow hnot other hother]
    exact h.closest below habove hbelow other hother

end Search

/-- It is known where the path of a directory counts from, if it does not count from the root. -/
def Anchored (fs : FileSystem) (workingDirectory directory : String) : Prop :=
  isAbsolute directory = true ∨ fs.workingDirectory = .ok workingDirectory

theorem find?_of_anchored {fs : FileSystem} {workingDirectory directory : String}
    (h : Anchored fs workingDirectory directory) :
    find? fs directory =
      .ok ((candidates ((Place.ofPath workingDirectory).locate directory)).find? fs.has) := by
  have horigin :
      origin fs directory = .ok ((Place.ofPath workingDirectory).locate directory) := by
    unfold origin
    cases habsolute : isAbsolute directory with
    | true =>
        unfold Place.ofPath Place.locate
        rw [habsolute]
        rfl
    | false =>
        rw [h.resolve_left (by rw [habsolute]; exact Bool.false_ne_true)]
        rfl
  unfold find?
  rw [horigin]
  rfl

/-- Settings are looked for by climbing from the directory to the root, which comes to an end. What
is found is nearest: it lies in the innermost directory with settings, and `lox.yaml` is preferred
there. Nothing is found if no directory up to the root has settings. The entries of directories
above the one with the nearest settings can be changed as one likes. The search fails only if it
would start in a working directory that nobody knows. -/
theorem find?_nearest (fs : FileSystem) (directory : String) :
    (∀ e, find? fs directory = .error e ↔ isAbsolute directory = false ∧
        ∃ text, fs.workingDirectory = .error text ∧ e = .unresolved text) ∧
      ∀ workingDirectory, Anchored fs workingDirectory directory →
        let start := (Place.ofPath workingDirectory).locate directory
        (∀ result, Climbs fs (absolute workingDirectory directory) result ↔
            find? fs directory = .ok result) ∧
          start.Clean ∧ start.path = absolute workingDirectory directory ∧
          (∀ path, find? fs directory = .ok (some path) ↔
            ∃ (place : Place) (name : String),
              Nearest fs start place name ∧ path = join place.path name) ∧
          (find? fs directory = .ok none ↔
            ∀ place : Place, place <:+ start →
              ∀ name ∈ fileNames, fs.has (join place.path name) = false) ∧
          (∀ place name fs', Nearest fs start place name →
            fs'.workingDirectory = fs.workingDirectory →
            (∀ (here : Place) other, here.Clean → IsName other → ¬Above here place →
              fs'.has (join here.path other) = fs.has (join here.path other)) →
            find? fs' directory = find? fs directory) := by
  refine ⟨fun e => ?_, fun workingDirectory hanchored => ?_⟩
  · cases habsolute : isAbsolute directory with
    | true =>
        have hanchored : Anchored fs "" directory := .inl habsolute
        rw [find?_of_anchored hanchored]
        simp
    | false =>
        cases hworking : fs.workingDirectory with
        | ok workingDirectory =>
            rw [find?_of_anchored (.inr hworking)]
            simp
        | error text =>
            have hfind : find? fs directory = .error (.unresolved text) := by
              unfold find? origin
              rw [habsolute, hworking]
              rfl
            simp [hfind, eq_comm]
  intro start
  have hclean : start.Clean := Place.clean_locate (Place.clean_ofPath _) directory
  have hpath : start.path = absolute workingDirectory directory :=
    Place.path_locate_ofPath workingDirectory directory
  have hjoin {place : Place} (hplace : place <:+ start) {name : String} (hname : name ∈ fileNames) :
      join place.path name = place.child name :=
    Place.join_path (hclean.of_suffix hplace) (isName_of_mem_fileNames name hname)
  simp only [find?_of_anchored hanchored, Except.ok.injEq]
  refine ⟨fun result => ?_, hclean, hpath, fun path => ?_, ?_, ?_⟩
  · rw [← hpath]
    exact climbs_iff hclean
  · refine find?_candidates_eq_some.trans (exists₂_congr fun place name => ?_)
    refine and_congr_right fun h => ?_
    rw [hjoin h.within h.preferred.mem_fileNames]
  · refine find?_candidates_eq_none.trans (forall₄_congr fun place hplace name hname => ?_)
    rw [hjoin hplace hname]
  · intro place name fs' h hworkingDirectory hsame
    have h' : Nearest fs' start place name := by
      refine h.of_has_eq fun here hhere hnot other hother => ?_
      rw [← hjoin hhere hother]
      exact hsame here other (hclean.of_suffix hhere) (isName_of_mem_fileNames other hother) hnot
    have hanchored' : Anchored fs' workingDirectory directory :=
      hanchored.imp_right hworkingDirectory.trans
    have hfind : (candidates start).find? fs.has = some (place.child name) :=
      find?_candidates_eq_some.2 ⟨place, name, h, rfl⟩
    have hfind' : (candidates start).find? fs'.has = some (place.child name) :=
      find?_candidates_eq_some.2 ⟨place, name, h', rfl⟩
    rw [find?_of_anchored hanchored', hfind, hfind']

/-- Files with settings in two directories, of which the inner one is that of the user. -/
def homeFiles : FileSystem where
  workingDirectory := .ok "/home/work"
  has := fun path => path == "/home/lox.yml" || path == "/lox.yaml"
  read := fun path =>
    if path == "/home/lox.yml" || path == "/lox.yaml" then .ok "" else .error .notFound

def homeOnly : FileSystem where
  workingDirectory := .ok "/home/work"
  has := fun path => path == "/home/lox.yml"
  read := fun path => if path == "/home/lox.yml" then .ok "" else .error .notFound

theorem nearest_home : Nearest homeFiles ["src", "work", "home"] ["home"] "lox.yml" where
  within := ⟨["src", "work"], rfl⟩
  preferred := ⟨by decide +kernel, .inr ⟨rfl, by decide +kernel⟩⟩
  closest := by
    intro below habove hbelow other hother
    have hnames : other = "lox.yaml" ∨ other = "lox.yml" := by simpa [fileNames] using hother
    simp only [List.suffix_cons_iff, List.suffix_nil] at hbelow
    rcases hbelow with rfl | rfl | rfl | rfl
    · rcases hnames with rfl | rfl <;> decide +kernel
    · rcases hnames with rfl | rfl <;> decide +kernel
    · exact absurd rfl habove.2
    · exact absurd (List.suffix_nil.1 habove.1) (List.cons_ne_nil _ _)

theorem find?_nearest_home :
    find? homeFiles "src" = .ok (some "/home/lox.yml") ∧
      find? homeOnly "src" = find? homeFiles "src" := by
  have hstart : (Place.ofPath "/home/work").locate "src" = ["src", "work", "home"] := by
    decide +kernel
  have hfind := (find?_nearest homeFiles "src").2 "/home/work" (.inr rfl)
  rw [hstart] at hfind
  obtain ⟨-, -, -, hsome, -, hchange⟩ := hfind
  refine ⟨(hsome _).2 ⟨["home"], "lox.yml", nearest_home, by decide +kernel⟩,
    hchange ["home"] "lox.yml" homeOnly nearest_home rfl fun here other hhere hother hnot => ?_⟩
  have hroot : join here.path other ≠ "/lox.yaml" := by
    rw [Place.join_path hhere hother]
    intro hpath
    have hlox : Place.Clean ["lox.yaml"] :=
      Place.clean_cons.2 ⟨isName_of_mem_fileNames _ List.mem_cons_self, Place.clean_nil⟩
    have hplace := Place.path_injective (Place.clean_cons.2 ⟨hother, hhere⟩) hlox hpath
    obtain rfl := (List.cons.inj hplace).2
    exact hnot ⟨List.nil_suffix, nofun⟩
  simp [homeOnly, homeFiles, hroot]

end TreeScript.Settings
