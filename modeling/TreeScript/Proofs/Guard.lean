import TreeScript.Proofs.ExitCode
import TreeScript.Proofs.History
import TreeScript.Proofs.Pieces
import TreeScript.Proofs.Stages

/-!
# The nesting limit of the command line

An interpreter without a positive nesting limit does not limit anything. Runs from the command line
take the limit from the settings, which are usable however they are found: a depth of zero is
completed to the usual one and a negative one is rejected (`Settings.Rejected`). So at every moment
of every run the limit is there, and no program is evaluated at a deeper level.
-/

namespace TreeScript

namespace Settings

/-- Settings that a run can go by. -/
structure Usable (s : Settings) : Prop where
  color : s.color ∈ colors
  maxDepth : 1 ≤ s.maxDepth

/-- Why there are no settings in a text: it cannot be read, or what is written in it is checked, the
colour first. -/
inductive Rejected (text : RawText) (path : String) : SettingsError → Prop where
  | unread {e} : written text path = .error e → Rejected text path e
  | color {s} : written text path = .ok s → lower s.color ∉ "" :: colors →
    Rejected text path (.unknownColor path s.color)
  | depth {s} : written text path = .ok s → lower s.color ∈ "" :: colors → s.maxDepth < 0 →
    Rejected text path (.negativeDepth path s.maxDepth)

theorem knowsColor_iff {color : String} :
    knowsColor color = true ↔ lower color ∈ "" :: colors := by
  rw [knowsColor, Bool.or_eq_true, beq_iff_eq, List.contains_iff_mem, List.mem_cons]

theorem toLower_toLower (c : Char) : c.toLower.toLower = c.toLower := by
  grind [Char.toLower]

theorem lower_lower (word : String) : lower (lower word) = lower word := by
  simp only [lower, String.toList_ofList, List.map_map]
  congr 2
  funext c
  exact toLower_toLower c

theorem complete_of_closed {s : Settings} (hcolor : s.color ≠ "") (hlower : lower s.color = s.color)
    (hdepth : s.maxDepth ≠ 0) : s.complete = s := by
  obtain ⟨color, maxDepth, trace⟩ := s
  simp only at hcolor hlower hdepth
  simp only [complete, hlower, beq_iff_eq, hcolor, hdepth, if_false]

theorem complete_complete (s : Settings) : s.complete.complete = s.complete := by
  have hcolor : s.complete.color ≠ "" ∧ lower s.complete.color = s.complete.color := by
    simp only [complete, beq_iff_eq]
    split
    · decide
    next h => exact ⟨h, lower_lower s.color⟩
  have hdepth : s.complete.maxDepth ≠ 0 := by
    simp only [complete]
    split
    · decide
    next h => exact h
  exact complete_of_closed hcolor.1 hcolor.2 hdepth

theorem usable_complete {s : Settings} (hcolor : lower s.color ∈ "" :: colors)
    (hdepth : 0 ≤ s.maxDepth) : s.complete.Usable := by
  constructor
  · simp only [complete, beq_iff_eq]
    split
    · exact List.mem_cons_self
    next h => exact (List.mem_cons.1 hcolor).resolve_left h
  · simp only [complete]
    split
    · decide
    · omega

theorem usable_default : default.Usable := usable_complete (by decide) (by decide)

section Check

variable {text : RawText} {path : String} {s : Settings} {e : SettingsError}

theorem check_of_unknown (path : String) (h : lower s.color ∉ "" :: colors) :
    check path s = .error (.unknownColor path s.color) := by
  rw [← knowsColor_iff, Bool.not_eq_true] at h
  rw [check, h]
  rfl

theorem check_of_known (path : String) (h : lower s.color ∈ "" :: colors) :
    check path s =
      if s.maxDepth < 0 then .error (.negativeDepth path s.maxDepth) else .ok () := by
  rw [check, knowsColor_iff.2 h]
  rfl

theorem parse_of_unread (h : written text path = .error e) : parse text path = .error e := by
  unfold parse
  rw [h]
  rfl

theorem parse_of_check_error (h : written text path = .ok s) (hcheck : check path s = .error e) :
    parse text path = .error e := by
  unfold parse
  rw [h]
  change (check path s >>= fun _ => pure s.complete) = _
  rw [hcheck]
  rfl

theorem parse_of_check_ok (h : written text path = .ok s) (hcheck : check path s = .ok ()) :
    parse text path = .ok s.complete := by
  unfold parse
  rw [h]
  change (check path s >>= fun _ => pure s.complete) = _
  rw [hcheck]
  rfl

/-- What is rejected has no settings, and everything else has what is written, completed. -/
theorem rejected_or_accepted (text : RawText) (path : String) :
    (∃ e, Rejected text path e ∧ parse text path = .error e) ∨
      ∃ w, written text path = .ok w ∧ lower w.color ∈ "" :: colors ∧ 0 ≤ w.maxDepth ∧
        parse text path = .ok w.complete := by
  cases hwritten : written text path with
  | error e => exact .inl ⟨e, .unread hwritten, parse_of_unread hwritten⟩
  | ok w =>
      by_cases hcolor : lower w.color ∈ "" :: colors
      · by_cases hdepth : w.maxDepth < 0
        · have hcheck := check_of_known path hcolor
          rw [if_pos hdepth] at hcheck
          exact .inl ⟨_, .depth hwritten hcolor hdepth, parse_of_check_error hwritten hcheck⟩
        · have hcheck := check_of_known path hcolor
          rw [if_neg hdepth] at hcheck
          exact .inr ⟨w, rfl, hcolor, Int.not_lt.1 hdepth, parse_of_check_ok hwritten hcheck⟩
      · have hcheck := check_of_unknown path hcolor
        exact .inl ⟨_, .color hwritten hcolor, parse_of_check_error hwritten hcheck⟩

theorem parse_eq_error_iff : parse text path = .error e ↔ Rejected text path e := by
  constructor
  · intro h
    rcases rejected_or_accepted text path with ⟨e', hrejected, hparse⟩ | ⟨w, -, -, -, hparse⟩
    · cases hparse.symm.trans h
      exact hrejected
    · cases hparse.symm.trans h
  · intro h
    cases h with
    | unread hwritten => exact parse_of_unread hwritten
    | color hwritten hcolor => exact parse_of_check_error hwritten (check_of_unknown path hcolor)
    | depth hwritten hcolor hdepth =>
        refine parse_of_check_error hwritten ?_
        rw [check_of_known path hcolor, if_pos hdepth]

theorem parse_eq_ok (h : parse text path = .ok s) :
    (∃ w, written text path = .ok w ∧ s = w.complete) ∧ s.Usable := by
  rcases rejected_or_accepted text path with ⟨e, -, hparse⟩ | ⟨w, hwritten, hcolor, hdepth, hparse⟩
  · cases hparse.symm.trans h
  · cases hparse.symm.trans h
    exact ⟨⟨w, hwritten, rfl⟩, usable_complete hcolor hdepth⟩

end Check

theorem usable_load {fs : FileSystem} {path : String} {s : Settings} (h : load fs path = .ok s) :
    s.Usable := by
  unfold load at h
  cases hread : fs.read path with
  | error e =>
      rw [hread] at h
      cases h
  | ok text =>
      rw [hread] at h
      exact (parse_eq_ok h).2

theorem usable_loadOrDefault {fs : FileSystem} {path : String} {s : Settings}
    (h : loadOrDefault fs path = .ok s) : s.Usable := by
  unfold loadOrDefault at h
  split at h
  · cases h
    exact usable_default
  · split at h
    · cases h
      exact usable_default
    · exact usable_load h

end Settings

namespace CommandLine

open Interpreter (execute)

theorem usable_settingsOf {fs : FileSystem} {path : String} {s : Settings}
    (h : settingsOf fs path = .ok s) : s.Usable := by
  unfold settingsOf at h
  split at h
  · obtain ⟨found, -, h⟩ := Program.bind_eq_ok h
    exact Settings.usable_loadOrDefault h
  · exact Settings.usable_load h

/-- The moments of the runs of the programs in some files, one after the other. There are none after
a file without an end. -/
def filesHistory [Machine] (fs : FileSystem) : List String → Interpreter → List Moment
  | [], _ => []
  | path :: rest, s =>
    match Program.load fs path with
    | .ok p => Stmt.listHistory p.statements [] s ++
        filesHistory fs rest (runFile fs s path).interpreter
    | .error e => if e.isEndless then [] else filesHistory fs rest (runFile fs s path).interpreter

theorem leads_filesHistory [Machine] (fs : FileSystem) (trace : Bool) {paths : List String}
    (hpaths : ∀ path ∈ paths, path ≠ "") {p : Progress} (hp : p.overflowed = false) :
    Moment.Leads ⟨[], true, p.interpreter⟩ (filesHistory fs paths p.interpreter)
      ⟨[], true, (paths.foldl (Progress.next fs trace) p).interpreter⟩ := by
  induction paths generalizing p with
  | nil => exact .nil _
  | cons path rest ih =>
      obtain ⟨hpath, hrest⟩ := List.forall_mem_cons.1 hpaths
      rw [filesHistory, List.foldl_cons]
      cases hload : Program.load fs path with
      | error e =>
          obtain ⟨source, hjob⟩ := runFile_of_error hpath hload p.interpreter
          dsimp only
          split
          next he =>
            rw [next_of_endless hpath hload he trace hp, foldl_next_of_overflowed fs trace rest rfl]
            exact .nil _
          next he =>
            have hend : Ends fs path := fun e' he' => by
              cases hload.symm.trans he'
              exact Bool.eq_false_iff.2 he
            rw [next_of_ends hpath hend trace hp, hjob]
            exact ih hrest (p := p.complete trace ⟨contextOf path source (.error e), _⟩) hp
      | ok program =>
          obtain ⟨source, hjob⟩ := runFile_of_ok hpath hload p.interpreter
          rw [next_of_ends hpath (.of_ok hload) trace hp]
          refine .append ?_ (ih hrest (p := p.complete trace (runFile fs p.interpreter path)) hp)
          rw [Progress.complete, hjob, (Pipeline.start_eq rfl p.interpreter).2]
          exact Interpreter.tells_execute program.statements [] p.interpreter

/-- The nesting limit is always on. Settings are rejected or completed; those in a text, the usual
ones and those that a run finds have a known colour and a limit of at least one, and completing them
once more changes nothing. Under a positive limit, and so in every run from the command line, the
counter is the number of open nodes at every moment, it is at most one more than the limit, and no
node beyond the limit is evaluated. -/
theorem limit_always_on [Machine] :
    (∀ text path e, Settings.parse text path = .error e ↔ Settings.Rejected text path e) ∧
      (∀ text path s, Settings.parse text path = .ok s →
        (∃ w, Settings.written text path = .ok w ∧ s = w.complete) ∧ s.Usable) ∧
      Settings.default.Usable ∧
      (∀ s : Settings, s.complete.complete = s.complete) ∧
      (∀ (program : List Stmt) (s : Interpreter), s.level = 0 → 0 < s.maxDepth →
        Moment.Leads ⟨[], true, s⟩ (Stmt.listHistory program [] s)
            ⟨[], true, (execute program s).2⟩ ∧
          ∀ m ∈ Stmt.listHistory program [] s, m.Bounded s.maxDepth) ∧
      ∀ (env : Environment) (args : List String) (options : Options) (paths : List String)
        (settings : Settings), Addressed args options paths →
        settingsOf env.files options.settingsPath = .ok settings →
        let start := { Interpreter.new with maxDepth := settings.maxDepth }
        settings.Usable ∧
          (∃ t : Interpreter, t.output = (run env args).output ∧
            Moment.Leads ⟨[], true, start⟩ (filesHistory env.files paths start) ⟨[], true, t⟩) ∧
          ∀ m ∈ filesHistory env.files paths start, m.Bounded settings.maxDepth := by
  refine ⟨fun _ _ _ => Settings.parse_eq_error_iff, fun _ _ _ => Settings.parse_eq_ok,
    Settings.usable_default, Settings.complete_complete, fun program s hlevel hpos => ?_, ?_⟩
  · have hleads := Interpreter.tells_execute program [] s
    exact ⟨hleads, (hleads.bounded hpos (.start hlevel hpos)).1⟩
  · intro env args options paths settings haddressed hsettings start
    have husable := usable_settingsOf hsettings
    have hpos : 0 < start.maxDepth := husable.maxDepth
    have hextensions : ∀ path ∈ paths, (Program.extension? path).isSome :=
      fun path hpath => extension?_isSome_iff.2 (haddressed.extensions path hpath)
    have hleads := leads_filesHistory env.files (settings.trace || options.verbose)
      (fun path hpath => ne_empty_of_extension (hextensions path hpath))
      (p := { interpreter := start }) rfl
    refine ⟨husable, ⟨_, ?_, hleads⟩, (hleads.bounded hpos (.start rfl hpos)).1⟩
    rw [run_eq_runFiles haddressed.parsed haddressed.some hextensions hsettings]
    rfl

section Shallow

open Yaml (Node hasEvents)
open Program (leaf pair)

/-- Settings that allow one level. -/
def shallowText : String := "color: NEVER\nmax_depth: 1\n"

def shallowEvents : List Yaml.Event :=
  let plain (index line column : Nat) (text : String) : Yaml.Event :=
    .scalar { mark := ⟨index, line, column⟩ } text true
  [.mappingStart { mark := ⟨0, 0, 0⟩ },
    plain 0 0 0 "color", plain 7 0 7 "NEVER",
    plain 13 1 0 "max_depth", plain 24 1 11 "1", .collectionEnd]

def shallowNode : Node :=
  .mapping ⟨⟨1, 1⟩, "!!map", none⟩
    [(leaf 1 1 "color", leaf 1 8 "NEVER"),
      (leaf 2 1 "max_depth", .scalar ⟨⟨2, 12⟩, "!!int", none⟩ "1")]

theorem parse_shallowText (path : String) :
    Settings.parse shallowText path = .ok ⟨"never", 1, false⟩ := by
  have hevents : hasEvents shallowText shallowEvents = true := by decide +kernel
  have hnode : Node.ofEvents shallowEvents = .ok shallowNode := by cbv
  have hread : (Settings.readRoot shallowNode).run {} =
      .ok ((), { settings := ⟨"NEVER", 1, false⟩, effort := ⟨6, 0⟩ }) := by cbv
  have hwritten : Settings.written shallowText path = .ok ⟨"NEVER", 1, false⟩ := by
    unfold Settings.written
    rw [Node.ofText_of_hasEvents hevents hnode]
    simp only [bind, Except.bind, Except.mapError, hread]
    rfl
  refine Settings.parse_of_check_ok hwritten ?_
  rw [Settings.check_of_known path (by decide), if_neg (by decide)]

def shallowFiles : FileSystem where
  workingDirectory := .ok "/"
  has := fun path => path == "c.yaml" || path == "a.lox.yaml"
  read := fun path =>
    if path == "c.yaml" then .ok shallowText
    else if path == "a.lox.yaml" then .ok Pipeline.failingSource
    else .error .notFound

/-- The run comes to the constant that is to be printed, and does not evaluate it. -/
theorem limit_always_on_shallow :
    let env : Environment := ⟨shallowFiles, false, .buffer⟩
    let start := { Interpreter.new with maxDepth := 1 }
    let literal : Expr := .literal ⟨.string, "a", .text "a", 1, 20⟩ (.text "a")
    let m : Moment := ⟨[.expression literal, .statement (.print (.ofKind .printWord 1) literal)],
      false, start.descend.descend⟩
    Settings.parse shallowText "c.yaml" = .ok ⟨"never", 1, false⟩ ∧
      (⟨"never", 1, false⟩ : Settings).Usable ∧
      Addressed ["-config", "c.yaml", "a.lox.yaml"] { settingsPath := "c.yaml" } ["a.lox.yaml"] ∧
      settingsOf env.files "c.yaml" = .ok ⟨"never", 1, false⟩ ∧
      m ∈ filesHistory env.files ["a.lox.yaml"] start ∧ m.Bounded 1 ∧
      (m.state.level : Int) = 1 + 1 ∧
      (∃ t : Interpreter, t.output = (run env ["-config", "c.yaml", "a.lox.yaml"]).output ∧
        Moment.Leads ⟨[], true, start⟩ (filesHistory env.files ["a.lox.yaml"] start)
          ⟨[], true, t⟩) := by
  intro env start literal m
  have haddressed : Addressed ["-config", "c.yaml", "a.lox.yaml"] { settingsPath := "c.yaml" }
      ["a.lox.yaml"] := ⟨by cbv, by decide, by decide⟩
  have hparse := parse_shallowText "c.yaml"
  have hsettings : settingsOf env.files "c.yaml" = .ok ⟨"never", 1, false⟩ :=
    (settingsOf_of_read (by decide) rfl).trans hparse
  have hmem : m ∈ filesHistory env.files ["a.lox.yaml"] start := by
    have hload : Program.load env.files "a.lox.yaml" = .ok ⟨"a.lox.yaml", Pipeline.failing⟩ :=
      (Program.load_of_read rfl).trans (Pipeline.ofText_failingSource "a.lox.yaml")
    have hfourth : (Stmt.listHistory Pipeline.failing [] start)[3]? = some m := rfl
    rw [filesHistory, hload]
    exact List.mem_append_left _ (List.mem_of_getElem? hfourth)
  obtain ⟨-, hparsed, -, -, -, hruns⟩ := limit_always_on
  obtain ⟨-, hleads, hbounded⟩ := hruns env _ _ _ _ haddressed hsettings
  exact ⟨hparse, (hparsed _ _ _ hparse).2, haddressed, hsettings, hmem, hbounded m hmem, rfl,
    hleads⟩

end Shallow

end CommandLine

end TreeScript
