import TreeScript.Proofs.Driver
import TreeScript.Proofs.Stages

/-!
# What an exit code says

A run from the command line is refused, or asks for help, or runs its files; the exit code tells
which, and how the worst of the files ended. How a file ends depends on what the files before it
have left behind: `FilesEnd` follows the files with one interpreter.
-/

namespace TreeScript.CommandLine

/-! ## How files end -/

/-- How the run of a file ends: there is no end to reading it, it cannot be loaded, a runtime error
stops it, or all of it is run. -/
inductive Ending where
  | endless
  | unloaded
  | stopped
  | finished
deriving DecidableEq

/-- From an interpreter, the files at the given paths end in the given ways, one after the other. A
file that cannot be loaded leaves the interpreter as it is. No file comes after one without an
end. -/
inductive FilesEnd [Machine] (fs : FileSystem) :
    Interpreter → List String → List Ending → Prop where
  | nil {s} : FilesEnd fs s [] []
  | endless {s path rest e} : Program.load fs path = .error e → e.isEndless = true →
    FilesEnd fs s (path :: rest) [.endless]
  | unloaded {s path rest e endings} : Program.load fs path = .error e → e.isEndless = false →
    FilesEnd fs s rest endings → FilesEnd fs s (path :: rest) (.unloaded :: endings)
  | stopped {s path rest p e t endings} : Program.load fs path = .ok p →
    Interpreter.execute p.statements s = (.error e, t) → FilesEnd fs t rest endings →
    FilesEnd fs s (path :: rest) (.stopped :: endings)
  | finished {s path rest p t endings} : Program.load fs path = .ok p →
    Interpreter.execute p.statements s = (.value (), t) → FilesEnd fs t rest endings →
    FilesEnd fs s (path :: rest) (.finished :: endings)

theorem FilesEnd.deterministic [Machine] {fs : FileSystem} {s : Interpreter} {paths : List String}
    {endings endings' : List Ending} (h : FilesEnd fs s paths endings)
    (h' : FilesEnd fs s paths endings') : endings = endings' := by
  induction h generalizing endings' with
  | nil =>
      cases h'
      rfl
  | endless hload hend =>
      cases h' with
      | endless _ _ => rfl
      | unloaded hload' hend' _ =>
          cases hload.symm.trans hload'
          cases hend.symm.trans hend'
      | stopped hload' _ _ | finished hload' _ _ => cases hload.symm.trans hload'
  | unloaded hload hend _ ih =>
      cases h' with
      | endless hload' hend' =>
          cases hload.symm.trans hload'
          cases hend.symm.trans hend'
      | unloaded _ _ hrest' => rw [ih hrest']
      | stopped hload' _ _ | finished hload' _ _ => cases hload.symm.trans hload'
  | stopped hload hrun _ ih =>
      cases h' with
      | endless hload' _ | unloaded hload' _ _ => cases hload.symm.trans hload'
      | stopped hload' hrun' hrest' =>
          cases hload.symm.trans hload'
          cases hrun.symm.trans hrun'
          rw [ih hrest']
      | finished hload' hrun' =>
          cases hload.symm.trans hload'
          cases hrun.symm.trans hrun'
  | finished hload hrun _ ih =>
      cases h' with
      | endless hload' _ | unloaded hload' _ _ => cases hload.symm.trans hload'
      | stopped hload' hrun' =>
          cases hload.symm.trans hload'
          cases hrun.symm.trans hrun'
      | finished hload' hrun' hrest' =>
          cases hload.symm.trans hload'
          cases hrun.symm.trans hrun'
          rw [ih hrest']

def Ending.code : Ending → Nat
  | .endless => overflowCode
  | .unloaded => dataCode
  | .stopped => runtimeCode
  | .finished => 0

def IsProgramPath (path : String) : Prop :=
  ∃ ext ∈ Program.extensions, ext.toList <:+ path.toList

instance (path : String) : Decidable (IsProgramPath path) :=
  inferInstanceAs (Decidable (∃ ext ∈ Program.extensions, ext.toList <:+ path.toList))

theorem extension?_isSome_iff {path : String} :
    (Program.extension? path).isSome ↔ IsProgramPath path := by
  simp only [Program.extension?, List.find?_isSome, List.isSuffixOf_iff_suffix, IsProgramPath]

/-- The arguments lead to program files, of which there is at least one. -/
structure Addressed (args : List String) (options : Options) (paths : List String) : Prop where
  parsed : Request.parse {} args = .run options paths
  some : paths ≠ []
  extensions : ∀ path ∈ paths, IsProgramPath path

/-- Nothing is run: the arguments cannot be read, there is no path, some path is not that of a
program file, or the settings cannot be had, because of an error that counts as `Bad`. -/
inductive Refused (Bad : SettingsError → Prop) (env : Environment) (args : List String) : Prop where
  | arguments {e} : Request.parse {} args = .refused e → Refused Bad env args
  | noPath {options} : Request.parse {} args = .run options [] → Refused Bad env args
  | extension {options paths path} : Request.parse {} args = .run options paths → path ∈ paths →
    ¬ IsProgramPath path → Refused Bad env args
  | settings {options paths e} : Request.parse {} args = .run options paths →
    settingsOf env.files options.settingsPath = .error e → Bad e → Refused Bad env args

section Course

variable {env : Environment} {args paths : List String} {options : Options}

theorem Refused.mono {Bad Bad' : SettingsError → Prop} (h : Refused Bad env args)
    (hbad : ∀ e, Bad e → Bad' e) : Refused Bad' env args := by
  cases h with
  | arguments hparse => exact .arguments hparse
  | noPath hparse => exact .noPath hparse
  | extension hparse hmem hextension => exact .extension hparse hmem hextension
  | settings hparse hsettings h => exact .settings hparse hsettings (hbad _ h)

theorem addressed_of_find? (hparse : Request.parse {} args = .run options paths)
    (hsome : paths ≠ [])
    (hfind : (paths.find? fun path => (Program.extension? path).isNone) = none) :
    Addressed args options paths := by
  refine ⟨hparse, hsome, fun path hpath => ?_⟩
  have hnot := List.find?_eq_none.1 hfind path hpath
  rw [Option.isNone_iff_eq_none, ← ne_eq, ← Option.isSome_iff_ne_none] at hnot
  exact extension?_isSome_iff.1 hnot

end Course

/-! ## What the code says -/

theorem run_of_help [Machine] (env : Environment) {args : List String}
    (h : Request.parse {} args = .help) : run env args = ⟨0, "", false, [.usage]⟩ := by
  unfold run
  rw [h]

section Collection

open Yaml (Node hasEvents)

theorem settingsOf_of_read {fs : FileSystem} {path : String} {text : RawText} (hpath : path ≠ "")
    (hread : fs.read path = .ok text) : settingsOf fs path = Settings.parse text path := by
  unfold settingsOf Settings.load
  rw [String.isEmpty_eq_false_iff.2 hpath, hread]
  rfl

end Collection

end TreeScript.CommandLine
