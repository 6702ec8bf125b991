import TreeScript.Proofs.Record

/-!
# What a program file holds

`Program.Holds` says what is to be had from a file, read off the file and the document in it: a
program, or an obstacle and the words for it. To load a file is to learn just that, also for a job
that knows nothing but the path of its file.
-/

namespace TreeScript

namespace Program

/-- What stands in the way of a program, whatever words are put around it. -/
inductive Obstacle where
  | missing
  | inaccessible (e : FileError)
  | malformed (e : Yaml.SyntaxError)
  | misfit (e : DecodeError)

def LoadError.obstacle : LoadError → Obstacle
  | .unreadable _ .notFound => .missing
  | .unreadable _ e => .inaccessible e
  | .unusable _ (.notDocument _ e) => .malformed e
  | .unusable _ (.notProgram e) => .misfit e

/-- What the file at a path holds. A file without a document holds the empty program. -/
inductive Holds (fs : FileSystem) (path : String) : Except (Obstacle × String) Program → Prop where
  | missing : fs.read path = .error .notFound →
    Holds fs path (.error (.missing,
      "reading program " ++ path ++ ": " ++ ("open " ++ path ++ ": no such file or directory")))
  | inaccessible {e} : fs.read path = .error e → e ≠ .notFound →
    Holds fs path (.error (.inaccessible e, "reading program " ++ path ++ ": " ++ e.message path))
  | malformed {text e} : fs.read path = .ok text → Yaml.Node.ofText text = .error e →
    Holds fs path (.error (.malformed e, path ++ ": " ++ ("parsing program: yaml: " ++ e.message)))
  | misfit {text root e} : fs.read path = .ok text → Yaml.Node.ofText text = .ok (some root) →
    decodeStmts root = .error e →
    Holds fs path (.error (.misfit e,
      path ++ ": " ++ ("line " ++ toString e.position.line ++ ":" ++
        toString e.position.column ++ ": " ++ e.complaint.message)))
  | empty {text} : fs.read path = .ok text → Yaml.Node.ofText text = .ok none →
    Holds fs path (.ok ⟨path, []⟩)
  | program {text root statements} : fs.read path = .ok text →
    Yaml.Node.ofText text = .ok (some root) → decodeStmts root = .ok statements →
    Holds fs path (.ok ⟨path, statements⟩)

/-- What is learnt by loading: a program, or the obstacle in the words of the failure. -/
def learnt (loaded : Except LoadError Program) : Except (Obstacle × String) Program :=
  loaded.mapError fun e => (e.obstacle, e.message)

section Load

variable {fs : FileSystem} {path : String}

theorem decode_of_syntaxError {text : RawText} {e : Yaml.SyntaxError}
    (h : Yaml.Node.ofText text = .error e) :
    decode text = .error (.notDocument "program" e) := by
  unfold decode decode? readRoot
  rw [h]
  rfl

theorem decode_of_noDocument {text : RawText} (h : Yaml.Node.ofText text = .ok none) :
    decode text = .ok [] := by
  unfold decode decode? readRoot
  rw [h]
  rfl

theorem ofText_of_decode {text : RawText} {statements : List Stmt}
    (h : decode text = .ok statements) : ofText path text = .ok ⟨path, statements⟩ := by
  unfold ofText
  rw [h]
  rfl

theorem ofText_of_decode_error {text : RawText} {e : ReadError} (h : decode text = .error e) :
    ofText path text = .error (.unusable path e) := by
  unfold ofText
  rw [h]
  rfl

theorem message_unusable (hpath : path ≠ "") (e : ReadError) :
    (LoadError.unusable path e).message = path ++ ": " ++ e.message := by
  unfold LoadError.message
  exact if_neg fun hempty => hpath (String.isEmpty_iff.1 hempty)

theorem learnt_of_decode_error (hpath : path ≠ "") {text : RawText} {e : ReadError}
    (h : decode text = .error e) :
    learnt (ofText path text) =
      .error ((LoadError.unusable path e).obstacle, path ++ ": " ++ e.message) := by
  rw [ofText_of_decode_error h, ← message_unusable hpath e]
  rfl

theorem exists_holds (fs : FileSystem) (path : String) : ∃ held, Holds fs path held := by
  cases hread : fs.read path with
  | error e =>
      cases e with
      | notFound => exact ⟨_, .missing hread⟩
      | notDirectory | isDirectory | other => exact ⟨_, .inaccessible hread nofun⟩
  | ok text =>
      cases hdocument : Yaml.Node.ofText text with
      | error e => exact ⟨_, .malformed hread hdocument⟩
      | ok document =>
          cases document with
          | none => exact ⟨_, .empty hread hdocument⟩
          | some root =>
              cases hroot : decodeStmts root with
              | error e => exact ⟨_, .misfit hread hdocument hroot⟩
              | ok statements => exact ⟨_, .program hread hdocument hroot⟩

/-- Loading a file learns what it holds. -/
theorem learnt_of_holds (hpath : path ≠ "") {held : Except (Obstacle × String) Program}
    (h : Holds fs path held) : learnt (load fs path) = held := by
  cases h with
  | missing hread => rw [load_of_read_error hread]; rfl
  | @inaccessible e hread hfound =>
      rw [load_of_read_error hread]
      cases e with
      | notFound => exact absurd rfl hfound
      | notDirectory | isDirectory | other => rfl
  | malformed hread hdocument =>
      rw [load_of_read hread, learnt_of_decode_error hpath (decode_of_syntaxError hdocument)]
      rfl
  | misfit hread hdocument hroot =>
      have hdecode := decode_of_ofText hdocument
      rw [hroot] at hdecode
      rw [load_of_read hread, learnt_of_decode_error hpath hdecode]
      rfl
  | empty hread hdocument =>
      rw [load_of_read hread, ofText_of_decode (decode_of_noDocument hdocument)]
      rfl
  | program hread hdocument hroot =>
      have hdecode := decode_of_ofText hdocument
      rw [hroot] at hdecode
      rw [load_of_read hread, ofText_of_decode hdecode]
      rfl

/-- A file holds just what is learnt by loading it. -/
theorem holds_iff (hpath : path ≠ "") {held : Except (Obstacle × String) Program} :
    Holds fs path held ↔ learnt (load fs path) = held := by
  constructor
  · exact learnt_of_holds hpath
  · rintro rfl
    obtain ⟨held, hheld⟩ := exists_holds fs path
    rwa [learnt_of_holds hpath hheld]

end Load

end Program

namespace Pipeline

open Program (Holds Obstacle)

/-- A job that only knows the path of its file learns from it what `Program.load` does: the same
program, or as its only failure the same error. What that is follows from what the file holds. -/
theorem load_stage_agrees [Machine] (fs : FileSystem) {path : String} (hpath : path ≠ "")
    (s : Interpreter) :
    let job := Stage.load.apply fs ⟨{ file := path }, s⟩
    (∀ p, Program.load fs path = .ok p ↔
        job.context.program = some p ∧ job.context.failures = []) ∧
      (∀ e, Program.load fs path = .error e ↔
        job.context.program = none ∧ job.context.failures = [.load e]) ∧
      (∀ p, Holds fs path (.ok p) ↔
        job.context.program = some p ∧ job.context.failures = []) ∧
      (∀ obstacle words, Holds fs path (.error (obstacle, words)) ↔
        job.context.program = none ∧
          ∃ e, job.context.failures = [.load e] ∧ e.obstacle = obstacle ∧ e.message = words) ∧
      job.context.file = path ∧ job.context.stop = none ∧ job.interpreter = s := by
  intro job
  have hread : Context.readProgram fs { file := path } = Program.load fs path :=
    if_pos (by simp [hpath])
  have hjob : job = ⟨Context.load fs { file := path }, s⟩ := rfl
  simp only [Program.holds_iff hpath, hjob]
  rcases Context.load_cases fs { file := path } with
    ⟨p, source, hload, -, -, hcontext⟩ | ⟨e, source, hload, hcontext⟩
  · rw [← hread, hload, hcontext]
    simp [Program.learnt, Except.mapError]
  · rw [← hread, hload, hcontext]
    simp [Program.learnt, Except.mapError]

section Spoilt

open Program (leaf pair)
open Yaml (Node hasEvents)

/-- A statement, and then something that is none. -/
def spoiltText : String := "- print: \x7bliteral: a\x7d\n- nope: 1\n"

def spoiltEvents : List Yaml.Event :=
  let mapping (index line column : Nat) : Yaml.Event :=
    .mappingStart { mark := ⟨index, line, column⟩ }
  let plain (index line column : Nat) (text : String) : Yaml.Event :=
    .scalar { mark := ⟨index, line, column⟩ } text true
  [.sequenceStart { mark := ⟨0, 0, 0⟩ },
    mapping 2 0 2, plain 2 0 2 "print",
    mapping 9 0 9, plain 10 0 10 "literal", plain 19 0 19 "a", .collectionEnd, .collectionEnd,
    mapping 24 1 2, plain 24 1 2 "nope", plain 30 1 8 "1", .collectionEnd, .collectionEnd]

def spoiltNode : Node :=
  .sequence ⟨⟨1, 1⟩, "!!seq", none⟩
    [pair 1 3 (leaf 1 3 "print") (pair 1 10 (leaf 1 11 "literal") (leaf 1 20 "a")),
      pair 2 3 (leaf 2 3 "nope") (.scalar ⟨⟨2, 9⟩, "!!int", none⟩ "1")]

def spoiltFiles : FileSystem where
  workingDirectory := .ok "/"
  has := fun path => path == "a.lox.yaml"
  read := fun path => if path == "a.lox.yaml" then .ok spoiltText else .error .notFound

theorem load_stage_agrees_spoilt :
    let job := Stage.load.apply spoiltFiles ⟨{ file := "a.lox.yaml" }, .new⟩
    job.context.program = none ∧ ∃ e, job.context.failures = [.load e] ∧
      e.obstacle = .misfit ⟨⟨2, 3⟩, .unknownStatement "nope"⟩ ∧
      e.message = "a.lox.yaml: line 2:3: unknown statement kind \"nope\"" ∧
      Program.load spoiltFiles "a.lox.yaml" = .error e := by
  have hevents : hasEvents spoiltText spoiltEvents = true := by decide +kernel
  have hnode : Node.ofEvents spoiltEvents = .ok spoiltNode := by cbv
  have hroot : Program.decodeStmts spoiltNode =
      .error ⟨⟨2, 3⟩, .unknownStatement "nope"⟩ := by cbv
  have hread : spoiltFiles.read "a.lox.yaml" = .ok spoiltText := rfl
  have hholds := Holds.misfit hread (Node.ofText_of_hasEvents hevents hnode) hroot
  have hpath : "a.lox.yaml" ≠ "" := by decide
  have hagrees := load_stage_agrees spoiltFiles hpath .new
  obtain ⟨hnone, e, hfailures, hobstacle, hwords⟩ := (hagrees.2.2.2.1 _ _).1 hholds
  have hmessage : e.message = "a.lox.yaml: line 2:3: unknown statement kind \"nope\"" :=
    hwords.trans (by decide +kernel)
  exact ⟨hnone, e, hfailures, hobstacle, hmessage, (hagrees.2.1 e).2 ⟨hnone, hfailures⟩⟩

end Spoilt

end Pipeline

end TreeScript
