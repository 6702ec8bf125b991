import TreeScript.Proofs.ExitCode

/-!
# What diagnostics leave alone

Traces and colours tell the user about a run and change nothing in it. Two runs of the same files
under the same limit print the same, end with the same code and report the same in the same order,
whether they are traced and coloured or not. To go from what the one writes to what the other writes
is to drop traces as a whole, and to take reports out of their colours.
-/

namespace TreeScript.CommandLine

/-! ## Requests -/

inductive Request.Alike : Request → Request → Prop where
  | help : Alike .help .help
  | refused {e} : Alike (.refused e) (.refused e)
  | run {options options' paths} : Alike (.run options paths) (.run options' paths)

theorem alike_parse (args : List String) (o o' : Options) :
    Request.Alike (Request.parse o args) (Request.parse o' args) := by
  fun_induction Request.parse o args generalizing o' with
  | case1 o => exact .run
  | case2 o arg rest harg | case3 o arg rest harg =>
      rw [Request.parse, harg]
      exact .run
  | case4 o arg rest harg =>
      rw [Request.parse, harg]
      exact .refused
  | case5 o arg name hconfig path rest harg ih | case6 o arg name hconfig path rest harg ih =>
      simp only [Request.parse, harg, hconfig, if_true]
      exact ih _
  | case7 o arg name hconfig harg =>
      simp only [Request.parse, harg, hconfig, if_true]
      exact .refused
  | case8 o arg rest name value harg hconfig hverbose verbose htruth ih =>
      simp only [Request.parse, harg, hconfig, hverbose, htruth, if_true]
      exact ih _
  | case9 o arg rest name value harg hconfig hverbose htruth =>
      simp only [Request.parse, harg, hconfig, hverbose, htruth, if_true]
      exact .refused
  | case10 o arg rest name value harg hconfig hverbose hhelp =>
      simp only [Request.parse, harg, hconfig, hverbose, hhelp, if_true]
      exact .help
  | case11 o arg rest name value harg hconfig hverbose hhelp =>
      simp only [Request.parse, harg, hconfig, hverbose, hhelp]
      exact .refused

/-- Arguments that are taken as options, so that what follows them is read as before. -/
def Understood (taken : List String) : Prop :=
  ∀ o rest, ∃ o', Request.parse o (taken ++ rest) = Request.parse o' rest

theorem understood_nil : Understood [] := fun o _ => ⟨o, rfl⟩

theorem understood_verbose {arg : String} {value : Option String} {verbose : Bool}
    (harg : Argument.ofText arg = .option "v" value)
    (hvalue : truth? (value.getD "true") = some verbose) : Understood [arg] := by
  intro o rest
  refine ⟨{ o with verbose }, ?_⟩
  rw [List.singleton_append, Request.parse, harg]
  simp [hvalue]

theorem alike_inserted {before taken : List String} (hbefore : Understood before)
    (htaken : Understood taken) (after : List String) (o o' : Options) :
    Request.Alike (Request.parse o (before ++ (taken ++ after)))
      (Request.parse o' (before ++ after)) := by
  obtain ⟨o₁, h₁⟩ := hbefore o (taken ++ after)
  obtain ⟨o₂, h₂⟩ := htaken o₁ after
  obtain ⟨o₃, h₃⟩ := hbefore o' after
  rw [h₁, h₂, h₃]
  exact alike_parse after o₂ o₃

/-! ## Notices -/

def reportsOf (notices : List Notice) : List Notice := notices.filter fun notice => !notice.isTrace

theorem reportsOf_append (notices later : List Notice) :
    reportsOf (notices ++ later) = reportsOf notices ++ reportsOf later := List.filter_append ..

theorem reportsOf_noticesOf (trace : Bool) (job : Pipeline.Job) :
    reportsOf (noticesOf trace job) = noticesOf false job := by
  have hreports : reportsOf (job.context.failures.map .failure ++
      job.context.stop.toList.map .stop) =
        job.context.failures.map .failure ++ job.context.stop.toList.map .stop := by
    refine List.filter_eq_self.2 fun notice hnotice => ?_
    rcases List.mem_append.1 hnotice with hfailure | hstop
    · obtain ⟨f, -, rfl⟩ := List.mem_map.1 hfailure
      rfl
    · obtain ⟨stop, -, rfl⟩ := List.mem_map.1 hstop
      rfl
  rw [noticesOf_untraced, ← hreports]
  cases trace with
  | false => rw [noticesOf_untraced]
  | true =>
      -- The traces stand at the two ends of the list.
      simp only [noticesOf, if_true, reportsOf_append]
      rw [← reportsOf_append]
      cases job.context.program <;> exact List.append_nil _

inductive Notice.Written (notice : Notice) : Prop where
  | running (path : String) : notice.isTrace = true →
    (∀ color, notice.render color = "lox: running " ++ path ++ "\n") → Written notice
  | ran (path : String) (statements : Nat) (globals : List String) : notice.isTrace = true →
    (∀ color, notice.render color = "lox: " ++ path ++ ": " ++ toString statements ++
      " statements, globals: [" ++ String.intercalate " " globals ++ "]\n") → Written notice
  | report (text : String) : notice.isTrace = false →
    notice.render true = "\x1b[31m" ++ text ++ "\x1b[0m\n" → notice.render false = text ++ "\n" →
    Written notice
  | usage : notice.isTrace = false → notice.render true = notice.render false → Written notice

theorem Notice.written (notice : Notice) : notice.Written := by
  cases notice with
  | running path => exact .running path rfl fun _ => rfl
  | ran path statements globals => exact .ran path statements globals rfl fun _ => rfl
  | failure f => exact .report f.message rfl rfl rfl
  | stop stop => exact .report stop.report rfl rfl rfl
  | usage | badUsage | notProgram | badSettings | internalError => exact .usage rfl rfl

/-! ## Files -/

structure Progress.Alike (p q : Progress) : Prop where
  interpreter : q.interpreter = p.interpreter
  code : q.code = p.code
  reports : reportsOf q.notices = reportsOf p.notices
  overflowed : q.overflowed = p.overflowed

section Files

variable {fs fs' : FileSystem}

theorem runFile_of_read [Machine] {path : String} (h : fs.read path = fs'.read path)
    (s : Interpreter) : runFile fs s path = runFile fs' s path := by
  have hload : Pipeline.Context.load fs { file := path } =
      Pipeline.Context.load fs' { file := path } := by
    unfold Pipeline.Context.load
    simp only [h]
  change Pipeline.Job.execute ⟨Pipeline.Context.load fs { file := path }, s⟩ =
    Pipeline.Job.execute ⟨Pipeline.Context.load fs' { file := path }, s⟩
  rw [hload]

theorem Progress.Alike.complete {p q : Progress} (h : p.Alike q) (job : Pipeline.Job)
    (trace trace' : Bool) : (p.complete trace job).Alike (q.complete trace' job) where
  interpreter := rfl
  code := by rw [Progress.complete, Progress.complete, h.code]
  reports := by
    simp only [Progress.complete, reportsOf_append, reportsOf_noticesOf, h.reports]
  overflowed := h.overflowed

theorem reportsOf_overflow (trace : Bool) (p : Progress) (path : String) :
    reportsOf (p.overflow trace path).notices = reportsOf p.notices := by
  rw [Progress.overflow, reportsOf_append]
  cases trace <;> exact List.append_nil _

theorem Progress.Alike.next [Machine] {p q : Progress} (h : p.Alike q) {path : String}
    (hread : fs.read path = fs'.read path) (trace trace' : Bool) :
    (Progress.next fs trace p path).Alike (Progress.next fs' trace' q path) := by
  unfold Progress.next
  rw [h.overflowed, h.interpreter, runFile_of_read hread]
  split
  · exact h
  · dsimp only
    split
    · refine ⟨h.interpreter, rfl, ?_, rfl⟩
      rw [reportsOf_overflow, reportsOf_overflow, h.reports]
    · exact h.complete _ trace trace'

theorem Progress.Alike.foldl [Machine] {paths : List String} {p q : Progress} (h : p.Alike q)
    (hread : ∀ path ∈ paths, fs.read path = fs'.read path) (trace trace' : Bool) :
    (paths.foldl (Progress.next fs trace) p).Alike
      (paths.foldl (Progress.next fs' trace') q) := by
  induction paths generalizing p q with
  | nil => exact h
  | cons path rest ih =>
      rw [List.forall_mem_cons] at hread
      exact ih (h.next hread.1 trace trace') hread.2

theorem reportsOf_foldl_untraced [Machine] (paths : List String) {p : Progress}
    (h : reportsOf p.notices = p.notices) :
    reportsOf (paths.foldl (Progress.next fs false) p).notices =
      (paths.foldl (Progress.next fs false) p).notices := by
  induction paths generalizing p with
  | nil => exact h
  | cons path rest ih =>
      refine ih ?_
      unfold Progress.next
      split
      · exact h
      · dsimp only
        split
        · rw [reportsOf_overflow, h]
          exact (List.append_nil _).symm
        · rw [Progress.complete, reportsOf_append, h, reportsOf_noticesOf]

end Files

/-! ## Runs -/

def Traced (args : List String) (settings : Settings) : Prop :=
  ∃ options paths, Request.parse {} args = .run options paths ∧
    (settings.trace || options.verbose) = true

def Uses (env : Environment) (args : List String) (settings : Settings) : Prop :=
  ∀ options paths, Request.parse {} args = .run options paths →
    settingsOf env.files options.settingsPath = .ok settings

/-- Runs of the same files, under settings with the same limit. Which settings these are, where they
are found, how the errors are shown and what other files there are may be different. -/
structure Paired (env₁ env₂ : Environment) (args₁ args₂ : List String)
    (settings₁ settings₂ : Settings) : Prop where
  requests : Request.Alike (Request.parse {} args₁) (Request.parse {} args₂)
  uses₁ : Uses env₁ args₁ settings₁
  uses₂ : Uses env₂ args₂ settings₂
  maxDepth : settings₂.maxDepth = settings₁.maxDepth
  files : ∀ options paths, Request.parse {} args₁ = .run options paths →
    ∀ path ∈ paths, env₁.files.read path = env₂.files.read path

namespace Report

structure Alike (first second : Report) : Prop where
  output : second.output = first.output
  code : second.code = first.code
  reports : reportsOf second.notices = reportsOf first.notices

theorem Alike.refl (r : Report) : r.Alike r := ⟨rfl, rfl, rfl⟩

structure Plain (r : Report) : Prop where
  reports : reportsOf r.notices = r.notices
  errorText : ∀ color, r.errorText = String.join (r.notices.map (Notice.render color))

end Report

section Runs

variable [Machine]

theorem run_of_parse (paths : List String) :
    (∃ r : Report, r.Plain ∧ ∀ env args options, Request.parse {} args = .run options paths →
      run env args = r) ∨
    ∀ env args options settings, Request.parse {} args = .run options paths →
      Uses env args settings → run env args = runFiles env settings options.verbose paths := by
  by_cases hempty : paths = []
  · refine .inl ⟨⟨usageCode, "", false, [.usage]⟩, ⟨rfl, fun _ => rfl⟩, ?_⟩
    intro env args options hparse
    rw [run, hparse, hempty]
    rfl
  · cases hfind : paths.find? fun path => (Program.extension? path).isNone with
    | some path =>
        refine .inl ⟨⟨usageCode, "", false, [.notProgram path]⟩, ⟨rfl, fun _ => rfl⟩, ?_⟩
        intro env args options hparse
        rw [run, hparse]
        simp only [List.isEmpty_eq_false_iff.2 hempty, Bool.false_eq_true, if_false, hfind]
    | none =>
        refine .inr fun env args options settings hparse huses => ?_
        have haddressed := addressed_of_find? hparse hempty hfind
        exact run_eq_runFiles hparse hempty
          (fun path hpath => extension?_isSome_iff.2 (haddressed.extensions path hpath))
          (huses options paths hparse)

theorem run_of_badUsage (env : Environment) {args : List String} {e : UsageError}
    (h : Request.parse {} args = .refused e) :
    run env args = ⟨usageCode, "", false, [.badUsage e, .usage]⟩ := by
  unfold run
  rw [h]

section One

variable {env : Environment} {args : List String} {settings : Settings}

/-- A run that has settings to use either does not come to that, or runs files. -/
theorem run_cases (huses : Uses env args settings) :
    (run env args).Plain ∨ ∃ options paths, Request.parse {} args = .run options paths ∧
      run env args = runFiles env settings options.verbose paths := by
  cases hparse : Request.parse {} args with
  | help =>
      rw [run_of_help env hparse]
      exact .inl ⟨rfl, fun _ => rfl⟩
  | refused e =>
      rw [run_of_badUsage env hparse]
      exact .inl ⟨rfl, fun _ => rfl⟩
  | run options paths =>
      rcases run_of_parse paths with ⟨r, hplain, hrun⟩ | hrun
      · rw [hrun env args options hparse]
        exact .inl hplain
      · exact .inr ⟨options, paths, rfl, hrun env args options settings hparse huses⟩

theorem run_errorText (huses : Uses env args settings) :
    (run env args).errorText = String.join
      ((run env args).notices.map (Notice.render (settings.useColor env.plain env.stream))) := by
  rcases run_cases huses with hplain | ⟨options, paths, -, hrun⟩
  · exact hplain.errorText _
  · rw [hrun]
    rfl

theorem run_untraced (huses : Uses env args settings) (h : ¬Traced args settings) :
    reportsOf (run env args).notices = (run env args).notices := by
  rcases run_cases huses with hplain | ⟨options, paths, hparse, hrun⟩
  · exact hplain.reports
  · have htrace : (settings.trace || options.verbose) = false :=
      Bool.eq_false_iff.2 fun htrace => h ⟨options, paths, hparse, htrace⟩
    rw [hrun, runFiles, htrace]
    exact reportsOf_foldl_untraced paths rfl

end One

section Two

variable {env₁ env₂ : Environment} {args₁ args₂ : List String} {settings₁ settings₂ : Settings}

theorem runFiles_alike {paths : List String} (hdepth : settings₂.maxDepth = settings₁.maxDepth)
    (hread : ∀ path ∈ paths, env₁.files.read path = env₂.files.read path)
    (verbose₁ verbose₂ : Bool) :
    (runFiles env₁ settings₁ verbose₁ paths).Alike (runFiles env₂ settings₂ verbose₂ paths) := by
  have hstart : Progress.Alike
      { interpreter := { Interpreter.new with maxDepth := settings₁.maxDepth } }
      { interpreter := { Interpreter.new with maxDepth := settings₂.maxDepth } } :=
    ⟨by rw [hdepth], rfl, rfl, rfl⟩
  have hend := hstart.foldl hread (settings₁.trace || verbose₁) (settings₂.trace || verbose₂)
  exact ⟨congrArg Interpreter.output hend.interpreter, hend.code, hend.reports⟩

theorem Paired.alike (h : Paired env₁ env₂ args₁ args₂ settings₁ settings₂) :
    (run env₁ args₁).Alike (run env₂ args₂) := by
  have hrequests := h.requests
  generalize hparse₁ : Request.parse {} args₁ = request₁ at hrequests
  generalize hparse₂ : Request.parse {} args₂ = request₂ at hrequests
  cases hrequests with
  | help =>
      rw [run_of_help env₁ hparse₁, run_of_help env₂ hparse₂]
      exact .refl _
  | refused =>
      rw [run_of_badUsage env₁ hparse₁, run_of_badUsage env₂ hparse₂]
      exact .refl _
  | @run options₁ options₂ paths =>
      rcases run_of_parse paths with ⟨r, -, hrun⟩ | hrun
      · rw [hrun env₁ args₁ options₁ hparse₁, hrun env₂ args₂ options₂ hparse₂]
        exact .refl _
      · rw [hrun env₁ args₁ options₁ settings₁ hparse₁ h.uses₁,
          hrun env₂ args₂ options₂ settings₂ hparse₂ h.uses₂]
        exact runFiles_alike h.maxDepth (h.files options₁ paths hparse₁) _ _

/-- Diagnostics do not change a run: the same is printed, the code is the same, and the same is
reported in the same order. An untraced run writes what a traced one writes, less the traces; and
what a report looks like without colours is what stands between the escapes with colours. -/
theorem run_diagnostics (h : Paired env₁ env₂ args₁ args₂ settings₁ settings₂) :
    let first := run env₁ args₁
    let second := run env₂ args₂
    let color₁ := settings₁.useColor env₁.plain env₁.stream
    let color₂ := settings₂.useColor env₂.plain env₂.stream
    second.output = first.output ∧ second.code = first.code ∧
      reportsOf second.notices = reportsOf first.notices ∧
      first.errorText = String.join (first.notices.map (Notice.render color₁)) ∧
      second.errorText = String.join (second.notices.map (Notice.render color₂)) ∧
      (¬Traced args₂ settings₂ → second.notices = reportsOf first.notices ∧
        second.errorText = String.join ((reportsOf first.notices).map (Notice.render color₂))) ∧
      ∀ notice ∈ first.notices, notice.Written := by
  intro first second color₁ color₂
  obtain ⟨houtput, hcode, hreports⟩ := h.alike
  have htext₂ := run_errorText h.uses₂
  refine ⟨houtput, hcode, hreports, run_errorText h.uses₁, htext₂, fun huntraced => ?_,
    fun notice _ => notice.written⟩
  have hnotices : second.notices = reportsOf first.notices :=
    (run_untraced h.uses₂ huntraced).symm.trans hreports
  exact ⟨hnotices, by rw [← hnotices]; exact htext₂⟩

end Two

end Runs

def shown : Environment := { besides "" with stream := .terminal }

theorem greeting_diagnostics :
    let first := run shown ["-v", "gone.lox.yaml", "b.lox.yaml"]
    let second := run (besides "") ["gone.lox.yaml", "b.lox.yaml"]
    second.output = first.output ∧ second.code = first.code ∧
      first.errorText = String.join (first.notices.map (Notice.render true)) ∧
      second.errorText = String.join ((reportsOf first.notices).map (Notice.render false)) := by
  intro first second
  have hparse₁ : Request.parse {} ["-v", "gone.lox.yaml", "b.lox.yaml"] =
      .run ⟨"", true⟩ ["gone.lox.yaml", "b.lox.yaml"] := by cbv
  have hparse₂ : Request.parse {} ["gone.lox.yaml", "b.lox.yaml"] =
      .run {} ["gone.lox.yaml", "b.lox.yaml"] := by cbv
  have hpaired : Paired shown (besides "") ["-v", "gone.lox.yaml", "b.lox.yaml"]
      ["gone.lox.yaml", "b.lox.yaml"] Settings.default Settings.default := {
    requests := alike_inserted understood_nil (understood_verbose (by cbv) (by cbv)) _ {} {}
    uses₁ := by
      intro options paths hparse
      cases hparse₁.symm.trans hparse
      exact settingsOf_besides ""
    uses₂ := by
      intro options paths hparse
      cases hparse₂.symm.trans hparse
      exact settingsOf_besides ""
    maxDepth := rfl
    files := fun _ _ _ _ _ => rfl }
  have huntraced : ¬Traced ["gone.lox.yaml", "b.lox.yaml"] Settings.default := by
    rintro ⟨options, paths, hparse, htrace⟩
    cases hparse₂.symm.trans hparse
    cases htrace
  obtain ⟨houtput, hcode, -, htext, -, hsecond, -⟩ := run_diagnostics hpaired
  exact ⟨houtput, hcode, htext, (hsecond huntraced).2⟩

end TreeScript.CommandLine
