import SatScript.Proofs.Program.Stages
import SatScript.Proofs.Session.Untraced
/-!
# SatScript — the trace does not interfere

Whoever adds `--quiet` in front of the arguments loses the lines of the trace on
standard error and nothing else (`run_quiet`). The flag goes through all stages
of the program: it is one of the arguments (`parse_quiet`), a setting that
overrides what a file and the environment say (`load_quiet`), and an option of
the run, which does the same without a trace (`run_untraced`).
-/

namespace SatScript

/-! ## The flag -/

namespace Arguments

/-- The arguments, and that there is to be no trace. -/
def hush (arguments : Arguments) : Arguments := { arguments with quiet := true }

/-- It is the same to take a group before the flag and behind it. -/
theorem take_hush (arguments : Arguments) (group : Argument) :
    arguments.hush.take group = (arguments.take group).hush := by
  cases group with
  | timeout value =>
    rw [take, take]
    cases value.bind fun v => Text.leadingInteger? v.toList <;> rfl
  | _ => rfl

/-- **The flag in front of the arguments adds to what they say** that there is to
be no trace. -/
theorem parse_quiet (words : List String) : parse ("--quiet" :: words) = (parse words).hush := by
  have hgroup : Argument.group ("--quiet" :: words) = .quiet :: Argument.group words := by
    cases words <;> rfl
  have hfold (groups : List Argument) (arguments : Arguments) :
      groups.foldl take arguments.hush = (groups.foldl take arguments).hush := by
    induction groups generalizing arguments with
    | nil => rfl
    | cons group groups ih => rw [List.foldl_cons, List.foldl_cons, take_hush, ih]
  rw [parse, hgroup]
  exact hfold (Argument.group words) {}

end Arguments

/-- The job without a trace. -/
def Job.hush (job : Job) : Job :=
  { job with overrides := { job.overrides with tracing := some false } }

/-- The settings without a trace. -/
def Settings.hush (settings : Settings) : Settings := { settings with tracing := false }

/-- With the flag the arguments ask for the same job without a trace. -/
theorem Arguments.job_hush (arguments : Arguments) :
    arguments.hush.job = arguments.job.map Job.hush := by
  unfold Arguments.job
  rw [show arguments.hush.unknown = arguments.unknown from rfl,
    show arguments.hush.files = arguments.files from rfl]
  split
  · rfl
  · split <;> rfl

namespace Program

variable {host : Host} {words : List String} {job : Job}

/-- A job loads the same settings without a trace, wherever they come from. -/
theorem load_quiet {loaded : Except SettingsFault Settings} (h : Loads host job loaded) :
    Loads host job.hush (loaded.map Settings.hush) := by
  rw [Loads] at h
  subst h
  show Settings.load host.files host.environment job.configFile "" job.hush.overrides = _
  unfold Settings.load
  cases Settings.ofSelectedFile host.files job.configFile "" <;> rfl

/-- The same is asked for. -/
theorem Asks.quiet (h : Asks words job) : Asks ("--quiet" :: words) job.hush where
  help := (congrArg Arguments.help (Arguments.parse_quiet words)).trans h.help
  version := (congrArg Arguments.version (Arguments.parse_quiet words)).trans h.version
  job := by
    rw [Arguments.parse_quiet, Arguments.job_hush, h.job]
    rfl

/-- The program gets as far. -/
theorem Reaches.quiet {settings : Settings} {script : String}
    (h : Reaches host words job settings script) :
    Reaches host ("--quiet" :: words) job.hush settings.hush script where
  asks := h.asks.quiet
  loads := load_quiet h.loads
  valid := h.valid
  reads := h.reads

/-- A script is run the same without a trace. -/
theorem runOf_quiet (host : Host) (settings : Settings) (script : String) :
    runOf host settings.hush script = (runOf host settings script).fresh :=
  Session.run_untraced (optionsOf settings) (backendOf host settings) script.toList

/-! ## The program -/

/-- **What can come of the program can come of it with the flag**, unless a script is
run. -/
theorem Yields.quiet {effects : Effects} (h : Yields host words effects)
    (hreaches : ∀ job settings script, ¬ Reaches host words job settings script) :
    Yields host ("--quiet" :: words) effects := by
  have hparse := Arguments.parse_quiet words
  cases h with
  | helped hhelp => exact .helped ((congrArg Arguments.help hparse).trans hhelp)
  | versioned hhelp hversion =>
    exact .versioned ((congrArg Arguments.help hparse).trans hhelp)
      ((congrArg Arguments.version hparse).trans hversion)
  | misused hhelp hversion hjob =>
    refine .misused ((congrArg Arguments.help hparse).trans hhelp)
      ((congrArg Arguments.version hparse).trans hversion) ?_
    rw [hparse, Arguments.job_hush, hjob]
    rfl
  | unsettled hasks hloads => exact .unsettled hasks.quiet (load_quiet hloads)
  | @invalid job settings hasks hloads hvalid =>
    exact @Yields.invalid _ _ job.hush settings.hush hasks.quiet (load_quiet hloads) hvalid
  | @unreadable job settings fault hasks hloads hvalid hreads =>
    exact @Yields.unreadable _ _ job.hush settings.hush fault hasks.quiet (load_quiet hloads)
      hvalid hreads
  | ran h => exact absurd h (hreaches _ _ _)

/-- **A trace does not interfere with anything.** With `--quiet` in front of the
arguments the program has the exit code, the standard output and the requests to
the library that it has without. If a script is run, the lines of its trace are
not on standard error, between those that warn of the settings and the one that
reports a fault, and all others are; if none is run, standard error is the same.
And whatever the solver, a run with someone who listens to the trace comes to
what a run without comes to, but for the trace. -/
theorem run_quiet (host : Host) (words : List String) :
    let loud := run host words
    let quiet := run host ("--quiet" :: words)
    (quiet.exitCode = loud.exitCode ∧ quiet.stdout = loud.stdout ∧ quiet.log = loud.log) ∧
    (∀ job settings script, Reaches host words job settings script →
      let outcome := runOf host settings script
      let ending := faultLines job.file outcome.ending
      loud.stderr = warningLines settings ++ traceLines outcome ++ ending ∧
        quiet.stderr = warningLines settings ++ ending) ∧
    ((∀ job settings script, ¬ Reaches host words job settings script) →
      quiet.stderr = loud.stderr) ∧
    ∀ (σ : Type) [Solver σ] (options : Options) (tracing : Bool) (solver : σ)
      (script : List Char),
      (Session.run { options with tracing } solver script).fresh =
        (Session.run options solver script).fresh := by
  intro loud quiet
  have hrun {job : Job} {settings : Settings} {script : String}
      (h : Reaches host words job settings script) :
      let outcome := runOf host settings script
      let ending := faultLines job.file outcome.ending
      loud.stderr = warningLines settings ++ traceLines outcome ++ ending ∧
        quiet = { loud with stderr := warningLines settings ++ ending } := by
    have hloud : loud = _ := run_of_yields (.ran h)
    have hquiet : quiet = _ := run_of_yields (.ran h.quiet)
    rw [runOf_quiet] at hquiet
    rw [hloud, hquiet]
    refine ⟨rfl, ?_⟩
    rw [show traceLines (runOf host settings script).fresh = [] from rfl, List.append_nil]
    rfl
  have hsame (h : ∀ job settings script, ¬ Reaches host words job settings script) :
      quiet = loud := run_of_yields ((yields_run host words).quiet h)
  refine ⟨?_, fun job settings script h => ?_, fun h => by rw [hsame h], ?_⟩
  · by_cases h : ∃ job settings script, Reaches host words job settings script
    · obtain ⟨job, settings, script, hreaches⟩ := h
      rw [(hrun hreaches).2]
      exact ⟨rfl, rfl, rfl⟩
    · rw [hsame fun job settings script hreaches => h ⟨job, settings, script, hreaches⟩]
      exact ⟨rfl, rfl, rfl⟩
  · exact ⟨(hrun h).1, congrArg Effects.stderr (hrun h).2⟩
  · intro σ _ options tracing solver script
    rw [← Session.run_untraced, ← Session.run_untraced]
    rfl

/-- A script is checked and then fails, and there is a warning, since the environment
has fractions refused. The first line and the last stay. -/
theorem run_quiet_fault :
    let host : Host :=
      { files := fun path => if path = "p.smt2" then .text "(check-sat)(foo)" else .missing
        stdin := ""
        environment := Table.ofList [("SEXPSAT_FRACTIONAL_NUMERALS", "no")]
        answers := ⟨["sat"]⟩ }
    let job : Job := { file := "p.smt2", configFile := none, overrides := {} }
    let warning :=
      "warning[W0001]: fractional numerals disabled: decimals other than n.0 are rejected"
    let fault := "p.smt2@12: error[E0600]: Unknown command: foo"
    let loud := run host ["p.smt2"]
    let quiet := run host ["--quiet", "p.smt2"]
    Reaches host ["p.smt2"] job { fractionalNumerals := false } "(check-sat)(foo)" ∧
      quiet.exitCode = loud.exitCode ∧
      loud.stderr = [warning, "got : (check-sat)\n -> (check-sat)", "Verdict: Satisfiable",
        "got : (foo)\n -> (foo)", fault] ∧
      quiet.stderr = [warning, fault] := by
  intro host job warning fault loud quiet
  have hreaches : Reaches host ["p.smt2"] job { fractionalNumerals := false } "(check-sat)(foo)" :=
    ⟨⟨rfl, rfl, rfl⟩, rfl, rfl, rfl⟩
  obtain ⟨⟨hexit, -, -⟩, hstderr, -⟩ := run_quiet host ["p.smt2"]
  obtain ⟨hloud, hquiet⟩ := hstderr job _ _ hreaches
  have hwarning : warningLines { fractionalNumerals := false } = [warning] := by decide
  have htrace : traceLines (runOf host { fractionalNumerals := false } "(check-sat)(foo)") =
      ["got : (check-sat)\n -> (check-sat)", "Verdict: Satisfiable", "got : (foo)\n -> (foo)"] := by
    decide +kernel
  have hfault : faultLines job.file
      (runOf host { fractionalNumerals := false } "(check-sat)(foo)").ending = [fault] := by
    decide +kernel
  rw [hwarning, htrace, hfault] at hloud
  rw [hwarning, hfault] at hquiet
  exact ⟨hreaches, hexit, hloud, hquiet⟩

end Program

end SatScript
