import SatScript.Program.Run
/-!
# SatScript — how far the program gets

The program asks several things in turn, and the first that is not as it should
be ends it: that nobody wants help or the version, that the arguments ask for a
job, that the settings load and are valid, that the script is read. `Yields`
lists what can come of it (`yields_run`), and `Reaches` says that the script is
run. So a property of the program is proved by cases and never by unfolding
`run`.
-/

namespace SatScript

namespace Program

/-! ## The run of a script -/

/-- The back end that is started for a script. -/
def backendOf (host : Host) (settings : Settings) : Backend :=
  Backend.start host.library (some settings.timeout)

/-- The run of a script with settings. -/
def runOf (host : Host) (settings : Settings) (script : String) : Outcome Backend :=
  Session.run (optionsOf settings) (backendOf host settings) script.toList

/-- The exit code for a run that ends so. -/
def exitCodeOf : Except Fault Ending → Nat
  | .ok _ => 0
  | .error _ => 1

/-- The lines that report how a run ends. -/
def faultLines (file : String) : Except Fault Ending → List String
  | .ok _ => []
  | .error fault => [describe file fault]

/-- The lines that warn of settings. -/
def warningLines (settings : Settings) : List String :=
  settings.warnings.map fun remark => remark.diagnostic.format

/-- The lines that the trace of a run is written in. -/
def traceLines (outcome : Outcome Backend) : List String := outcome.session.trace.map Event.text

/-- What the program does when it runs a script is told by the run: its trace is
written, and behind it the fault that ends it. -/
theorem runText_eq (host : Host) (file : String) (settings : Settings) (script : String) :
    runText host file settings script =
      { exitCode := exitCodeOf (runOf host settings script).ending
        stdout := (runOf host settings script).session.lines
        stderr := traceLines (runOf host settings script) ++
          faultLines file (runOf host settings script).ending
        log := (runOf host settings script).session.solver.library.log } := by
  change (match (runOf host settings script).ending with | .ok _ => _ | .error fault => _) = _
  cases (runOf host settings script).ending with
  | ok ending =>
    rw [faultLines, List.append_nil]
    rfl
  | error fault => rfl

/-! ## Stages -/

variable {host : Host} {words : List String}

/-- The arguments ask for a job, and nobody wants help or the version. -/
structure Asks (words : List String) (job : Job) : Prop where
  help : (Arguments.parse words).help = false
  version : (Arguments.parse words).version = false
  job : (Arguments.parse words).job = .ok job

/-- The settings of a job load. -/
def Loads (host : Host) (job : Job) (loaded : Except SettingsFault Settings) : Prop :=
  Settings.load host.files host.environment job.configFile "" job.overrides = loaded

/-- **The program gets as far as to run a script**: it is asked for a job, the
settings load and are valid, and the script is read. -/
structure Reaches (host : Host) (words : List String) (job : Job) (settings : Settings)
    (script : String) : Prop where
  asks : Asks words job
  loads : Loads host job (.ok settings)
  valid : settings.isValid = true
  reads : readScript host job.file = .ok script

/-- What can come of the program. -/
inductive Yields (host : Host) (words : List String) : Effects → Prop
  /-- Somebody wants help. -/
  | helped : (Arguments.parse words).help = true →
      Yields host words { exitCode := 0, stdout := [helpText] }
  /-- Somebody wants the version. -/
  | versioned : (Arguments.parse words).help = false → (Arguments.parse words).version = true →
      Yields host words { exitCode := 0, stdout := [versionText] }
  /-- The arguments ask for nothing that can be done. -/
  | misused {fault : UsageFault} : (Arguments.parse words).help = false →
      (Arguments.parse words).version = false → (Arguments.parse words).job = .error fault →
      Yields host words { exitCode := 2, stderr := [fault.diagnostic.message] }
  /-- The settings do not load. -/
  | unsettled {job : Job} {fault : SettingsFault} : Asks words job →
      Loads host job (.error fault) →
      Yields host words { exitCode := 1, stderr := [errorLine fault.message] }
  /-- The settings cannot be used. -/
  | invalid {job : Job} {settings : Settings} : Asks words job → Loads host job (.ok settings) →
      settings.isValid = false →
      Yields host words
        { exitCode := 1
          stderr := warningLines settings ++
            settings.errors.map fun remark => "error: " ++ remark.message }
  /-- The script cannot be read. -/
  | unreadable {job : Job} {settings : Settings} {fault : ReadFault} : Asks words job →
      Loads host job (.ok settings) → settings.isValid = true →
      readScript host job.file = .error fault →
      Yields host words
        { exitCode := 1, stderr := warningLines settings ++ [errorLine fault.message] }
  /-- The script is run. -/
  | ran {job : Job} {settings : Settings} {script : String} :
      Reaches host words job settings script →
      Yields host words
        { exitCode := exitCodeOf (runOf host settings script).ending
          stdout := (runOf host settings script).session.lines
          stderr := warningLines settings ++ traceLines (runOf host settings script) ++
            faultLines job.file (runOf host settings script).ending
          log := (runOf host settings script).session.solver.library.log }

/-- **What comes of the program is one of the things that can.** -/
theorem yields_run (host : Host) (words : List String) : Yields host words (run host words) := by
  rw [run]
  split
  · exact .helped ‹_›
  rename_i hhelp
  rw [Bool.not_eq_true] at hhelp
  split
  · exact .versioned hhelp ‹_›
  rename_i hversion
  rw [Bool.not_eq_true] at hversion
  cases hjob : (Arguments.parse words).job with
  | error fault => exact .misused hhelp hversion hjob
  | ok job =>
    have hasks : Asks words job := ⟨hhelp, hversion, hjob⟩
    dsimp only
    rw [runJob]
    split
    · exact .unsettled hasks ‹_›
    · rename_i settings hloads
      rw [runWith]
      dsimp only
      split
      · rename_i hvalid
        cases hreads : readScript host job.file with
        | error fault => exact .unreadable hasks hloads hvalid hreads
        | ok script =>
          dsimp only
          rw [runText_eq, ← List.append_assoc]
          exact .ran ⟨hasks, hloads, hvalid, hreads⟩
      · rename_i hvalid
        rw [Bool.not_eq_true] at hvalid
        exact .invalid hasks hloads hvalid

/-- **No two things can come of the program.** -/
theorem run_of_yields {effects : Effects} (h : Yields host words effects) :
    run host words = effects := by
  cases h with
  | helped hhelp => simp only [run, hhelp, if_true]
  | versioned hhelp hversion =>
    simp only [run, hhelp, hversion, Bool.false_eq_true, if_false, if_true]
  | misused hhelp hversion hjob =>
    simp only [run, hhelp, hversion, hjob, Bool.false_eq_true, if_false]
  | unsettled hasks hloads =>
    simp only [run, hasks.help, hasks.version, hasks.job, Bool.false_eq_true, if_false, runJob,
      show Settings.load _ _ _ _ _ = _ from hloads]
  | invalid hasks hloads hvalid =>
    simp only [run, hasks.help, hasks.version, hasks.job, Bool.false_eq_true, if_false, runJob,
      show Settings.load _ _ _ _ _ = _ from hloads, runWith, hvalid]
    rfl
  | unreadable hasks hloads hvalid hreads =>
    simp only [run, hasks.help, hasks.version, hasks.job, Bool.false_eq_true, if_false, runJob,
      show Settings.load _ _ _ _ _ = _ from hloads, runWith, hvalid, if_true, hreads]
    rfl
  | ran h =>
    simp only [run, h.asks.help, h.asks.version, h.asks.job, Bool.false_eq_true, if_false, runJob,
      show Settings.load _ _ _ _ _ = _ from h.loads, runWith, h.valid, if_true, h.reads,
      runText_eq, List.append_assoc]
    rfl

end Program

end SatScript
