import SatScript.Proofs.Program.Stages
import SatScript.Proofs.Session.Executed
/-!
# SatScript — exit codes and standard output

Unless help or the version is wanted, the exit code tells how far the program
got: 2 for arguments that ask for nothing that can be done, 0 for a script that
was run to its end, and 1 for whatever failed in between. Standard output has
the verdicts of the checks that were executed and no other line, whether or not
the script fails behind them (`run_exitCode`).
-/

namespace SatScript

/-- **Arguments ask for a job** unless one of them is unknown or there is not exactly
one file. -/
theorem Arguments.exists_job_error_iff (arguments : Arguments) :
    (∃ fault, arguments.job = .error fault) ↔
      arguments.unknown ≠ [] ∨ arguments.files.length ≠ 1 := by
  unfold job
  split
  · rename_i hunknown
    exact ⟨fun _ => .inl hunknown, fun _ => ⟨_, rfl⟩⟩
  · rename_i hunknown
    split
    · rename_i file hfiles
      simp [hfiles, not_not.1 hunknown]
    · rename_i hfiles
      refine ⟨fun _ => .inr fun hlength => ?_, fun _ => ⟨_, rfl⟩⟩
      obtain ⟨file, hfile⟩ := List.length_eq_one_iff.1 hlength
      exact hfiles file hfile

namespace Program

variable {host : Host} {words : List String}

/-! ## Exit codes -/

/-- A run is completed just if its exit code is zero. -/
theorem exitCodeOf_eq_zero_iff {ending : Except Fault Ending} :
    exitCodeOf ending = 0 ↔ ∃ how, ending = .ok how := by
  cases ending <;> simp [exitCodeOf]

theorem exitCodeOf_le_one (ending : Except Fault Ending) : exitCodeOf ending ≤ 1 := by
  cases ending <;> simp [exitCodeOf]

/-- No exit code is greater than two. -/
theorem exitCode_le_two (host : Host) (words : List String) : (run host words).exitCode ≤ 2 := by
  have h := yields_run host words
  generalize run host words = effects at h ⊢
  cases h with
  | ran => exact Nat.le_succ_of_le (exitCodeOf_le_one _)
  | _ => simp

variable (hhelp : (Arguments.parse words).help = false)
  (hversion : (Arguments.parse words).version = false)

include hhelp hversion

/-- **The exit code is 2 just if the arguments ask for no job.** -/
theorem exitCode_eq_two_iff :
    (run host words).exitCode = 2 ↔ ∃ fault, (Arguments.parse words).job = .error fault := by
  constructor
  · intro htwo
    have h := yields_run host words
    generalize run host words = effects at h htwo
    cases h with
    | misused _ _ hjob => exact ⟨_, hjob⟩
    | @ran _ settings script =>
      have hle := exitCodeOf_le_one (runOf host settings script).ending
      change exitCodeOf _ = 2 at htwo
      omega
    | _ => cases htwo
  · rintro ⟨fault, hjob⟩
    rw [run_of_yields (.misused hhelp hversion hjob)]

/-- **It is 0 just if a script is run to its end.** -/
theorem exitCode_eq_zero_iff :
    (run host words).exitCode = 0 ↔ ∃ job settings script ending,
      Reaches host words job settings script ∧
        (runOf host settings script).ending = .ok ending := by
  constructor
  · intro hzero
    have h := yields_run host words
    generalize run host words = effects at h hzero
    cases h with
    | helped h => rw [hhelp] at h; cases h
    | versioned _ h => rw [hversion] at h; cases h
    | @ran job settings script h =>
      obtain ⟨ending, hending⟩ := exitCodeOf_eq_zero_iff.1 hzero
      exact ⟨job, settings, script, ending, h, hending⟩
    | _ => cases hzero
  · rintro ⟨job, settings, script, ending, h, hending⟩
    rw [run_of_yields (.ran h), hending]
    rfl

/-! ## Standard output -/

/-- **A program that runs no script prints nothing.** -/
theorem stdout_of_not_reaches
    (h : ∀ job settings script, ¬ Reaches host words job settings script) :
    (run host words).stdout = [] := by
  have hyields := yields_run host words
  generalize run host words = effects at hyields ⊢
  cases hyields with
  | helped h => rw [hhelp] at h; cases h
  | versioned _ h => rw [hversion] at h; cases h
  | ran hreaches => exact absurd hreaches (h _ _ _)
  | _ => rfl

omit hhelp hversion

/-- The forms of a script that its run executes. -/
def executedIn (host : Host) (settings : Settings) (script : String) : List Form :=
  (forms (Text.withoutComments script.toList)).take (runOf host settings script).forms

/-- A run prints the first answers of the library, one for each check. -/
theorem lines_runOf (host : Host) (settings : Settings) (script : String) :
    (runOf host settings script).session.lines =
      Session.printed (host.answers.first Verdict.unknown.text
        ((executedIn host settings script).countP Form.isCheck)) := by
  have hlines := Session.lines_run (optionsOf settings) (backendOf host settings) script.toList
  have hanswers : (backendOf host settings).library.answers = host.answers := by
    rw [backendOf, Backend.start]
    dsimp only
    split <;> rfl
  rw [hanswers] at hlines
  exact hlines

/-- **What the exit code and the standard output tell**, unless help or the version
is wanted. The exit code is 2 just if an option is unknown or there is not exactly
one file; then nothing is printed, and nothing is asked of the library. It is 0
just if the settings load and are valid, the script is read and its run ends
without fault. It is 1 otherwise. What is printed are the verdicts of the checks
among the forms that are executed, in order, whether the run ends with a fault
behind them or not; all forms are executed if it ends with the text. Nothing is
printed if no script is run. -/
theorem run_exitCode (host : Host) (words : List String)
    (hhelp : (Arguments.parse words).help = false)
    (hversion : (Arguments.parse words).version = false) :
    let arguments := Arguments.parse words
    let effects := run host words
    (effects.exitCode = 2 ↔ arguments.unknown ≠ [] ∨ arguments.files.length ≠ 1) ∧
    (effects.exitCode = 2 → effects.stdout = [] ∧ effects.log = []) ∧
    (effects.exitCode = 0 ↔ ∃ job settings script ending,
      Reaches host words job settings script ∧ (runOf host settings script).ending = .ok ending) ∧
    (effects.exitCode ≠ 2 → effects.exitCode ≠ 0 → effects.exitCode = 1) ∧
    (∀ job settings script, Reaches host words job settings script →
      let outcome := runOf host settings script
      let executed := executedIn host settings script
      (∃ result, Session.Executes (optionsOf settings) { solver := backendOf host settings }
          executed outcome.session result ∧ Session.EndsBehind result outcome.ending) ∧
        (outcome.ending = .ok .endOfInput →
          executed = forms (Text.withoutComments script.toList)) ∧
        effects.stdout = Session.printed
          (host.answers.first Verdict.unknown.text (executed.countP Form.isCheck))) ∧
    ((∀ job settings script, ¬ Reaches host words job settings script) → effects.stdout = []) := by
  intro arguments effects
  have htwo := @exitCode_eq_two_iff host words hhelp hversion
  refine ⟨htwo.trans arguments.exists_job_error_iff, fun hcode => ?_,
    exitCode_eq_zero_iff hhelp hversion, fun hcode hzero => ?_,
    fun job settings script h => ?_, stdout_of_not_reaches hhelp hversion⟩
  · obtain ⟨fault, hjob⟩ := htwo.1 hcode
    rw [show effects = _ from run_of_yields (.misused hhelp hversion hjob)]
    exact ⟨rfl, rfl⟩
  · have hle : effects.exitCode ≤ 2 := exitCode_le_two host words
    omega
  · rw [show effects = _ from run_of_yields (.ran h)]
    obtain ⟨hexecutes, hall⟩ :=
      Session.executes_run (optionsOf settings) (backendOf host settings) script.toList
    exact ⟨hexecutes, hall, lines_runOf host settings script⟩

/-- A script from standard input fails between its checks: two of the three were
executed, and their verdicts are printed. -/
theorem run_exitCode_fault :
    let script := "(check-sat)(check-sat)(foo)(check-sat)"
    let host : Host :=
      { files := fun _ => .missing
        stdin := script
        environment := Table.empty
        answers := ⟨["unsat", "timeout", "sat"]⟩ }
    let job : Job := { file := "-", configFile := none, overrides := { strictLists := some true } }
    (Arguments.parse ["--strict", "-"]).help = false ∧
      (Arguments.parse ["--strict", "-"]).version = false ∧
      Reaches host ["--strict", "-"] job { strictLists := true } script ∧
      (run host ["--strict", "-"]).exitCode = 1 ∧
      (run host ["--strict", "-"]).stdout = ["unsat", "unknown"] := by
  intro script host job
  have hreaches : Reaches host ["--strict", "-"] job { strictLists := true } script :=
    ⟨⟨rfl, rfl, rfl⟩, rfl, rfl, rfl⟩
  obtain ⟨htwo, -, -, hone, hstdout, -⟩ := run_exitCode host ["--strict", "-"] rfl rfl
  have hchecks : (executedIn host { strictLists := true } script).countP Form.isCheck = 2 := by
    decide +kernel
  have hending : exitCodeOf (runOf host { strictLists := true } script).ending = 1 := by
    decide +kernel
  refine ⟨rfl, rfl, hreaches, hone ?_ ?_, ?_⟩
  · rw [Ne, htwo]
    decide
  · rw [Ne, run_of_yields (.ran hreaches)]
    exact fun h => absurd (h.symm.trans hending) (by decide)
  · rw [(hstdout job _ script hreaches).2.2, hchecks]
    decide

end Program

end SatScript
