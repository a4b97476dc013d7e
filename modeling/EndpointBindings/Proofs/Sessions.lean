import EndpointBindings.Program
import EndpointBindings.Proofs.ExceptResults

/-!
What a command line comes to before anything of it is written: a reason to stop, or a run with the
console that tells of it. The program only writes that down, and it ends well only if the run does.
-/

namespace EndpointBindings.Program

open CommandLine

variable {w : World} {words rest : List String} {options : RootOptions} {topic : Topic}
  {console : Console} {command : Command} {remarks : List Remark} {e : RunError} {r : Run}

/-- What a command line comes to. Settings that cannot be read are told on the console that nobody
has chosen. -/
def session (w : World) (words : List String) : Except Stop (Console × Run) := do
  let (options, topic, rest) ← readRoot words
  match consoleFor w options with
  | .error e => return (initialConsole w, Run.failed w [] e)
  | .ok console =>
    let command ← Command.read topic rest
    return (console, perform w (console.format == .json) command)

/-- What a caller sees of a session when it has ended. -/
def finish (w : World) : Except Stop (Console × Run) → Finish
  | .error stop => ofStop w stop
  | .ok (console, r) => ofRun w console r

theorem run_eq_finish : run w words = finish w (session w words) := by
  rw [run, session]
  cases readRoot words with
  | error stop => rfl
  | ok read =>
      dsimp only [bind, Except.bind]
      cases consoleFor w read.1 with
      | error e => rfl
      | ok console =>
          dsimp only
          cases Command.read read.2.1 read.2.2 <;> rfl

/-- A command that is read is performed on the console that its options choose. -/
theorem session_eq_ok (hroot : readRoot words = .ok (options, topic, rest))
    (hconsole : consoleFor w options = .ok console)
    (hcommand : Command.read topic rest = .ok command) :
    session w words = .ok (console, perform w (console.format == .json) command) := by
  rw [session, hroot]
  dsimp only [bind, Except.bind]
  rw [hconsole]
  dsimp only
  rw [hcommand]
  rfl

theorem session_eq_failed (hroot : readRoot words = .ok (options, topic, rest))
    (hconsole : consoleFor w options = .error e) :
    session w words = .ok (initialConsole w, Run.failed w [] e) := by
  rw [session, hroot]
  dsimp only [bind, Except.bind]
  rw [hconsole]
  rfl

theorem ofRun_of_no_crash (h : r.crash = none) :
    ofRun w console r =
      ⟨.exit r.exitCode, r.output console, r.diagnostics console, r.files⟩ := by
  rw [ofRun, Run.log, h]

/-- No kind of error has the exit code of success. -/
theorem exitCode_ne_zero (kind : ErrorKind) : kind.exitCode ≠ 0 := by
  cases kind <;> decide

theorem exitCode_failed_ne_zero : (Run.failed w remarks e).exitCode ≠ 0 := by
  cases e with
  | noSpecDirectory | noOutDirectory | notVerb token | unsupportedVerb endpoint verb =>
      exact exitCode_ne_zero .usage
  | config fault => exact exitCode_ne_zero .config
  | spec error => exact exitCode_ne_zero error.kind
  | failedFiles errors => exact exitCode_ne_zero .compile
  | defect d => exact Nat.one_ne_zero

theorem exitCode_log : (r.log w).1.exitCode = r.exitCode := by
  rw [Run.log]
  repeat' split
  all_goals rfl

theorem exitCode_eq_of_ending {code : Nat} (h : (ofRun w console r).ending = .exit code) :
    r.exitCode = code := by
  rw [ofRun] at h
  dsimp only at h
  split at h
  · exact exitCode_log.symm.trans (Ending.exit.inj h)
  · simp at h

/-- Where a command that is read ends well, its console was chosen and its run ended well. -/
theorem exists_session_of_ending (hroot : readRoot words = .ok (options, topic, rest))
    (hcommand : Command.read topic rest = .ok command)
    (hexit : (run w words).ending = .exit 0) :
    ∃ console, consoleFor w options = .ok console ∧
      run w words = ofRun w console (perform w (console.format == .json) command) ∧
      (perform w (console.format == .json) command).exitCode = 0 := by
  rw [run_eq_finish] at hexit ⊢
  cases hconsole : consoleFor w options with
  | error e =>
      rw [session_eq_failed hroot hconsole] at hexit
      exact absurd (exitCode_eq_of_ending hexit) exitCode_failed_ne_zero
  | ok console =>
      rw [session_eq_ok hroot hconsole hcommand] at hexit ⊢
      exact ⟨console, rfl, rfl, exitCode_eq_of_ending hexit⟩

end EndpointBindings.Program
