import Pebble.Command.Arguments

/-!
Transcripts: what a run of the command shows, and what it leaves behind.
-/

namespace Pebble

/-- How a command ends: with an exit code, or by a failure that is not a report on the source. -/
inductive Transcript.Ending where
  | exit (code : Nat)
  | abort (failure : Failure)
  deriving DecidableEq, Repr

structure Transcript where
  ending : Transcript.Ending
  printed : Text
  errors : Text
  files : Directory

namespace Arguments.Command

/-- Runs a command. A report on the source is one line of the error output, after the log if that
is shown. `program` is the name under which the command makes its entries of the log. -/
def run (command : Command) (program : Text) (files : Directory) : Transcript :=
  let outcome := command.task.run files
  let log := if command.verbose then outcome.log.flatMap (LogEntry.line program) else []
  match outcome.failure with
  | none => ⟨.exit 0, outcome.printed, log, outcome.files⟩
  | some (.report report) =>
    let line := "error: ".toList ++ report.summary ++ ['\n']
    ⟨.exit 1, outcome.printed, log ++ line, outcome.files⟩
  | some failure => ⟨.abort failure, outcome.printed, log, outcome.files⟩

end Arguments.Command

end Pebble
