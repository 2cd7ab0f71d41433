import Pebble.Command.Transcript

/-!
The command line. It hands the arguments and the file they name to `Command.run`, and writes and
prints what comes of it.
-/

namespace Pebble

def usage : String :=
  "usage: pebble [-h] [-s] [--tokens] [--assoc right|left] [-o OUTFILE] [-p] [--verbose] source"

/-- The places that a name passes and the one that it leads to. -/
def placesOf (home : Location) (name : Text) : List Location :=
  (Path.parts name).foldl (fun places part => (places.headD home).go part :: places)
    [if (Path.ofText name).absolute then [] else home]

/-- The file that a task reads, if there is one of that name. The folders on the way to it and to
the file that is written are taken to exist; if they do not, writing fails. -/
def directoryFor (task : Task) : IO Directory := do
  let home := (Path.parts (← IO.currentDir).toString.toList).foldl Location.go []
  let folders := (task.out.map fun name => (placesOf home name).tail).getD []
  if task.inline then
    return .ofFiles home folders []
  let places := placesOf home task.source
  try
    let contents ← IO.FS.readBinFile (String.ofList task.source)
    return .ofFiles home (folders ++ places.tail) [(places.headD home, contents)]
  catch _ =>
    return .ofFiles home folders []

def abort (failure : Failure) : IO UInt32 := do
  IO.eprintln (String.ofList (failure.message?.getD "the source is not valid UTF-8".toList))
  return 1

def present (task : Task) (before : Directory) (transcript : Transcript) : IO UInt32 := do
  for (place, contents) in transcript.files.changes before do
    let name := '/' :: (Location.nameIn? [] place).getD []
    try
      IO.FS.writeBinFile (String.ofList name) contents
    catch _ =>
      return ← abort (.file .missing (task.out.getD name))
  IO.print (String.ofList transcript.printed)
  IO.eprint (String.ofList transcript.errors)
  match transcript.ending with
  | .exit code => return code.toUInt32
  | .abort failure => abort failure

end Pebble

open Pebble in
def main (arguments : List String) : IO UInt32 := do
  match Arguments.parse (arguments.map String.toList) with
  | .error .help =>
    IO.println usage
    return 0
  | .error (.usage error) =>
    IO.eprintln usage
    IO.eprintln (String.ofList ("pebble: error: ".toList ++ error.message))
    return 2
  | .ok command =>
    let files ← directoryFor command.task
    present command.task files (command.run "pebble.pebble_cli".toList files)
