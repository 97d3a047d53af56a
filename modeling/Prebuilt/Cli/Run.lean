import Prebuilt.Cli.Execute
import Prebuilt.Console

/-!
# One run of the program

A run sets up the logger as its arguments ask, executes the command
line, and delivers its events. A log file is made before anything else
happens and receives its lines when the command is done.
-/

namespace Prebuilt.Cli

/-- The machine a run takes place on. -/
structure Machine where
  surroundings : Log.Surroundings
  tools : Tools
  /-- The time of the records, in milliseconds. -/
  millis : Int

/-- What a run of the program leaves. -/
structure Result where
  exitCode : Int
  /-- Commands were echoed. -/
  echo : Bool
  stdout : Bytes
  stderr : Bytes
  files : FileTree

def run (machine : Machine) (files : FileTree) (args : List Bytes) : Result :=
  let env := machine.surroundings.environment
  let layout := machine.surroundings.layout
  let (settings, warnings) := Log.settingsFor env args
  let (logger, out) :=
    Log.Logger.configure machine.surroundings settings ⟨files, warnings, []⟩
  let (echo, asked) := scan args
  let x := execute env machine.tools out.files asked
  let console := Console.deliverAll layout machine.millis echo
    ⟨logger, { out with files := x.files }, []⟩ x.events
  let left := console.logger.close console.outlets
  { exitCode := x.exitCode
    echo := echo
    stdout := console.stdout
    stderr := left.stderr
    files := left.files }

end Prebuilt.Cli
