import Std.Time.DateTime.Timestamp
import Prebuilt.Cli.Run
import Prebuilt.Log.Clock
import Prebuilt.Shell.Host

/-!
# The program

The outer layer: it reads the working directory into a file tree, runs
the command line on it, writes back what changed, and hands over the
output and the exit code. The tools of a build are scripts inside that
directory; every file there may be executed.

Only names that are text are seen. The time of day is that of UTC.
-/

namespace Prebuilt.Program

/-- Where the working directory stands in the tree. -/
def home : Location := ["work"]

/-- The variables that a run looks at. -/
def variableNames : List String :=
  ["PATH", "RVBLOB_CC", "RVBLOB_AR", "RVBLOB_LOG", "OUT_DIR", "NO_COLOR", "TERM"]

def environment : IO Environment :=
  variableNames.foldlM (fun env name => do
    match ← IO.getEnv name with
    | some value => return env.set name value
    | none => return env) []

/-! ## Reading the directory -/

/-- One entry of a directory, and everything below it. -/
partial def load (t : FileTree) (dir : Location) (entry : IO.FS.DirEntry) : IO FileTree := do
  let here := dir ++ [Bytes.ofString entry.fileName]
  if ← entry.path.isDir then
    (← entry.path.readDir).foldlM (fun t e => load t here e) (t.put here .directory)
  else
    let content ← IO.FS.readBinFile entry.path
    return t.put here (.file content.toList true)

def loadAll : IO FileTree := do
  (← (← IO.currentDir).readDir).foldlM (fun t e => load t home e) (Shell.system home)

/-! ## Writing it back -/

/-- The name of a location as it is seen from the working directory. -/
def nameOf (l : Location) : Option String :=
  if home.isPrefixOf l ∧ l ≠ home then
    String.fromUTF8? ⟨(List.intercalate "/" (l.drop home.length)).toArray⟩
  else none

/-- Longer locations last, so that directories come before what they hold. -/
def inOrder (entries : List (Location × Entry)) : List (Location × Entry) :=
  entries.mergeSort fun a b => a.1.length ≤ b.1.length

/-- Make the directory what the tree says it is. -/
def store (before after : FileTree) : IO Unit := do
  for (l, e) in (inOrder before.entries).reverse do
    if (after.lookup l).map Entry.isDirectory ≠ some e.isDirectory then
      match nameOf l, e with
      | some name, .directory => IO.FS.removeDir name
      | some name, .file .. => IO.FS.removeFile name
      | none, _ => pure ()
  for (l, e) in inOrder after.entries do
    if before.lookup l ≠ some e then
      match nameOf l, e with
      | some name, .directory => IO.FS.createDirAll name
      | some name, .file content _ => IO.FS.writeBinFile name ⟨content.toArray⟩
      | none, _ => pure ()

/-! ## One run -/

def writeAll (stream : IO.FS.Stream) (b : Bytes) : IO Unit := do
  stream.write ⟨b.toArray⟩
  stream.flush

def machine : IO Cli.Machine := do
  let env ← environment
  let millis : Int := (← Std.Time.Timestamp.now).toMillisecondsSinceUnixEpoch.val
  let interactive ← (← IO.getStderr).isTty
  return {
    surroundings := ⟨env, interactive, ⟨Log.clockReading millis.toNat, fun _ _ => "rvblob"⟩⟩
    tools := Shell.tools env
    millis := millis }

def run (args : List Bytes) : IO UInt32 := do
  let before ← loadAll
  let result := Cli.run (← machine) before args
  writeAll (← IO.getStdout) result.stdout
  writeAll (← IO.getStderr) result.stderr
  store before result.files
  return (result.exitCode % 256).toNat.toUInt32

end Prebuilt.Program

def main (args : List String) : IO UInt32 :=
  Prebuilt.Program.run (args.map Prebuilt.Bytes.ofString)
