import Prebuilt.Environment
import Prebuilt.Event
import Prebuilt.FileTree.Edit

/-!
# Staging linker scripts

The linker scripts that belong to an archive are copied next to the
output of the build that uses it, in order, until one cannot be copied.
That build is told about them by directives, one to a line: where to
search for the scripts, and which files to watch.
-/

namespace Prebuilt.Stage

inductive StageError where
  | noDestination
  | destinationMissing (dir : Path)
  | scriptMissing (script : Path)
  | cannotCopy (script target : Path) (fault : Fault)
deriving Repr, DecidableEq

def StageError.message : StageError → Bytes
  | .noDestination => "no staging directory: pass --out-dir=<dir> or set OUT_DIR"
  | .destinationMissing dir => "staging directory does not exist: " ++ dir
  | .scriptMissing script => "linker script not found: " ++ script
  | .cannotCopy script target fault =>
      "cannot copy " ++ script ++ " to " ++ target ++ ": " ++ fault.message

/-- The directory to copy into: the one given, or else that of the
environment. -/
def destination (env : Environment) (given : Path) : Except StageError Path :=
  if given ≠ [] then .ok given
  else if env.valueOf "OUT_DIR" ≠ [] then .ok (env.valueOf "OUT_DIR")
  else .error .noDestination

/-- What staging gives: the paths of the copies, and the tree with all
copies that were made. -/
structure Outcome where
  staged : Except StageError (List Path)
  files : FileTree
  events : List Event

def target (dir script : Path) : Path := dir.join script.fileName

/-- Copy the scripts one after the other. -/
def copyAll (dir : Path) (files : FileTree) : List Path → Outcome
  | [] => ⟨.ok [], files, []⟩
  | script :: rest =>
      if !files.isRegularFile script then ⟨.error (.scriptMissing script), files, []⟩
      else
        match files.copy script (target dir script) with
        | .error fault => ⟨.error (.cannotCopy script (target dir script) fault), files, []⟩
        | .ok files =>
            let more := copyAll dir files rest
            { staged := more.staged.map (target dir script :: ·)
              files := more.files
              events :=
                .log Log.Level.debug "stage" (script ++ " -> " ++ target dir script)
                  :: more.events }

/-- Copy the scripts into a directory that exists. -/
def stage (files : FileTree) (scripts : List Path) (dir : Path) : Outcome :=
  if files.isDirectory dir then copyAll dir files scripts
  else ⟨.error (.destinationMissing dir), files, []⟩

/-! ## Directives -/

def searchDirective (dir : Path) : Bytes :=
  "cargo:rustc-link-search=" ++ dir.withForwardSlashes ++ "\n"

def watchDirective (script : Path) : Bytes := "cargo:rerun-if-changed=" ++ script ++ "\n"

def directives (dir : Path) (scripts : List Path) : Bytes :=
  searchDirective dir ++ scripts.flatMap watchDirective

end Prebuilt.Stage
