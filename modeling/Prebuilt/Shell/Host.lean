import Prebuilt.Shell.Run
import Prebuilt.Tool

/-!
# A host for tools

The file tree of a bare system, and the tools that a shell on it gives:
every command line is a script of its own, with nothing to read, its
errors lost and its output kept.
-/

namespace Prebuilt.Shell

/-- The programs in the directories of the utilities. -/
def utilityNames : List Bytes :=
  ["sh", "true", "false", "mkdir", "rm", "cat", "cp", "mv", "touch", "chmod"]

/-- The tree of a system with its utilities and nothing else, seen from
a working directory that exists. -/
def system (workingDirectory : Location) : FileTree :=
  let paths := utilityDirectories.flatMap fun dir => utilityNames.map fun name => dir ++ [name]
  let t := paths.foldl (fun t l => t.put l (.file [] true)) (FileTree.empty [])
  let t := t.put ["dev", "null"] (.file [] false)
  let dirs : List Location := [["bin"], ["usr"], ["usr", "bin"], ["dev"]]
  let above := (List.range workingDirectory.length).map fun n => workingDirectory.take (n + 1)
  let t := (dirs ++ above).foldl (fun t l => t.put l .directory) t
  { t with workingDirectory := workingDirectory }

/-- A shell before its first command. -/
def State.initial (env : Environment) (files : FileTree) : State :=
  State.withEnvironment
    { files := files
      output := []
      streams := [.null, .output]
      descriptors := [(0, 0), (1, 1), (2, 0)]
      bindings := []
      name := "sh"
      arguments := []
      status := 0
      process := 100 }
    env

/-- More steps than any script of a build takes. -/
def stepLimit : Nat := 1000000

/-- The tools that a shell in the environment gives. -/
def tools (env : Environment) : Tools := fun line files =>
  let (flow, s) := runText stepLimit (State.initial env files) line
  { status :=
      match flow with
      | .killed signal => signal
      | _ => 256 * s.status
    output := s.output
    files := s.files }

end Prebuilt.Shell
