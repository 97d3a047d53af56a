import Prebuilt.Archive

/-!
# How a build fails

A build goes through its states in order and stops at the first failure.
The failure keeps its cause, the state reached before it, and the exit
code to report: that of the tool that failed, and 1 for everything else.
-/

namespace Prebuilt.Build

inductive State where
  | start
  | cleaned
  | compiled
  | archived
  | done
  | failed
deriving Repr, DecidableEq

def State.name : State → Bytes
  | .start => "start"
  | .cleaned => "cleaned"
  | .compiled => "compiled"
  | .archived => "archived"
  | .done => "done"
  | .failed => "failed"

inductive ErrorKind where
  | toolInvocation
  | missingInput
  | permission
deriving Repr, DecidableEq

def ErrorKind.name : ErrorKind → Bytes
  | .toolInvocation => "tool invocation failure"
  | .missingInput => "missing input file"
  | .permission => "filesystem permission failure"

/-- The tools that a build runs. -/
inductive Role where
  | compiler
  | archiver
deriving Repr, DecidableEq

def Role.name : Role → Bytes
  | .compiler => "compiler"
  | .archiver => "archiver"

/-- Why a step failed. -/
inductive Cause where
  | cannotCreate (dir : Path) (fault : Fault)
  | notADirectory (dir : Path)
  | cannotList (report : Bytes)
  | cannotRemove (path : Path) (fault : Fault)
  | sourceMissing (path : Path)
  | cannotRemoveOld (path : Path) (fault : Fault)
  /-- The tool failed; the directory is given if it cannot be written. -/
  | toolFailed (role : Role) (exitCode : Int) (unwritable : Option Path)
  | objectNotMade (path : Path)
  | objectMissing (path : Path)
  | archiveNotMade (path : Path)
  | objectVanished (path : Path)
deriving Repr, DecidableEq

namespace Cause

def kind : Cause → ErrorKind
  | .cannotCreate .. => .permission
  | .notADirectory _ => .permission
  | .cannotList _ => .permission
  | .cannotRemove .. => .permission
  | .sourceMissing _ => .missingInput
  | .cannotRemoveOld .. => .permission
  | .toolFailed _ _ none => .toolInvocation
  | .toolFailed _ _ (some _) => .permission
  | .objectNotMade _ => .missingInput
  | .objectMissing _ => .missingInput
  | .archiveNotMade _ => .toolInvocation
  | .objectVanished _ => .missingInput

/-- How a tool failed. -/
def toolReport (role : Role) (exitCode : Int) : Bytes :=
  if exitCode = -1 then "could not start the " ++ role.name
  else role.name ++ " failed with exit code " ++ Bytes.ofInt exitCode

def message : Cause → Bytes
  | .cannotCreate dir fault => "cannot create " ++ dir ++ ": " ++ fault.message
  | .notADirectory dir => dir ++ " exists and is not a directory"
  | .cannotList report => report
  | .cannotRemove path fault => "cannot remove " ++ path ++ ": " ++ fault.message
  | .sourceMissing path => "source not found: " ++ path
  | .cannotRemoveOld path fault => "cannot remove old " ++ path ++ ": " ++ fault.message
  | .toolFailed role exitCode none => toolReport role exitCode
  | .toolFailed role exitCode (some dir) =>
      toolReport role exitCode ++ " (" ++ dir ++ " is not writable)"
  | .objectNotMade path => "compiler succeeded but did not create " ++ path
  | .objectMissing path => "object not found: " ++ path
  | .archiveNotMade path => "archiver succeeded but did not create " ++ path
  | .objectVanished path => "object vanished before cleanup: " ++ path

/-- The exit code to report, always positive. -/
def exitCode : Cause → Int
  | .toolFailed _ code _ => if 0 < code then code else 1
  | _ => 1

end Cause

structure Error where
  cause : Cause
  /-- The last state before the failing step. -/
  lastState : State
deriving Repr, DecidableEq

namespace Error

def kind (e : Error) : ErrorKind := e.cause.kind

def message (e : Error) : Bytes := e.cause.message

def exitCode (e : Error) : Int := e.cause.exitCode

end Error

end Prebuilt.Build
