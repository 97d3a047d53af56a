import Prebuilt.Event
import Prebuilt.FileTree.Basic

/-!
# Running tools

A tool is whatever answers a command line: given the file tree it starts
in, it ends with a wait status, output, and a changed tree. The library
assumes nothing else about tools, so what it states about builds holds
whatever the tools do. A tool cannot move its caller to another working
directory.
-/

namespace Prebuilt

/-- What one run of a tool leaves. -/
structure ToolRun where
  /-- The wait status, as the system reports it. -/
  status : Int
  output : Bytes
  files : FileTree

/-- The tools at hand: what each command line does to a tree. -/
abbrev Tools := Bytes → FileTree → ToolRun

/-! ## Wait statuses -/

/-- How a run ended. -/
inductive Ending where
  | notStarted
  | exited (code : Int)
  | killed (signal : Int)
  | other (status : Int)
deriving Repr, DecidableEq

/-- A wait status holds the signal in its seven low bits and the exit
code in the byte above the lowest. -/
def Ending.ofStatus (status : Int) : Ending :=
  if status = -1 then .notStarted
  else if status % 128 = 0 then .exited (status / 256 % 256)
  else if status % 128 < 127 then .killed (status % 128)
  else .other status

/-- The exit code that stands for an ending. -/
def Ending.exitCode : Ending → Int
  | .notStarted => -1
  | .exited code => code
  | .killed signal => 128 + signal
  | .other status => status

def exitCodeOf (status : Int) : Int := (Ending.ofStatus status).exitCode

/-! ## Runs with events -/

/-- One run of a tool as its caller sees it. -/
structure ToolResult where
  exitCode : Int
  output : Bytes
  files : FileTree
  events : List Event

namespace Tools

def start (tools : Tools) (line : Bytes) (files : FileTree) : ToolRun :=
  let run := tools line files
  { run with files := { run.files with workingDirectory := files.workingDirectory } }

/-- Run a command; its output is lost. -/
def run (tools : Tools) (line : Bytes) (files : FileTree) : ToolResult :=
  let done := tools.start line files
  let code := exitCodeOf done.status
  { exitCode := code
    output := []
    files := done.files
    events := [.command line, .log Log.Level.debug "tools" ("exit code " ++ Bytes.ofInt code)] }

/-- Run a command and keep its output. One that cannot be started has
none. -/
def capture (tools : Tools) (line : Bytes) (files : FileTree) : ToolResult :=
  let done := tools.start line files
  match Ending.ofStatus done.status with
  | .notStarted =>
      { exitCode := Ending.notStarted.exitCode
        output := []
        files := done.files
        events := [.command line, .log Log.Level.error "tools" ("could not start: " ++ line)] }
  | ending =>
      { exitCode := ending.exitCode
        output := done.output
        files := done.files
        events :=
          [.command line,
           .log Log.Level.debug "tools"
             ("exit code " ++ Bytes.ofInt ending.exitCode ++ ", "
               ++ Bytes.ofNat done.output.length ++ " bytes of output")] }

end Tools

end Prebuilt
