import Prebuilt.Cli.Run

/-!
# What a command line comes to

Before a command does its work, the arguments are read and the
configuration is put together and checked. The `Verdict` is what that
comes to: a text to print, a refusal, or a command with its plan. The
rest of an execution follows from it (`execute_of_refused`,
`execute_of_handed`).
-/

namespace Prebuilt.Cli

inductive Verdict where
  | help
  | version
  | refused (refusal : Refusal)
  /-- The command is to be carried out with this plan. -/
  | handed (command : Command) (plan : Plan)
deriving Repr, DecidableEq

namespace Scan

def verdict (files : FileTree) : Scan → Verdict
  | .help => .help
  | .version => .version
  | .unknownCommand text => .refused (.unknownCommand text)
  | .unexpectedArgument text => .refused (.unexpectedArgument text)
  | .proceed request =>
      let command := request.command.getD .build
      match (configure files command request).1 with
      | .error refusal => .refused refusal
      | .ok plan => .handed command plan

/-- What is told while the configuration is put together. -/
def told (files : FileTree) : Scan → List Event
  | .proceed request => (configure files (request.command.getD .build) request).2
  | _ => []

variable {env : Environment} {tools : Tools} {files : FileTree} {asked : Scan}

theorem execute_of_refused {refusal : Refusal} (h : asked.verdict files = .refused refusal) :
    execute env tools files asked = .refuse files (asked.told files) refusal := by
  cases asked with
  | help => cases h
  | version => cases h
  | unknownCommand text =>
      obtain rfl := Verdict.refused.inj h
      rfl
  | unexpectedArgument text =>
      obtain rfl := Verdict.refused.inj h
      rfl
  | proceed request =>
      rw [verdict] at h
      rw [execute, told]
      cases hconfigured : configure files (request.command.getD .build) request with
      | mk plan events =>
          rw [hconfigured] at h
          cases plan with
          | error refusal' =>
              obtain rfl := Verdict.refused.inj h
              rfl
          | ok plan => cases h

theorem execute_of_handed {command : Command} {plan : Plan}
    (h : asked.verdict files = .handed command plan) :
    execute env tools files asked
      = (runCommand env tools command plan files).after (asked.told files) := by
  cases asked with
  | help => cases h
  | version => cases h
  | unknownCommand text => cases h
  | unexpectedArgument text => cases h
  | proceed request =>
      rw [verdict] at h
      rw [execute, told]
      cases hconfigured : configure files (request.command.getD .build) request with
      | mk plan' events =>
          rw [hconfigured] at h
          cases plan' with
          | error refusal => cases h
          | ok plan' =>
              obtain ⟨rfl, rfl⟩ := Verdict.handed.inj h
              rfl

end Scan

/-! ## Runs -/

namespace Machine

/-- The logger of a run, and what its sinks write into. -/
def opened (machine : Machine) (files : FileTree) (args : List Bytes) :
    Log.Logger × Log.Outlets :=
  let (settings, warnings) := Log.settingsFor machine.surroundings.environment args
  Log.Logger.configure machine.surroundings settings ⟨files, warnings, []⟩

/-- The tree in which a command line is executed: the log file is there. -/
def prepared (machine : Machine) (files : FileTree) (args : List Bytes) : FileTree :=
  (machine.opened files args).2.files

/-- The verdict on the arguments of a run. -/
def verdict (machine : Machine) (files : FileTree) (args : List Bytes) : Verdict :=
  (scan args).2.verdict (machine.prepared files args)

/-- The execution in a run. -/
def execution (machine : Machine) (files : FileTree) (args : List Bytes) : Execution :=
  execute machine.surroundings.environment machine.tools (machine.prepared files args)
    (scan args).2

/-- The console once all events of a run are delivered. -/
def console (machine : Machine) (files : FileTree) (args : List Bytes) : Console :=
  let (logger, out) := machine.opened files args
  let x := machine.execution files args
  Console.deliverAll machine.surroundings.layout machine.millis (scan args).1
    ⟨logger, { out with files := x.files }, []⟩ x.events

end Machine

theorem run_eq (machine : Machine) (files : FileTree) (args : List Bytes) :
    run machine files args =
      let console := machine.console files args
      let left := console.logger.close console.outlets
      { exitCode := (machine.execution files args).exitCode
        echo := (scan args).1
        stdout := console.stdout
        stderr := left.stderr
        files := left.files } := rfl

/-- A machine without tools. -/
def bareMachine : Machine where
  surroundings := ⟨[], false, .plain "TIME"⟩
  tools := fun _ files => ⟨127 * 256, [], files⟩
  millis := 0

end Prebuilt.Cli
