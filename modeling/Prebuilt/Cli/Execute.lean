import Prebuilt.Build.Builder
import Prebuilt.Cli.Arguments
import Prebuilt.Cli.Usage
import Prebuilt.Manifest.Reader
import Prebuilt.Stage
import Prebuilt.Toolchain.Search

/-!
# Executing a command line

From the arguments to an exit code: the configuration is put together
from the built-in one, the manifest and the overrides, in this order,
and checked; then the command does its work. Whatever is wrong up to
there is a `Refusal`, for which nothing is run and nothing is changed.

What is written where is left open: an `Execution` lists its events.
-/

namespace Prebuilt.Cli

/-! ## Refusals -/

inductive Refusal where
  | unknownCommand (text : Bytes)
  | unexpectedArgument (text : Bytes)
  | unknownOption (text : Bytes)
  | manifest (error : Manifest.LoadError)
  | invalid (problem : Config.Problem)
deriving Repr, DecidableEq

def usageHint : Bytes := "Run 'rvblob --help' for usage.\n"

/-- What the user is told. A manifest or a configuration that is refused
is logged as well. -/
def Refusal.events : Refusal → List Event
  | .unknownCommand text => [.stderr ("error: unknown command '" ++ text ++ "'\n" ++ usageHint)]
  | .unexpectedArgument text =>
      [.stderr ("error: unexpected argument '" ++ text ++ "'\n" ++ usageHint)]
  | .unknownOption text => [.stderr ("error: unknown option '" ++ text ++ "'\n" ++ usageHint)]
  | .manifest error =>
      [.log Log.Level.fatal "config" error.message,
       .stderr ("error: " ++ error.message ++ "\n")]
  | .invalid problem =>
      [.log Log.Level.fatal "config" problem.message,
       .stderr ("error: invalid configuration: " ++ problem.message ++ "\n")]

/-! ## The configuration -/

/-- The manifest that is read if it exists and none is named. -/
def defaultManifest : Path := Bytes.ofString "blob.toml"

/-- The manifest to read. -/
def manifestFor (files : FileTree) (request : Request) : Option Path :=
  if request.manifest ≠ [] then some request.manifest
  else if files.pathExists defaultManifest then some defaultManifest
  else none

/-- The configuration before the overrides. -/
def baseConfig (files : FileTree) (request : Request) :
    Except Refusal Config × List Event :=
  match manifestFor files request with
  | none => (.ok {}, [])
  | some path =>
      let (loaded, events) := Manifest.load files path
      (loaded.mapError .manifest, events)

/-- A configuration, and the directory to stage into if one was given. -/
structure Plan where
  config : Config
  stageDir : Path
deriving Repr, DecidableEq

/-- Apply one override. To `stage`, the output directory is where it
stages to. -/
def Plan.applyOverride (command : Command) (plan : Plan) (text : Bytes) :
    Except Refusal Plan :=
  match command, text.after? Config.Field.outDir.option with
  | .stage, some dir => .ok { plan with stageDir := dir }
  | _, _ =>
      match plan.config.applyOverride? text with
      | some config => .ok { plan with config := config }
      | none => .error (.unknownOption text)

def Plan.applyOverrides (command : Command) (plan : Plan) : List Bytes → Except Refusal Plan
  | [] => .ok plan
  | text :: rest =>
      match plan.applyOverride command text with
      | .error refusal => .error refusal
      | .ok plan => plan.applyOverrides command rest

/-- The checked configuration that a request leads to. -/
def configure (files : FileTree) (command : Command) (request : Request) :
    Except Refusal Plan × List Event :=
  let (base, events) := baseConfig files request
  let plan :=
    match base with
    | .error refusal => .error refusal
    | .ok config =>
        match Plan.applyOverrides command ⟨config, []⟩ request.overrides with
        | .error refusal => .error refusal
        | .ok plan =>
            match plan.config.problem? with
            | some problem => .error (.invalid problem)
            | none => .ok plan
  (plan, events)

/-! ## Commands -/

/-- What one command line comes to. -/
structure Execution where
  exitCode : Int
  files : FileTree
  events : List Event

namespace Execution

/-- Text and nothing else. -/
def say (files : FileTree) (text : Bytes) : Execution := ⟨0, files, [.stdout text]⟩

def refuse (files : FileTree) (events : List Event) (refusal : Refusal) : Execution :=
  ⟨1, files, events ++ refusal.events⟩

/-- The execution with events before its own. -/
def after (events : List Event) (x : Execution) : Execution :=
  { x with events := events ++ x.events }

end Execution

def errorText (message : Bytes) : Event := .stderr ("error: " ++ message ++ "\n")

def infoRecord (message : Bytes) : Event := .log Log.Level.info "build" message

/-- What is told about a build that failed. -/
def buildFailure (e : Build.Error) : Event := errorText (e.kind.name ++ ": " ++ e.message)

def runBuild (s : Build.Setup) (files : FileTree) : Execution :=
  let run := s.build files
  match run.result with
  | .error e =>
      ⟨e.exitCode, run.progress.files, run.progress.events ++ [buildFailure e]⟩
  | .ok report =>
      ⟨0, run.progress.files,
        run.progress.events
          ++ report.removed.map (fun stale => infoRecord ("removed stale " ++ stale))
          ++ [infoRecord ("wrote " ++ report.archive ++ " " ++ report.hash)]⟩

def runClean (s : Build.Setup) (files : FileTree) : Execution :=
  let run := s.clean files
  match run.result with
  | .error e =>
      ⟨e.exitCode, run.progress.files, run.progress.events ++ [buildFailure e]⟩
  | .ok removed =>
      ⟨0, run.progress.files,
        run.progress.events ++ removed.map fun stale => infoRecord ("removed " ++ stale)⟩

def runStage (env : Environment) (plan : Plan) (files : FileTree) : Execution :=
  match Stage.destination env plan.stageDir with
  | .error e => ⟨1, files, [errorText e.message]⟩
  | .ok dir =>
      let outcome := Stage.stage files plan.config.linkScripts dir
      match outcome.staged with
      | .error e =>
          ⟨1, outcome.files,
            outcome.events ++ [.log Log.Level.error "stage" e.message, errorText e.message]⟩
      | .ok _ =>
          ⟨0, outcome.files,
            outcome.events ++ [.stdout (Stage.directives dir plan.config.linkScripts)]⟩

/-- A line of a listing. -/
def indented (text : Bytes) : Bytes := "  " ++ text ++ "\n"

def runInspect (tools : Tools) (c : Config) (files : FileTree) : Execution :=
  let listing := Archive.listMembers tools files c.toolchain.archiver c.archivePath
  match listing.members with
  | .error e => ⟨1, listing.files, listing.events ++ [errorText e.message]⟩
  | .ok members =>
      let (hash, events) := Archive.hashFile Archive.sha256 listing.files c.archivePath
      ⟨0, listing.files,
        listing.events ++ events
          ++ [.stdout (c.archivePath ++ "\n" ++ indented hash ++ members.flatMap indented)]⟩

/-- Carry out a command with its configuration. Only `build` and
`inspect` need the tools, and only they search for them. -/
def runCommand (env : Environment) (tools : Tools) (command : Command) (plan : Plan)
    (files : FileTree) : Execution :=
  let (resolved, found) := plan.config.resolveTools env files
  match command with
  | .stage => runStage env plan files
  | .clean => runClean ⟨plan.config, .real, tools⟩ files
  | .build => (runBuild ⟨resolved, .real, tools⟩ files).after found
  | .inspect => (runInspect tools resolved files).after found

/-- Execute what the arguments came to. -/
def execute (env : Environment) (tools : Tools) (files : FileTree) : Scan → Execution
  | .help => .say files usageText
  | .version => .say files versionText
  | .unknownCommand text => .refuse files [] (.unknownCommand text)
  | .unexpectedArgument text => .refuse files [] (.unexpectedArgument text)
  | .proceed request =>
      let command := request.command.getD .build
      match configure files command request with
      | (.error refusal, events) => .refuse files events refusal
      | (.ok plan, events) => (runCommand env tools command plan files).after events

end Prebuilt.Cli
