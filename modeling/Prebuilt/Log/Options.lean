import Prebuilt.Log.Logger

/-!
# Log options

The command-line options that set up the logger. Each argument is read
on its own (`LogOption.ofArgument?`); an argument that is no log option
has no say here.

The level is the last one named explicitly, where `-q` names `error`.
Without one, the highest verbosity decides: `-v` shows `info`, `-vv`
`debug` and `-vvv` everything. Without either it is `warn`, unless
there is no filter and the variable `RVBLOB_LOG` holds a level; if it
holds an equals sign or a comma it is a filter specification instead.
-/

namespace Prebuilt.Log

inductive LogOption where
  | level (name : Bytes)
  | filter (spec : Bytes)
  | file (path : Path)
  | format (name : Bytes)
  | quiet
  | verbose (count : Nat)
deriving Repr, DecidableEq

/-- The number of letters in `-v`, `-vv`, and so on, 0 for every other
argument. -/
def verbosityCount : Bytes → Nat
  | dash :: vs => if dash = '-' ∧ vs.all (· = 'v') then vs.length else 0
  | [] => 0

def LogOption.ofArgument? (arg : Bytes) : Option LogOption :=
  match arg.after? "--log-level=" with
  | some name => some (.level name)
  | none =>
  match arg.after? "--log-filter=" with
  | some spec => some (.filter spec)
  | none =>
  match arg.after? "--log-file=" with
  | some path => some (.file path)
  | none =>
  match arg.after? "--log-format=" with
  | some name => some (.format name)
  | none =>
  if arg = "-q" ∨ arg = "--quiet" then some .quiet
  else if arg = "--verbose" then some (.verbose 1)
  else if 0 < verbosityCount arg then some (.verbose (verbosityCount arg))
  else none

/-- What the log options with a value begin with. -/
def valueOptions : List Bytes := ["--log-level=", "--log-filter=", "--log-file=", "--log-format="]

/-- The argument is for the logger. This is told by its form alone, so
that a command line can be sorted without reading any value. -/
def isLogOption (arg : Bytes) : Bool :=
  valueOptions.any (fun option => (arg.after? option).isSome)
    || arg = "-q" || arg = "--quiet" || arg = "--verbose" || decide (0 < verbosityCount arg)

/-! ## Reading the arguments -/

/-- A level by its name; one that is unknown is reported and read as
`info`. -/
def levelOrWarning (name origin : Bytes) : Level × Bytes :=
  match Level.ofName? name with
  | some level => (level, [])
  | none =>
      (Level.info,
        "warning: unknown log level '" ++ name ++ "' in " ++ origin ++ ", using info\n")

/-- What the options seen so far ask for. -/
structure Wishes where
  explicit : Option Level := none
  verbosity : Nat := 0
  filterSpec : Bytes := []
  logFile : Path := []
  format : Format := .text
  /-- Text for the error stream. -/
  warnings : Bytes := []
deriving Repr, DecidableEq

def Wishes.add (w : Wishes) : LogOption → Wishes
  | .level name =>
      let (level, warning) := levelOrWarning name "--log-level"
      { w with explicit := some level, warnings := w.warnings ++ warning }
  | .filter spec => { w with filterSpec := spec }
  | .file path => { w with logFile := path }
  | .format name =>
      { w with format := if name = "json" ∨ name = "JSON" then .json else .text }
  | .quiet => { w with explicit := some Level.error }
  | .verbose count => { w with verbosity := max w.verbosity count }

def Wishes.ofArguments (args : List Bytes) : Wishes :=
  (args.filterMap LogOption.ofArgument?).foldl Wishes.add {}

/-- The level for a verbosity. -/
def levelOfVerbosity : Nat → Level
  | 0 => Level.warn
  | 1 => Level.info
  | 2 => Level.debug
  | _ => Level.trace

/-- The settings that arguments and environment ask for, and the text
that goes to the error stream. -/
def settingsFor (env : Environment) (args : List Bytes) : Settings × Bytes :=
  let w := Wishes.ofArguments args
  let settings : Settings :=
    { level := Level.warn, format := w.format, filterSpec := w.filterSpec, logFile := w.logFile }
  match w.explicit with
  | some level => ({ settings with level := level }, w.warnings)
  | none =>
      if w.verbosity ≠ 0 then
        ({ settings with level := levelOfVerbosity w.verbosity }, w.warnings)
      else if w.filterSpec ≠ [] then (settings, w.warnings)
      else
        let value := env.valueOf "RVBLOB_LOG"
        if value.any (fun c => c = '=' ∨ c = ',') then
          ({ settings with filterSpec := value }, w.warnings)
        else if value = [] then (settings, w.warnings)
        else
          let (level, warning) := levelOrWarning value "RVBLOB_LOG"
          ({ settings with level := level }, w.warnings ++ warning)

end Prebuilt.Log
