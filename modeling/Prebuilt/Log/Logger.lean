import Prebuilt.Log.Filter
import Prebuilt.Log.Sink

/-!
# The logger

A logger sends each record that its filter admits to all of its sinks.
It remembers the least level that any topic is shown at and refuses
everything below without asking the filter. Statements below
`leastStatement` never ask at all.

What happens to a logger is a sequence of `Request`s; `perform` says
what each does to the logger and to its outlets.
-/

namespace Prebuilt.Log

/-- How a logger is to be set up. -/
structure Settings where
  level : Level := Level.info
  format : Format := .text
  /-- A filter specification; empty if the level holds for all topics. -/
  filterSpec : Bytes := []
  /-- A file that records go to as well; empty if there is none. -/
  logFile : Path := []
  console : Bool := true
  colours : Bool := true
deriving Repr, DecidableEq

structure Logger where
  /-- Below this level nothing is logged. -/
  threshold : Level
  filter : Filter
  sinks : List Sink
deriving Repr, DecidableEq

/-- What a logger sees of the machine it runs on. -/
structure Surroundings where
  environment : Environment
  /-- The error stream is a terminal. -/
  interactive : Bool
  layout : Layout

namespace Logger

/-- A logger that shows every topic from one level on. -/
def atLevel (level : Level) (sinks : List Sink) : Logger := ⟨level, ⟨level, []⟩, sinks⟩

def setLevel (logger : Logger) (level : Level) : Logger :=
  { logger with threshold := level, filter := logger.filter.setDefault level }

def setFilter (logger : Logger) (spec : Bytes) : Logger :=
  let filter := logger.filter.parse spec
  { logger with threshold := filter.minLevel, filter := filter }

/-- The filter that settings ask for. A `*` entry of the specification
wins over the level. -/
def filterFor (settings : Settings) : Filter :=
  let filter := Filter.initial.setDefault settings.level
  if settings.filterSpec = [] then filter else filter.parse settings.filterSpec

/-- The logger that settings ask for. A file that cannot be opened is
reported and left out. -/
def configure (around : Surroundings) (settings : Settings) (out : Outlets) :
    Logger × Outlets :=
  let console :=
    if settings.console then
      [(Sink.openConsole around.interactive around.environment settings.colours).withFormat
        settings.format]
    else []
  let filter := filterFor settings
  if settings.logFile = [] then (⟨filter.minLevel, filter, console⟩, out)
  else
    match Sink.openFile out.files settings.logFile true with
    | some (files, sink) =>
        (⟨filter.minLevel, filter, console ++ [sink.withFormat settings.format]⟩,
          { out with files := files })
    | none =>
        let warning : Bytes := "warning: could not open log file: " ++ settings.logFile ++ "\n"
        (⟨filter.minLevel, filter, console⟩, { out with stderr := out.stderr ++ warning })

def shouldLog (logger : Logger) (level : Level) (topic : Bytes) : Bool :=
  decide (logger.threshold ≤ level) && logger.filter.admits level topic

/-- Let every sink act in turn. -/
def eachSink (act : Sink → Outlets → Sink × Outlets) : List Sink → Outlets → List Sink × Outlets
  | [], out => ([], out)
  | sink :: rest, out =>
      let (sink, out) := act sink out
      let (rest, out) := eachSink act rest out
      (sink :: rest, out)

/-- Send a record to every sink, whatever its level. -/
def write (logger : Logger) (layout : Layout) (r : Record) (out : Outlets) :
    Logger × Outlets :=
  let (sinks, out) := eachSink (Sink.write layout r) logger.sinks out
  ({ logger with sinks := sinks }, out)

/-- Statements below this level are left out of the program. -/
def leastStatement : Level := Level.trace

/-- Log the record of a statement if its level is shown for its topic. -/
def log (logger : Logger) (layout : Layout) (r : Record) (out : Outlets) :
    Logger × Outlets :=
  if decide (leastStatement ≤ r.level) && logger.shouldLog r.level r.topic then
    logger.write layout r out
  else (logger, out)

def flush (logger : Logger) (out : Outlets) : Logger × Outlets :=
  let (sinks, out) := eachSink Sink.flush logger.sinks out
  ({ logger with sinks := sinks }, out)

/-- The outlets after the last act of a logger's sinks. -/
def close (logger : Logger) (out : Outlets) : Outlets := (logger.flush out).2

/-! ## Requests -/

inductive Request where
  | configure (settings : Settings)
  | setLevel (level : Level)
  | setFilter (spec : Bytes)
  /-- Records go to memory as well. -/
  | keepInMemory
  | dropSinks
  | flush
  /-- A statement, which asks the filter. -/
  | log (record : Record)
  /-- A record that does not. -/
  | write (record : Record)
deriving Repr, DecidableEq

def perform (around : Surroundings) (logger : Logger) (out : Outlets) :
    Request → Logger × Outlets
  | .configure settings =>
      let (next, out) := configure around settings out
      (next, logger.close out)
  | .setLevel level => (logger.setLevel level, out)
  | .setFilter spec => (logger.setFilter spec, out)
  | .keepInMemory => ({ logger with sinks := logger.sinks ++ [.memory] }, out)
  | .dropSinks => ({ logger with sinks := [] }, logger.close out)
  | .flush => logger.flush out
  | .log r => logger.log around.layout r out
  | .write r => logger.write around.layout r out

end Logger

end Prebuilt.Log
