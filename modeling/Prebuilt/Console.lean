import Prebuilt.Event
import Prebuilt.Log.Logger

/-!
# The console

Where the events of a command end: its text in the two output streams,
its records in the logger. A command line that is about to run is
echoed on the error stream if that was asked for, and is a record of
the lowest level otherwise.

The records that a command makes carry no place of their own.
-/

namespace Prebuilt

structure Console where
  logger : Log.Logger
  outlets : Log.Outlets
  stdout : Bytes

namespace Console

/-- The record of a statement of this program. -/
def record (millis : Int) (level : Log.Level) (topic message : Bytes) : Log.Record :=
  { level := level, topic := topic, message := message, file := some [], line := 0,
    millis := millis }

def log (layout : Log.Layout) (millis : Int) (level : Log.Level) (topic message : Bytes)
    (c : Console) : Console :=
  let (logger, outlets) := c.logger.log layout (record millis level topic message) c.outlets
  { c with logger := logger, outlets := outlets }

def printError (text : Bytes) (c : Console) : Console :=
  { c with outlets := { c.outlets with stderr := c.outlets.stderr ++ text } }

def print (text : Bytes) (c : Console) : Console := { c with stdout := c.stdout ++ text }

/-- One event reaches the user. -/
def deliver (layout : Log.Layout) (millis : Int) (echo : Bool) (c : Console) :
    Event → Console
  | .log level topic message => c.log layout millis level topic message
  | .command line =>
      if echo then c.printError ("+ " ++ line ++ "\n")
      else c.log layout millis Log.Level.trace "tools" ("+ " ++ line)
  | .stdout text => c.print text
  | .stderr text => c.printError text

def deliverAll (layout : Log.Layout) (millis : Int) (echo : Bool) (c : Console)
    (events : List Event) : Console :=
  events.foldl (deliver layout millis echo) c

end Console

end Prebuilt
