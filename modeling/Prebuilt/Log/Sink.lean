import Prebuilt.Environment
import Prebuilt.FileTree.Edit
import Prebuilt.Log.Record

/-!
# Log sinks

A sink is a place that records go to: the error stream, a file, or a
list kept in memory. Writing to one changes the `Outlets`, which gather
what all of them have received.

A file is written through a buffer: its lines reach it when the buffer
is full, when the sink is flushed, and after every record that is an
error. They are lost if the file was removed by then.
-/

namespace Prebuilt.Log

/-- What the sinks write into. -/
structure Outlets where
  files : FileTree
  stderr : Bytes
  memory : List Record

/-! ## Buffered files -/

structure BufferedFile where
  handle : FileTree.Handle
  /-- What is not in the file yet. -/
  pending : Bytes
deriving Repr, DecidableEq

namespace BufferedFile

/-- A buffer holds less than this many bytes. -/
def capacity : Nat := 8191

def flush (b : BufferedFile) (files : FileTree) : BufferedFile × FileTree :=
  ({ b with pending := [] }, files.append b.handle b.pending)

def write (b : BufferedFile) (bytes : Bytes) (files : FileTree) : BufferedFile × FileTree :=
  let full : BufferedFile := { b with pending := b.pending ++ bytes }
  if capacity ≤ full.pending.length then full.flush files else (full, files)

end BufferedFile

/-! ## Sinks -/

inductive Sink where
  | console (colours : Bool) (format : Format)
  | file (buffer : BufferedFile) (format : Format)
  | memory
deriving Repr, DecidableEq

/-- Colours are fit for the error stream if it is a terminal, `NO_COLOR`
is unset, and `TERM` is set to anything but `dumb`. -/
def supportsColour (interactive : Bool) (env : Environment) : Bool :=
  interactive && (env.get? "NO_COLOR").isNone
    && match env.get? "TERM" with
       | some term => term ≠ "dumb"
       | none => false

namespace Sink

/-- A console as it is opened: colours are shown only where they are fit. -/
def openConsole (interactive : Bool) (env : Environment) (colours : Bool) : Sink :=
  .console (colours && supportsColour interactive env) .text

/-- The sink, if it has lines, with this format from now on. -/
def withFormat (format : Format) : Sink → Sink
  | .console colours _ => .console colours format
  | .file buffer _ => .file buffer format
  | .memory => .memory

/-- Open a file as a sink, emptied first unless it is appended to. -/
def openFile (files : FileTree) (path : Path) (append : Bool) : Option (FileTree × Sink) :=
  match files.openFile path with
  | .error _ => none
  | .ok (files, location) =>
      let files := if append then files else files.truncate location
      some (files, .file ⟨files.handle location, []⟩ .text)

/-- All that a sink holds back is written. -/
def flush (sink : Sink) (out : Outlets) : Sink × Outlets :=
  match sink with
  | .file buffer format =>
      let (buffer, files) := buffer.flush out.files
      (.file buffer format, { out with files := files })
  | other => (other, out)

/-- One record reaches the sink. -/
def write (layout : Layout) (r : Record) (sink : Sink) (out : Outlets) : Sink × Outlets :=
  match sink with
  | .console colours format =>
      (sink, { out with stderr := out.stderr ++ r.render layout colours format })
  | .file buffer format =>
      let (buffer, files) := buffer.write (r.written layout false format) out.files
      let (buffer, files) := buffer.write "\n" files
      let written : Sink := .file buffer format
      if Level.error ≤ r.level then written.flush { out with files := files }
      else (written, { out with files := files })
  | .memory => (sink, { out with memory := out.memory ++ [r] })

end Sink

end Prebuilt.Log
