import Prebuilt.Environment
import Prebuilt.FileTree.Edit

/-!
# The state of a shell

A shell sees the file tree, its variables and arguments, and the streams
that its descriptors lead to. Streams are shared: a command that reads
from a descriptor moves it on for all commands that come after. What is
written to the output stream of the outermost shell is collected.
-/

namespace Prebuilt.Shell

/-- What an open descriptor leads to. -/
inductive Stream where
  /-- Nothing to read; what is written is lost. -/
  | null
  /-- The output of the outermost shell. -/
  | output
  /-- An open file and the place in it. -/
  | file (handle : FileTree.Handle) (offset : Nat) (append : Bool)
  /-- The bytes between the two ends of a pipe. -/
  | pipe (held : Bytes)
deriving Repr, DecidableEq

structure Variable where
  value : Bytes
  exported : Bool
deriving Repr, DecidableEq

structure State where
  files : FileTree
  output : Bytes
  streams : List Stream
  /-- The stream, by its place in the list, of each open descriptor. -/
  descriptors : List (Nat × Nat)
  bindings : List (Bytes × Variable)
  name : Bytes
  arguments : List Bytes
  /-- The exit status of the last command. -/
  status : Nat
  process : Nat

/-- How to go on after a command. -/
inductive Flow where
  | next
  | exit
  | killed (signal : Nat)
  | breakLoop (levels : Nat)
  | continueLoop (levels : Nat)
  /-- The steps that were allowed are used up. -/
  | exhausted
deriving Repr, DecidableEq

namespace State

def succeed (s : State) (status : Nat) : Flow × State := (.next, { s with status := status })

/-! ## Variables -/

def value? (s : State) (name : Bytes) : Option Bytes := (s.bindings.lookup name).map (·.value)

def unset (s : State) (name : Bytes) : State :=
  { s with bindings := s.bindings.filter fun v => v.1 ≠ name }

/-- Give a variable a value; it stays exported if it was. -/
def assign (s : State) (name value : Bytes) : State :=
  let exported := ((s.bindings.lookup name).map (·.exported)).getD false
  { s with bindings := (name, ⟨value, exported⟩) :: (s.unset name).bindings }

def markExported (s : State) (name : Bytes) : State :=
  let value := (s.value? name).getD []
  { s with bindings := (name, ⟨value, true⟩) :: (s.unset name).bindings }

def environment (s : State) : Environment :=
  (s.bindings.filter (·.2.exported)).map fun v => (v.1, v.2.value)

def withEnvironment (s : State) (env : Environment) : State :=
  { s with bindings := env.map fun v => (v.1, ⟨v.2, true⟩) }

/-- The bytes that separate fields. -/
def separators (s : State) : Bytes := (s.value? "IFS").getD " \t\n"

/-! ## Descriptors -/

def stream? (s : State) (descriptor : Nat) : Option (Nat × Stream) :=
  match s.descriptors.lookup descriptor with
  | none => none
  | some i => s.streams[i]?.map (i, ·)

def setStream (s : State) (i : Nat) (stream : Stream) : State :=
  { s with streams := s.streams.set i stream }

def closeDescriptor (s : State) (descriptor : Nat) : State :=
  { s with descriptors := s.descriptors.filter fun d => d.1 ≠ descriptor }

/-- Let a descriptor lead to a stream that is open already. -/
def attach (s : State) (descriptor i : Nat) : State :=
  { s with descriptors := (descriptor, i) :: (s.closeDescriptor descriptor).descriptors }

/-- Let a descriptor lead to a new stream. -/
def openStream (s : State) (descriptor : Nat) (stream : Stream) : State :=
  { s.attach descriptor s.streams.length with streams := s.streams ++ [stream] }

/-! ## Reading and writing -/

/-- Bytes put over the content from a place on. -/
def overwrite (content : Bytes) (offset : Nat) (more : Bytes) : Bytes :=
  content.take offset ++ List.replicate (offset - content.length) 0 ++ more
    ++ content.drop (offset + more.length)

/-- Write to a descriptor. Nothing can be written to one that is closed. -/
def write? (s : State) (descriptor : Nat) (bytes : Bytes) : Option State :=
  match s.stream? descriptor with
  | none => none
  | some (_, .null) => some s
  | some (_, .output) => some { s with output := s.output ++ bytes }
  | some (i, .pipe held) => some (s.setStream i (.pipe (held ++ bytes)))
  | some (i, .file h offset append) =>
      match s.files.opened? h with
      | some (content, x) =>
          let offset := if append then content.length else offset
          let written := overwrite content offset bytes
          let files := if bytes = [] then s.files else s.files.put h.location (.file written x)
          some ({ s with files := files }.setStream i (.file h (offset + bytes.length) append))
      | none => some s

def write (s : State) (descriptor : Nat) (bytes : Bytes) : State :=
  (s.write? descriptor bytes).getD s

/-- Print on the standard output and end with a status, which is 1 if
the output is closed. -/
def print (s : State) (bytes : Bytes) (status : Nat) : Flow × State :=
  match s.write? 1 bytes with
  | some s => s.succeed status
  | none => s.succeed (if bytes = [] then status else 1)

/-- The bytes that can be read from a stream. -/
def available (s : State) : Stream → Bytes
  | .null => []
  | .output => []
  | .pipe held => held
  | .file h offset _ =>
      match s.files.opened? h with
      | some (content, _) => content.drop offset
      | none => []

/-- The stream after this many bytes were read. -/
def advanced (count : Nat) : Stream → Stream
  | .pipe held => .pipe (held.drop count)
  | .file h offset append => .file h (offset + count) append
  | stream => stream

/-- Read up to the first newline. The flag tells that there was one. -/
def readLine (s : State) (descriptor : Nat) : (Bytes × Bool) × State :=
  match s.stream? descriptor with
  | none => (([], false), s)
  | some (i, stream) =>
      let bytes := s.available stream
      match bytes.cut? '\n' with
      | some (line, _) => ((line, true), s.setStream i (advanced (line.length + 1) stream))
      | none => ((bytes, false), s.setStream i (advanced bytes.length stream))

/-- Read all there is. -/
def readAll (s : State) (descriptor : Nat) : Bytes × State :=
  match s.stream? descriptor with
  | none => ([], s)
  | some (i, stream) =>
      let bytes := s.available stream
      (bytes, s.setStream i (advanced bytes.length stream))

/-! ## Shells within shells -/

/-- What a subshell or a tool leaves to the shell that ran it: the files,
the output and the streams. Everything else is as it was. -/
def resume (outer inner : State) : State :=
  { outer with
    files := { inner.files with workingDirectory := outer.files.workingDirectory }
    output := inner.output
    streams := inner.streams
    status := inner.status }

end State

end Prebuilt.Shell
