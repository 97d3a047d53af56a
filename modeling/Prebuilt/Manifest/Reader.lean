import Prebuilt.Config
import Prebuilt.Event
import Prebuilt.FileTree.Resolve
import Prebuilt.Manifest.Item

/-!
# Reading a manifest

The meaning of a manifest is what its assignments, taken in order, do to
a base configuration. A later assignment to a key replaces an earlier
one, with one exception: `name` also renames the archive, but not once
`archive` has set it. Keys and sections that are not known are reported
and change nothing.

A `Reader` holds a text that is being read. Reading again goes on where
it stopped before, and the first fault of all is the one that is
reported.
-/

namespace Prebuilt.Manifest

/-! ## Keys -/

/-- A key that takes a string. -/
inductive TextKey where
  | name
  | source
  | outDir
  | archive
  | object
  | compiler
  | archiver
  | march
  | mabi
deriving Repr, DecidableEq

namespace TextKey

def all : List TextKey :=
  [.name, .source, .outDir, .archive, .object, .compiler, .archiver, .march, .mabi]

/-- The section and the name of a key. -/
def spelling : TextKey → Bytes × Bytes
  | .name => ("blob", "name")
  | .source => ("blob", "source")
  | .outDir => ("blob", "out_dir")
  | .archive => ("blob", "archive")
  | .object => ("blob", "object")
  | .compiler => ("toolchain", "compiler")
  | .archiver => ("toolchain", "archiver")
  | .march => ("toolchain", "march")
  | .mabi => ("toolchain", "mabi")

def find? (sec key : Bytes) : Option TextKey := all.find? fun k => k.spelling = (sec, key)

theorem find?_eq_some_iff {sec key : Bytes} {k : TextKey} :
    find? sec key = some k ↔ k.spelling = (sec, key) := by
  constructor
  · intro h
    simpa using List.find?_some h
  · intro h
    unfold find?
    rw [← h]
    cases k <;> decide

end TextKey

/-! ## What an assignment does -/

inductive Warning where
  | unknownKey (sec key : Bytes) (line : Nat)
  | unknownSection (sec key : Bytes) (line : Nat)
deriving Repr, DecidableEq

def Warning.message : Warning → Bytes
  | .unknownKey sec key line =>
      "Line " ++ Bytes.ofNat line ++ ": unknown key '" ++ key ++ "' in [" ++ sec
        ++ "], ignored"
  | .unknownSection sec key line =>
      "Line " ++ Bytes.ofNat line ++ ": key '" ++ key ++ "' in unknown section [" ++ sec
        ++ "], ignored"

/-- The warning for an assignment to a key that is not known. -/
def Assignment.warning (a : Assignment) : Warning :=
  if a.sectionName = "blob" ∨ a.sectionName = "toolchain" then
    .unknownKey a.sectionName a.key a.line
  else .unknownSection a.sectionName a.key a.line

/-- A configuration that is being put together. -/
structure Draft where
  config : Config
  /-- The archive was set by its own key. -/
  archiveSet : Bool
  warnings : List Warning := []
deriving Repr, DecidableEq

namespace Draft

/-- Give a key its value. -/
def set (d : Draft) (value : Bytes) : TextKey → Draft
  | .name =>
      let archive :=
        if d.archiveSet then d.config.archive else value ++ d.config.archiveExtension
      { d with config := { d.config with name := value, archive := archive } }
  | .source => { d with config := { d.config with source := value } }
  | .outDir => { d with config := { d.config with outDir := value } }
  | .archive => { d with config := { d.config with archive := value }, archiveSet := true }
  | .object => { d with config := { d.config with object := value } }
  | .compiler => tools { d.config.toolchain with compiler := value }
  | .archiver => tools { d.config.toolchain with archiver := value }
  | .march => tools { d.config.toolchain with march := value }
  | .mabi => tools { d.config.toolchain with mabi := value }
where
  tools (t : Toolchain) : Draft := { d with config := { d.config with toolchain := t } }

/-- Two keys take a list, and they stand in different sections. -/
def setList (d : Draft) (sec : Bytes) (values : List Bytes) : Draft :=
  if sec = "link" then { d with config := { d.config with linkScripts := values } }
  else
    let toolchain := { d.config.toolchain with flags := values }
    { d with config := { d.config with toolchain := toolchain } }

def apply (d : Draft) (a : Assignment) : Draft :=
  match a.value with
  | .list values => d.setList a.sectionName values
  | .text value =>
      match TextKey.find? a.sectionName a.key with
      | some key => d.set value key
      | none => { d with warnings := d.warnings ++ [a.warning] }

end Draft

/-! ## Readers -/

structure Reader where
  cursor : Cursor
  /-- The first fault that was met, and its line. -/
  fault : Option (Nat × Fault)
  archiveSet : Bool
deriving Repr, DecidableEq

def Reader.ofText (text : Bytes) : Reader := ⟨⟨text, 1⟩, none, false⟩

/-- The report on the first fault, empty if there was none. -/
def Reader.report (r : Reader) : Bytes :=
  match r.fault with
  | none => []
  | some (line, fault) => "Line " ++ Bytes.ofNat line ++ ": " ++ fault.message

/-- What one reading gives: a configuration unless a fault was met, the
reader for what is left, and the warnings. -/
structure Outcome where
  config : Option Config
  reader : Reader
  warnings : List Warning
deriving Repr, DecidableEq

/-- Read on top of a base configuration. -/
def Reader.read (r : Reader) (base : Config) : Outcome :=
  let reading := items [] r.cursor.skipSpace
  let draft := reading.assignments.foldl Draft.apply ⟨base, r.archiveSet, []⟩
  let fault := r.fault.or (reading.fault.map (reading.stopped.line, ·))
  { config := if reading.fault.isNone then some draft.config else none
    reader := ⟨reading.stopped, fault, draft.archiveSet⟩
    warnings := draft.warnings }

/-- Read a whole text on top of a base configuration. -/
def read (text : Bytes) (base : Config) : Outcome := (Reader.ofText text).read base

/-! ## Manifest files -/

/-- Why a manifest file gives no configuration. -/
inductive LoadError where
  | cannotOpen (path : Path)
  | faulty (path : Path) (report : Bytes)
deriving Repr, DecidableEq

def LoadError.message : LoadError → Bytes
  | .cannotOpen path => "cannot open manifest " ++ path
  | .faulty path report => path ++ ": " ++ report

def Outcome.events (o : Outcome) : List Event :=
  o.warnings.map fun w => .log Log.Level.warn "config" w.message

/-- Read a manifest file on top of the built-in configuration. -/
def load (files : FileTree) (path : Path) : Except LoadError Config × List Event :=
  match files.read? path with
  | none => (.error (.cannotOpen path), [])
  | some text =>
      let outcome := read text {}
      match outcome.config with
      | none => (.error (.faulty path outcome.reader.report), outcome.events)
      | some config =>
          (.ok config, outcome.events
            ++ [.log Log.Level.debug "config" ("Loaded manifest " ++ path)])

end Prebuilt.Manifest
