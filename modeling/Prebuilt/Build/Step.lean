import Prebuilt.Build.Error
import Prebuilt.FileTree.Edit

/-!
# The steps of a build

A build makes a fresh archive from one source in four steps, each of
which takes it to its next state:

- **clean** removes the archives in the output directory, which would
  otherwise keep their old members (`cleaned`);
- **compile** removes an object left behind and runs the compiler
  (`compiled`);
- **archive** runs the archiver (`archived`);
- **cleanup** removes the object (`done`).

A step works on a `Progress`: the file tree, the state of the build, and
the events and invocations so far. It ends with a value or with the error that ends the
build, and with the progress made up to there in either case.
-/

namespace Prebuilt.Build

/-- The questions about the output directory whose answers can be
replaced. -/
structure Probes where
  listArchives : FileTree → Path → Bytes → Except Bytes (List Path)
  isWritable : FileTree → Path → Bool

/-- The answers that the file tree itself gives. -/
def Probes.real : Probes where
  listArchives := fun files dir ext => (Archive.find files dir ext).mapError (·.message)
  isWritable := FileTree.isWritable

/-- What a build works with. -/
structure Setup where
  config : Config
  probes : Probes
  tools : Tools

/-- A tool that was started: its command line, and the tree it found. -/
structure Invocation where
  role : Role
  line : Bytes
  files : FileTree
deriving Repr, DecidableEq

structure Progress where
  files : FileTree
  state : State
  events : List Event
  /-- The tools that were started, in order. -/
  invocations : List Invocation
deriving Repr, DecidableEq

/-- A part of a build. -/
abbrev Step (α : Type) := ExceptT Error (StateM Progress) α

namespace Step

/-! ## Parts of steps -/

def files : Step FileTree := do return (← get).files

def setFiles (files : FileTree) : Step Unit := modify fun p => { p with files := files }

def tell (events : List Event) : Step Unit :=
  modify fun p => { p with events := p.events ++ events }

def log (level : Log.Level) (message : Bytes) : Step Unit :=
  tell [.log level "build" message]

/-- Go on to the next state. -/
def advance (next : State) : Step Unit := do
  log Log.Level.info ((← get).state.name ++ " -> " ++ next.name)
  modify fun p => { p with state := next }

/-- End the build. -/
def fail {α : Type} (cause : Cause) : Step α := do
  let last := (← get).state
  log Log.Level.error
    (cause.kind.name ++ " after '" ++ last.name ++ "': " ++ cause.message)
  modify fun p => { p with state := .failed }
  throw ⟨cause, last⟩

/-- Run a tool; the build ends if it fails. -/
def runTool (s : Setup) (role : Role) (line : Bytes) : Step Unit := do
  let found ← files
  modify fun p => { p with invocations := p.invocations ++ [⟨role, line, found⟩] }
  let result := s.tools.run line found
  setFiles result.files
  tell result.events
  if result.exitCode ≠ 0 then
    if s.probes.isWritable result.files s.config.outDir then
      fail (.toolFailed role result.exitCode none)
    else fail (.toolFailed role result.exitCode (some s.config.outDir))

/-! ## Clean -/

/-- Make sure that the output directory exists. -/
def prepareOutDir (out : Path) : Step Unit := do
  let files ← files
  if files.pathExists out then
    if files.isDirectory out then pure () else fail (.notADirectory out)
  else
    let (files, fault) := files.makeDirectories out
    setFiles files
    match fault with
    | some fault => fail (.cannotCreate out fault)
    | none => log Log.Level.debug ("created " ++ out)

/-- Remove one archive. One that is gone already is as good as removed. -/
def removeArchive (path : Path) : Step Unit := do
  match (← files).remove path with
  | .ok files => setFiles files
  | .error .missing => pure ()
  | .error fault => fail (.cannotRemove path fault)
  log Log.Level.debug ("removed " ++ path)

/-- The archives that were removed. -/
def clean (s : Setup) : Step (List Path) := do
  let out := s.config.outDir
  prepareOutDir out
  match s.probes.listArchives (← files) out s.config.archiveExtension with
  | .error report => fail (.cannotList report)
  | .ok stale =>
      stale.forM removeArchive
      advance .cleaned
      return stale

/-! ## Compile -/

/-- An object left by an earlier build must not pass for a new one. -/
def removeOldObject (object : Path) : Step Unit := do
  let files ← files
  if files.pathExists object then
    match files.remove object with
    | .ok files => setFiles files
    | .error fault => fail (.cannotRemoveOld object fault)

def compile (s : Setup) : Step Unit := do
  let object := s.config.objectPath
  if !(← files).isRegularFile s.config.source then fail (.sourceMissing s.config.source)
  removeOldObject object
  runTool s .compiler (Command.assemble s.config)
  if !(← files).pathExists object then fail (.objectNotMade object)
  advance .compiled

/-! ## Archive -/

def archive (s : Setup) : Step Unit := do
  let object := s.config.objectPath
  let archive := s.config.archivePath
  if !(← files).isRegularFile object then fail (.objectMissing object)
  runTool s .archiver (Command.archive s.config)
  if !(← files).pathExists archive then fail (.archiveNotMade archive)
  advance .archived

/-! ## Cleanup -/

def cleanup (s : Setup) : Step Unit := do
  let object := s.config.objectPath
  let files ← files
  if !files.pathExists object then fail (.objectVanished object)
  match files.remove object with
  | .ok files => setFiles files
  | .error fault => fail (.cannotRemove object fault)
  advance .done

end Step

end Prebuilt.Build
