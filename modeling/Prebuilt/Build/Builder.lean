import Prebuilt.Build.Step

/-!
# Builders

A builder carries out builds, or the clean step alone, for one setup.
Between two of its runs it remembers nothing but the state that the last
one ended in, and each run starts from `start` again.
-/

namespace Prebuilt.Build

/-- What a build has made. -/
structure Report where
  archive : Path
  /-- The archives that were removed first. -/
  removed : List Path
  hash : Bytes
deriving Repr, DecidableEq

/-- The outcome of a run: its result, the tree it leaves, the state it
ended in, and its events. -/
structure Run (α : Type) where
  result : Except Error α
  progress : Progress

/-- Carry out a step from the start. -/
def Step.runFrom {α : Type} (step : Step α) (files : FileTree) : Run α :=
  let (result, progress) := step.run.run ⟨files, .start, [], []⟩
  ⟨result, progress⟩

/-- The hash of a file. -/
def Step.hash (path : Path) : Step Bytes := do
  let (hash, events) := Archive.hashFile Archive.sha256 (← files) path
  tell events
  return hash

/-- All four steps. -/
def Step.all (s : Setup) : Step Report := do
  log Log.Level.info ("building " ++ s.config.archivePath ++ " from " ++ s.config.source)
  let removed ← clean s
  compile s
  archive s
  cleanup s
  let archive := s.config.archivePath
  return ⟨archive, removed, ← hash archive⟩

/-- Build the archive. -/
def Setup.build (s : Setup) (files : FileTree) : Run Report := (Step.all s).runFrom files

/-- Remove the archives of the output directory. -/
def Setup.clean (s : Setup) (files : FileTree) : Run (List Path) := (Step.clean s).runFrom files

/-- A builder: its setup, and the state its last run ended in. -/
structure Builder where
  setup : Setup
  state : State

namespace Builder

def new (setup : Setup) : Builder := ⟨setup, .start⟩

def build (b : Builder) (files : FileTree) : Builder × Run Report :=
  let run := b.setup.build files
  ({ b with state := run.progress.state }, run)

def clean (b : Builder) (files : FileTree) : Builder × Run (List Path) :=
  let run := b.setup.clean files
  ({ b with state := run.progress.state }, run)

end Builder

end Prebuilt.Build
