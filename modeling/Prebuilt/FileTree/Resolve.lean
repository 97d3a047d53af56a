import Prebuilt.FileTree.Basic

/-!
# Where a path leads

A path is read name by name from the working directory, or from the
root if it is absolute. Every name but the last must lead to a directory
that exists; the last one may be free, which is what creating a file
needs. An empty name and `.` stay where they are but still ask for a
directory, so `file/` leads nowhere when `file` is a file.

`stat` is the answer to every question about what exists.
-/

namespace Prebuilt

/-- Why the file system refuses. -/
inductive Fault where
  | missing
  | notDirectory
  | isDirectory
  | occupied
  | notEmpty
  | invalid
  | busy
  | nameTooLong
deriving Repr, DecidableEq

def Fault.message : Fault → Bytes
  | .missing => "No such file or directory"
  | .notDirectory => "Not a directory"
  | .isDirectory => "Is a directory"
  | .occupied => "File exists"
  | .notEmpty => "Directory not empty"
  | .invalid => "Invalid argument"
  | .busy => "Device or resource busy"
  | .nameTooLong => "File name too long"

namespace FileTree

/-- A name that stays where it is. -/
def staysPut (name : Bytes) : Bool := name = [] ∨ name = "."

/-- The longest name a directory can hold, in bytes. -/
def maxName : Nat := 255

/-- The shortest path, in bytes, that is refused for its length. -/
def pathLimit : Nat := 4096

/-- Follow the names from `here`. -/
def walk (t : FileTree) (here : Location) : List Bytes → Except Fault Location
  | [] => .ok here
  | name :: rest =>
      match t.lookup here with
      | none => .error .missing
      | some (.file ..) => .error .notDirectory
      | some .directory =>
          if staysPut name then walk t here rest
          else if name = ".." then walk t here.dropLast rest
          else if maxName < name.length then .error .nameTooLong
          else walk t (here ++ [name]) rest

/-- Where reading a path starts. -/
def start (t : FileTree) (p : Path) : Location :=
  if p.isAbsolute then [] else t.workingDirectory

/-- The location a path leads to. -/
def resolve (t : FileTree) (p : Path) : Except Fault Location :=
  if p = [] then .error .missing
  else if pathLimit ≤ p.length then .error .nameTooLong
  else t.walk (t.start p) (List.splitOn '/'.toUInt8 p)

/-- What a path leads to. -/
def stat (t : FileTree) (p : Path) : Except Fault Entry :=
  match t.resolve p with
  | .error e => .error e
  | .ok l =>
      match t.lookup l with
      | none => .error .missing
      | some e => .ok e

def pathExists (t : FileTree) (p : Path) : Bool := (t.stat p).isOk

def isDirectory (t : FileTree) (p : Path) : Bool :=
  match t.stat p with
  | .ok e => e.isDirectory
  | .error _ => false

def isRegularFile (t : FileTree) (p : Path) : Bool :=
  match t.stat p with
  | .ok e => e.isFile
  | .error _ => false

/-- The bytes a reader gets from a path. A directory can be opened and
holds none; what does not exist cannot be opened. -/
def read? (t : FileTree) (p : Path) : Option Bytes :=
  match t.stat p with
  | .ok .directory => some []
  | .ok (.file content _) => some content
  | .error _ => none

/-- Creating files in the directory is possible. -/
def isWritable (t : FileTree) (dir : Path) : Bool := t.isDirectory dir

theorem stat_eq_ok_iff {t : FileTree} {p : Path} {e : Entry} :
    t.stat p = .ok e ↔ ∃ l, t.resolve p = .ok l ∧ t.lookup l = some e := by
  unfold stat
  split
  · simp_all
  · split <;> simp_all

theorem pathExists_eq_true_iff {t : FileTree} {p : Path} :
    t.pathExists p = true ↔ ∃ e, t.stat p = .ok e := by
  unfold pathExists
  cases t.stat p <;> simp [Except.isOk, Except.toBool]

theorem isRegularFile_eq_true_iff {t : FileTree} {p : Path} :
    t.isRegularFile p = true ↔ ∃ content x, t.stat p = .ok (.file content x) := by
  unfold isRegularFile
  cases t.stat p with
  | error e => simp
  | ok e => cases e <;> simp [Entry.isFile]

theorem isDirectory_eq_true_iff {t : FileTree} {p : Path} :
    t.isDirectory p = true ↔ t.stat p = .ok .directory := by
  unfold isDirectory
  cases t.stat p with
  | error e => simp
  | ok e => cases e <;> simp [Entry.isDirectory]

end FileTree

end Prebuilt
