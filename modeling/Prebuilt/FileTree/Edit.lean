import Prebuilt.FileTree.Resolve

/-!
# Changing a file tree by path

The edits that the build, the staging and the log need: making a
directory with its parents, removing a file or an empty directory,
copying a file over another, and opening a file for writing. Each
returns the new tree or the fault that stopped it. Only
`makeDirectories` can leave something behind when it fails: the parents
it made before the fault.
-/

namespace Prebuilt.FileTree

/-! ## Directories -/

/-- Make what is missing along the names. `fresh` tells whether an
earlier name was made, in which case a file in the way is met only when
making it. -/
def makeAlong (t : FileTree) (here : Location) (fresh : Bool) :
    List Bytes → FileTree × Option Fault
  | [] => (t, none)
  | name :: rest =>
      if staysPut name then makeAlong t here fresh rest
      else if name = ".." then makeAlong t here.dropLast fresh rest
      else if maxName < name.length then (t, some .nameTooLong)
      else
        match t.lookup (here ++ [name]) with
        | some .directory => makeAlong t (here ++ [name]) fresh rest
        | some (.file ..) =>
            (t, some (if fresh ∨ rest.all (· = []) then .occupied else .notDirectory))
        | none => makeAlong (t.put (here ++ [name]) .directory) (here ++ [name]) true rest

/-- Make a directory and the parents it lacks. -/
def makeDirectories (t : FileTree) (p : Path) : FileTree × Option Fault :=
  if p = [] then (t, some .invalid)
  else if pathLimit ≤ p.length then (t, some .nameTooLong)
  else t.makeAlong (t.start p) false (List.splitOn '/'.toUInt8 p)

/-! ## Removing -/

/-- The last name of a path, slashes at its end left out. -/
def lastName (p : Path) : Bytes :=
  ((List.splitOn '/'.toUInt8 p).filter (· ≠ [])).getLast?.getD []

/-- Remove a file or an empty directory. A directory cannot be removed
under the names `.` and `..`. -/
def remove (t : FileTree) (p : Path) : Except Fault FileTree :=
  match t.resolve p with
  | .error e => .error e
  | .ok l =>
      match t.lookup l with
      | none => .error .missing
      | some (.file ..) => .ok (t.erase l)
      | some .directory =>
          if l = [] then .error .busy
          else if lastName p = "." then .error .invalid
          else if lastName p = ".." then .error .notEmpty
          else if t.names l = [] then .ok (t.erase l)
          else .error .notEmpty

/-! ## Writing -/

/-- Open a path for writing: its location, created empty if it was free. -/
def openFile (t : FileTree) (p : Path) : Except Fault (FileTree × Location) :=
  match t.resolve p with
  | .error e => .error e
  | .ok l =>
      match t.lookup l with
      | some .directory => .error .isDirectory
      | some (.file ..) => .ok (t, l)
      | none => .ok (t.put l (.file [] false), l)

/-- Cut the file at a location to nothing. -/
def truncate (t : FileTree) (l : Location) : FileTree :=
  match t.lookup l with
  | some (.file _ x) => t.put l (.file [] x)
  | _ => t

/-- Give a path this content, whatever file was there. -/
def write (t : FileTree) (p : Path) (content : Bytes) (executable : Bool) :
    Except Fault FileTree :=
  match t.openFile p with
  | .error e => .error e
  | .ok (t, l) => .ok (t.put l (.file content executable))

/-- Copy a file over whatever file is at the target. The two must be
different files. -/
def copy (t : FileTree) (source target : Path) : Except Fault FileTree :=
  match t.resolve source with
  | .error e => .error e
  | .ok l =>
      match t.lookup l with
      | none => .error .missing
      | some .directory => .error .invalid
      | some (.file content x) =>
          match t.openFile target with
          | .error .isDirectory => .error .invalid
          | .error e => .error e
          | .ok (t, k) =>
              if k = l then .error .occupied else .ok (t.put k (.file content x))

/-! ## Open files -/

/-- A file that was opened. -/
structure Handle where
  location : Location
  /-- How often the location had been emptied by then. -/
  age : Nat
deriving Repr, DecidableEq

/-- The handle of the file at a location. -/
def handle (t : FileTree) (l : Location) : Handle := ⟨l, t.emptied.count l⟩

/-- The content of an open file and whether it can be executed, unless
it was removed. -/
def opened? (t : FileTree) (h : Handle) : Option (Bytes × Bool) :=
  match t.lookup h.location with
  | some (.file content x) => if h = t.handle h.location then some (content, x) else none
  | _ => none

/-- Bytes added at the end of an open file, lost if it was removed. -/
def append (t : FileTree) (h : Handle) (more : Bytes) : FileTree :=
  match t.opened? h with
  | some (content, x) => t.put h.location (.file (content ++ more) x)
  | none => t

theorem lookup_append_of_ne (t : FileTree) {h : Handle} {k : Location}
    (hk : k ≠ h.location) (more : Bytes) : (t.append h more).lookup k = t.lookup k := by
  unfold append
  split
  · by_cases hroot : k = []
    · simp [hroot]
    · simp [lookup_put, hroot, hk]
  · rfl

end Prebuilt.FileTree
