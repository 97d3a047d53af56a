import Prebuilt.Shell.State
import Prebuilt.Shell.Word

/-!
# Utilities

The small programs on files that every system has: what they do to the
tree, and with which status they end. A utility goes on after an error
and ends with status 1 if there was any.
-/

namespace Prebuilt.Shell

/-- A utility, given its arguments. It leaves its status in the state. -/
abbrev Utility := State → List Bytes → State

namespace Utility

/-- The options in front of the operands, put together, and the operands. -/
def options : List Bytes → Bytes × List Bytes
  | [] => ([], [])
  | a :: rest =>
      if a = "--" then ([], rest)
      else
        match a with
        | dash :: letter :: more =>
            if dash = '-' then
              let (others, operands) := options rest
              (letter :: more ++ others, operands)
            else ([], a :: rest)
        | _ => ([], a :: rest)

/-- Do something to every operand; `none` is a failure. -/
def forEach (act : FileTree → Path → Option FileTree) (s : State) (operands : List Path) :
    State :=
  operands.foldl
    (fun s p =>
      match act s.files p with
      | some files => { s with files := files }
      | none => { s with status := 1 })
    { s with status := if operands = [] then 1 else 0 }

def makeDirectory (parents : Bool) (files : FileTree) (p : Path) : Option FileTree :=
  if parents then
    match files.makeDirectories p with
    | (files, none) => some files
    | (_, some _) => none
  else
    match files.resolve p with
    | .error _ => none
    | .ok l => if (files.lookup l).isSome then none else some (files.put l .directory)

def mkdir : Utility := fun s arguments =>
  let (flags, operands) := options arguments
  forEach (makeDirectory (flags.contains 'p')) s operands

def removePath (recursive force : Bool) (files : FileTree) (p : Path) : Option FileTree :=
  if recursive ∧ [Bytes.ofString ".", ".."].contains (FileTree.lastName p) then none
  else
    match files.resolve p with
    | .error e => if force ∧ (e = .missing ∨ e = .notDirectory) then some files else none
    | .ok l =>
        match files.lookup l with
        | none => if force then some files else none
        | some .directory => if recursive ∧ l ≠ [] then some (files.eraseBelow l) else none
        | some (.file ..) => some (files.erase l)

def rm : Utility := fun s arguments =>
  let (flags, operands) := options arguments
  let recursive := flags.contains 'r' || flags.contains 'R'
  let force := flags.contains 'f'
  if operands = [] ∧ force then { s with status := 0 }
  else forEach (removePath recursive force) s operands

/-- Print files one after the other, the standard input without any. -/
def cat : Utility := fun s arguments =>
  if arguments = [] then
    let (bytes, s) := s.readAll 0
    { s.write 1 bytes with status := 0 }
  else
    arguments.foldl
      (fun s p =>
        match s.files.stat p with
        | .ok (.file content _) => s.write 1 content
        | _ => { s with status := 1 })
      { s with status := 0 }

/-- Where a file goes: into the target if that is a directory. -/
def destination (files : FileTree) (source target : Path) : Path :=
  if files.isDirectory target then target.join (FileTree.lastName source) else target

def sameFile (files : FileTree) (p q : Path) : Bool :=
  match files.resolve p, files.resolve q with
  | .ok l, .ok k => l = k
  | _, _ => false

/-- Copy a file. One that is in the way keeps its mode. -/
def copyFile (files : FileTree) (source target : Path) : Option FileTree :=
  let target := destination files source target
  match files.stat source, files.stat target with
  | .ok (.file content _), .ok (.file _ x) =>
      if sameFile files source target then none
      else (files.write target content x).toOption
  | .ok (.file ..), _ => (files.copy source target).toOption
  | _, _ => none

/-- Move a file. One that is in the way is removed first. -/
def moveFile (files : FileTree) (source target : Path) : Option FileTree :=
  let target := destination files source target
  if !files.isRegularFile source || sameFile files source target then none
  else
    match (((files.remove target).toOption).getD files).copy source target with
    | .ok files => (files.remove source).toOption
    | .error _ => none

/-- Take all operands but the last to the last one. -/
def transfer (move : FileTree → Path → Path → Option FileTree) : Utility := fun s arguments =>
  let (_, operands) := options arguments
  match operands.getLast? with
  | none => { s with status := 1 }
  | some target => forEach (fun files source => move files source target) s operands.dropLast

def touch : Utility := fun s arguments =>
  forEach
    (fun files p =>
      if files.isDirectory p then some files else (files.openFile p).toOption.map (·.1))
    s (options arguments).2

/-- Whether a mode lets a file be executed. -/
def executable? (mode : Bytes) : Option Bool :=
  match mode.cut? '+' with
  | some (_, letters) => if letters.contains 'x' then some true else none
  | none =>
      match mode.cut? '-' with
      | some (_, letters) => if letters.contains 'x' then some false else none
      | none => if mode.all Byte.isDigit then some (mode.any fun c => c % 2 = 1) else none

def chmod : Utility := fun s arguments =>
  match arguments with
  | [] => { s with status := 1 }
  | mode :: operands =>
      forEach
        (fun files p =>
          match files.resolve p with
          | .error _ => none
          | .ok l =>
              match files.lookup l with
              | some (.file content x) =>
                  some (files.put l (.file content ((executable? mode).getD x)))
              | some .directory => some files
              | none => none)
        s operands

/-- The utilities by name. -/
def named? (name : Bytes) : Option Utility :=
  table.lookup name
where
  table : List (Bytes × Utility) :=
    [("true", fun s _ => { s with status := 0 }), ("false", fun s _ => { s with status := 1 }),
     ("mkdir", mkdir), ("rm", rm), ("cat", cat), ("cp", transfer copyFile),
     ("mv", transfer moveFile), ("touch", touch), ("chmod", chmod)]

end Utility

end Prebuilt.Shell
