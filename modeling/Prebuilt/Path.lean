import Prebuilt.Bytes

/-!
# Paths

A path is its spelling. Nothing here normalises one: `a//b` and
`a/../b` are joined, cut and printed as they were given, because
messages and command lines quote what the user wrote. Only a forward
slash separates names; a backslash is an ordinary byte until
`withForwardSlashes` turns it into a separator.

What a path leads to is decided by `FileTree.resolve`.
-/

namespace Prebuilt

abbrev Path := Bytes

namespace Path

def isAbsolute (p : Path) : Bool := p.head? = some '/'.toUInt8

/-- The path `name` as seen from the directory `dir`. A slash is added
only where `dir` does not end in one; an absolute name stands for
itself. -/
def join (dir name : Path) : Path :=
  if name.isAbsolute then name
  else if dir = [] ∨ dir.getLast? = some '/'.toUInt8 then dir ++ name
  else dir ++ '/'.toUInt8 :: name

/-- What follows the last slash. -/
def fileName (p : Path) : Bytes := p.afterLast (· = '/')

/-- More than a bare name: some slash occurs. -/
def hasParent (p : Path) : Bool := p.contains '/'.toUInt8

/-- The last dot of the file name and what follows it. A dot that opens
the name starts no extension, so `.a`, `.` and `..` have none. -/
def extension (p : Path) : Bytes :=
  if p.fileName = ".." ∨ '.'.toUInt8 ∉ p.fileName.tail then []
  else '.'.toUInt8 :: p.fileName.afterLast (· = '.')

/-- Every backslash read as a separator. -/
def withForwardSlashes (p : Path) : Path :=
  p.map fun c : UInt8 => if c = '\\' then '/'.toUInt8 else c

/-! ## Joining a bare name -/

theorem isAbsolute_eq_false {name : Path} (h : '/'.toUInt8 ∉ name) :
    name.isAbsolute = false := by
  cases name with
  | nil => rfl
  | cons c rest =>
      simp only [List.mem_cons, not_or] at h
      simp [isAbsolute, Ne.symm h.1]

/-- A joined bare name is read back as the file name. -/
theorem fileName_join {dir name : Path} (h : '/'.toUInt8 ∉ name) :
    (dir.join name).fileName = name := by
  have hname : ∀ c ∈ name.reverse, (!decide (c = '/'.toUInt8)) = true := by
    intro c hc
    have hc' : c ∈ name := List.mem_reverse.mp hc
    simpa using fun e : c = '/'.toUInt8 => h (e ▸ hc')
  have hcut : ∀ front : Path, front = [] ∨ front.getLast? = some '/'.toUInt8 →
      (front ++ name).afterLast (· = '/') = name := by
    intro front hfront
    unfold Bytes.afterLast
    rw [List.reverse_append, List.takeWhile_append_of_pos hname]
    rcases hfront with rfl | hfront
    · simp
    · obtain ⟨f, rfl⟩ := List.getLast?_eq_some_iff.mp hfront
      simp
  unfold join fileName
  rw [isAbsolute_eq_false h]
  simp only [Bool.false_eq_true, if_false]
  split
  · rename_i hdir
    exact hcut dir hdir
  · have := hcut (dir ++ ['/'.toUInt8]) (.inr (by simp))
    simpa using this

end Path

end Prebuilt
