import Prebuilt.Command.Line
import Prebuilt.FileTree.Resolve
import Prebuilt.Sha256
import Prebuilt.Tool

/-!
# Archives

Three questions about archives: which members one has, what its content
hashes to, and which archives lie in a directory. None of them changes
anything, apart from what the archiver does when it is asked for the
members.
-/

namespace Prebuilt.Archive

/-! ## Members -/

inductive MembersError where
  | notFound (archive : Path)
  | toolFailed (archiver : Bytes) (exitCode : Int)
deriving Repr, DecidableEq

def MembersError.message : MembersError → Bytes
  | .notFound archive => "archive not found: " ++ archive
  | .toolFailed archiver exitCode =>
      "'" ++ archiver ++ " t' failed with exit code " ++ Bytes.ofInt exitCode

/-- Blank at either end of a line of output. -/
def isLineBlank (c : UInt8) : Bool := c = ' ' || c = '\t' || c = '\r' || c = '\n'

/-- The names in the output of the archiver, one to a line. -/
def memberNames (output : Bytes) : List Bytes :=
  ((List.splitOn '\n'.toUInt8 output).map (Bytes.trim isLineBlank)).filter (· ≠ [])

/-- What asking for the members gives, and the tree the archiver leaves. -/
structure Listing where
  members : Except MembersError (List Bytes)
  files : FileTree
  events : List Event

def listMembers (tools : Tools) (files : FileTree) (archiver : Bytes) (archive : Path) :
    Listing :=
  if files.isRegularFile archive then
    let result := tools.capture (Command.listMembers archiver archive) files
    { members :=
        if result.exitCode = 0 then .ok (memberNames result.output)
        else .error (.toolFailed archiver result.exitCode)
      files := result.files
      events := result.events }
  else { members := .error (.notFound archive), files := files, events := [] }

/-! ## Digests -/

/-- A file that is open for reading. -/
structure Input where
  /-- The bytes that are still to be read. -/
  ahead : Bytes
  /-- An earlier read has met the end before it had all that it asked for. -/
  short : Bool
deriving Repr, DecidableEq

namespace Input

def opened (content : Bytes) : Input := ⟨content, false⟩

/-- Ask for so many bytes. What there is before the end is delivered, and
after a read that fell short nothing more is. -/
def read (size : Nat) (i : Input) : Bytes × Input :=
  if i.short then ([], i)
  else (i.ahead.take size, ⟨i.ahead.drop size, decide (i.ahead.length < size)⟩)

/-- Where a read was complete or has delivered something, it has brought
the input nearer to its end. -/
theorem length_ahead_read {size : Nat} {i : Input} (hsize : 0 < size)
    (h : (i.read size).2.short = false ∨ (i.read size).1 ≠ []) :
    (i.read size).2.ahead.length < i.ahead.length := by
  obtain ⟨ahead, short⟩ := i
  cases short with
  | true => simp [read] at h
  | false =>
      simp only [read, Bool.false_eq_true, if_false, decide_eq_false_iff_not, Nat.not_lt, ne_eq,
        List.take_eq_nil_iff, List.length_drop] at h ⊢
      have hne : 0 < ahead.length := h.elim (Nat.lt_of_lt_of_le hsize)
        fun hne => List.length_pos_iff.mpr fun hnil => hne (Or.inr hnil)
      omega

end Input

/-- A message digest, as the library that computes it offers it: a state
that takes the message piece by piece and gives the hash in the end. Each
of its calls can fail. -/
structure Digester where
  State : Type
  start : Option State
  update : State → Bytes → Option State
  finish : State → Option Bytes

/-- Files are hashed in pieces of this size. -/
def pieceSize : Nat := 4096

/-- Give a digest what is read, up to the first read that falls short and
delivers nothing. -/
def feed (d : Digester) (i : Input) (s : d.State) : Option d.State :=
  let done := i.read pieceSize
  if done.2.short = false ∨ done.1 ≠ [] then
    match d.update s done.1 with
    | none => none
    | some s => feed d done.2 s
  else some s
termination_by i.ahead.length
decreasing_by exact Input.length_ahead_read (by decide) ‹_›

def hashText (digest : Bytes) : Bytes := "sha256:" ++ digest.flatMap Bytes.hexPair

/-- The hash of a file, empty if it cannot be read or the digest fails.
Only a digest that cannot be started is reported. -/
def hashFile (d : Digester) (files : FileTree) (path : Path) : Bytes × List Event :=
  match files.read? path with
  | none => ([], [])
  | some content =>
      match d.start with
      | none => ([], [.log Log.Level.error "build" "SHA-256 initialization failed"])
      | some s =>
          match (feed d (.opened content) s).bind d.finish with
          | none => ([], [])
          | some hash => (hashText hash, [])

/-- SHA-256 of this library. It never fails. -/
def sha256 : Digester where
  State := Sha256.Hasher
  start := some .start
  update := fun s piece => some (s.update piece)
  finish := fun s => some s.finish

/-- The hash of a file by `sha256`, which leaves nothing to report
(`hashFile_sha256`). -/
def fileHash (files : FileTree) (path : Path) : Bytes := (hashFile sha256 files path).1

/-! ## Archives in a directory -/

structure ListError where
  dir : Path
  fault : Fault
deriving Repr, DecidableEq

def ListError.message (e : ListError) : Bytes :=
  "cannot list " ++ e.dir ++ ": " ++ e.fault.message

/-- The archives among the names of a directory, in whatever order they
were read: the regular files with this extension, ascending. -/
def among (files : FileTree) (l : Location) (ext : Bytes) (order : List Bytes) : List Bytes :=
  (order.filter fun name =>
    ((files.lookup (l ++ [name])).any Entry.isFile) && Path.extension name = ext).mergeSort

/-- The archives directly in a directory. One that does not exist has
none. -/
def find (files : FileTree) (dir : Path) (ext : Bytes) : Except ListError (List Path) :=
  match files.resolve dir with
  | .error _ => .ok []
  | .ok l =>
      match files.lookup l with
      | none => .ok []
      | some (.file ..) => .error ⟨dir, .notDirectory⟩
      | some .directory => .ok ((among files l ext (files.names l)).map (Path.join dir ·))

end Prebuilt.Archive
