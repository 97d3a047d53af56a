import Prebuilt.Path

/-!
# Build configurations

What a build needs to know: the source, where the archive and the object
go, which tools make them, and the linker scripts that belong to the
result. The defaults build the archive of one particular board support
library.

`Config.problem?` is the first reason to refuse a configuration. It
keeps `march` and `mabi` to letters, digits and underscores, so that
they need no quoting on a command line, and it keeps archive and object
to two different file names inside the output directory.
-/

namespace Prebuilt

structure Toolchain where
  /-- Empty if the compiler is to be searched for. -/
  compiler : Bytes := []
  /-- Empty if the archiver is to be searched for. -/
  archiver : Bytes := []
  march : Bytes := "rv32imac"
  mabi : Bytes := "ilp32"
  /-- Options for the assembler, each put on the command line as it is. -/
  flags : List Bytes := []
deriving Repr, DecidableEq

structure Config where
  name : Bytes := "gd32vf103xx-hal"
  source : Path := Bytes.ofString "rebase-hack.S"
  outDir : Path := Bytes.ofString "bin"
  archive : Bytes := "gd32vf103xx-hal.a"
  object : Bytes := "rebase-hack.o"
  /-- Files in the output directory with this extension are archives. -/
  archiveExtension : Bytes := ".a"
  toolchain : Toolchain := {}
  linkScripts : List Bytes := [Bytes.ofString "device.x"]
deriving Repr, DecidableEq

namespace Config

def archivePath (c : Config) : Path := Path.join c.outDir c.archive

def objectPath (c : Config) : Path := Path.join c.outDir c.object

/-! ## Validation -/

/-- Why a configuration is refused. -/
inductive Problem where
  | emptySource
  | emptyOutDir
  | emptyObject
  | archiveName (archive extension : Bytes)
  | sameFile
  | notFileNames
  | march (value : Bytes)
  | mabi (value : Bytes)
deriving Repr, DecidableEq

def Problem.message : Problem → Bytes
  | .emptySource => "source must not be empty"
  | .emptyOutDir => "out_dir must not be empty"
  | .emptyObject => "object must not be empty"
  | .archiveName archive extension =>
      "archive '" ++ archive ++ "' must end in '" ++ extension ++ "'"
  | .sameFile => "archive and object must be different files"
  | .notFileNames => "archive and object are file names inside out_dir, not paths"
  | .march value =>
      "unsupported -march '" ++ value ++ "' (expected an rv32 profile, e.g. rv32imac)"
  | .mabi value =>
      "unsupported -mabi '" ++ value ++ "' (expected ilp32, ilp32e, ilp32f or ilp32d)"

end Config

/-- A byte of an instruction-set name. -/
def isProfileByte (c : UInt8) : Bool := Byte.isLower c || Byte.isDigit c || c = '_'

/-- An instruction-set name of the 32-bit family: `rv32`, a base, and
any extensions. -/
def isProfile (march : Bytes) : Bool :=
  match march.after? "rv32" with
  | some (base :: _) =>
      (base = 'i' || base = 'e' || base = 'g') && march.all isProfileByte
  | _ => false

/-- A calling convention of the 32-bit family. -/
def isCallingConvention (mabi : Bytes) : Bool :=
  mabi = "ilp32" || mabi = "ilp32e" || mabi = "ilp32f" || mabi = "ilp32d"

def Toolchain.problem? (t : Toolchain) : Option Config.Problem :=
  if !isProfile t.march then some (.march t.march)
  else if !isCallingConvention t.mabi then some (.mabi t.mabi)
  else none

namespace Config

/-- The archive has a name before its extension, which is not empty. -/
def archiveNamed (c : Config) : Bool :=
  c.archiveExtension ≠ [] &&
    match c.archive.before? c.archiveExtension with
    | some front => front ≠ []
    | none => false

/-- The first reason to refuse the configuration. -/
def problem? (c : Config) : Option Problem :=
  if c.source = [] then some .emptySource
  else if c.outDir = [] then some .emptyOutDir
  else if c.object = [] then some .emptyObject
  else if !c.archiveNamed then some (.archiveName c.archive c.archiveExtension)
  else if c.archive = c.object then some .sameFile
  else if Path.hasParent c.archive || Path.hasParent c.object then some .notFileNames
  else c.toolchain.problem?

def Valid (c : Config) : Prop := c.problem? = none

instance (c : Config) : Decidable c.Valid := inferInstanceAs (Decidable (_ = _))

end Config

end Prebuilt
