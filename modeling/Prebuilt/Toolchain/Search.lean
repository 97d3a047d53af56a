import Prebuilt.Config
import Prebuilt.Environment
import Prebuilt.Event
import Prebuilt.FileTree.Resolve

/-!
# Searching for tools

A tool that the configuration does not name is taken from the
environment, or else searched for. The compiler is the first known
cross compiler that is found. The archiver is the compiler's sibling,
its name with `ar` in place of `gcc`, if that is found, and the host's
`ar` otherwise.

A search finds regular files and does not ask whether they can be run.
-/

namespace Prebuilt

/-- The compiler used when nothing is configured or found. -/
def defaultCompiler : Bytes := "riscv64-unknown-elf-gcc"

/-- The cross compilers that are searched for, best first. -/
def compilerCandidates : List Bytes :=
  [defaultCompiler, "riscv32-unknown-elf-gcc", "riscv-none-elf-gcc", "riscv-none-embed-gcc",
    "riscv64-linux-gnu-gcc"]

/-- The directories that programs are searched in. -/
def Environment.searchPath (env : Environment) : List Path :=
  (List.splitOn ':'.toUInt8 (env.valueOf "PATH")).filter (· ≠ [])

/-- Find a program: by its path if the name holds a slash of either
kind, otherwise in the first directory of the search path that has it. -/
def findProgram? (env : Environment) (files : FileTree) (name : Bytes) : Option Path :=
  if name = [] then none
  else if name.any (fun c => c = '/' ∨ c = '\\') then
    if files.isRegularFile name then some name else none
  else (env.searchPath.map (Path.join · name)).find? fun p => files.isRegularFile p

namespace Toolchain

/-- The first text that is not empty. -/
def firstNonempty (first second : Bytes) (otherwise : Bytes) : Bytes :=
  if first ≠ [] then first else if second ≠ [] then second else otherwise

def findCompiler (env : Environment) (files : FileTree) (t : Toolchain) : Bytes :=
  firstNonempty t.compiler (env.valueOf "RVBLOB_CC") <|
    (compilerCandidates.find? fun c => (findProgram? env files c).isSome).getD defaultCompiler

/-- The archiver that belongs to a compiler, by its name. -/
def siblingArchiver? (compiler : Bytes) : Option Bytes :=
  match compiler.before? "gcc" with
  | some front => if front = [] then none else some (front ++ "ar")
  | none => none

def findArchiver (env : Environment) (files : FileTree) (t : Toolchain) (compiler : Bytes) :
    Bytes :=
  firstNonempty t.archiver (env.valueOf "RVBLOB_AR") <|
    match siblingArchiver? compiler with
    | some sibling => if (findProgram? env files sibling).isSome then sibling else "ar"
    | none => "ar"

/-- Fill in the tools that are not configured. -/
def complete (env : Environment) (files : FileTree) (t : Toolchain) : Toolchain :=
  let compiler := findCompiler env files t
  { t with compiler := compiler, archiver := findArchiver env files t compiler }

end Toolchain

namespace Config

/-- A warning if a tool cannot be found. It is no error yet: running the
tool will tell. -/
def searchWarning (env : Environment) (files : FileTree) (role tool : Bytes) : List Event :=
  if (findProgram? env files tool).isSome then []
  else [.log Log.Level.warn "config" (role ++ " '" ++ tool ++ "' not found on PATH")]

/-- Fill in the tools and tell which they are. -/
def resolveTools (env : Environment) (files : FileTree) (c : Config) : Config × List Event :=
  let t := c.toolchain.complete env files
  ({ c with toolchain := t },
    [.log Log.Level.debug "config"
      ("compiler: " ++ t.compiler ++ ", archiver: " ++ t.archiver ++ ", -march=" ++ t.march
        ++ " -mabi=" ++ t.mabi)]
    ++ searchWarning env files "compiler" t.compiler
    ++ searchWarning env files "archiver" t.archiver)

end Config

end Prebuilt
