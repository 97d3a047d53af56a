import Prebuilt.Config

/-!
# Overrides from the command line

Seven options replace one field of a configuration each. An argument
that is none of them changes nothing and is reported as unknown by the
caller.
-/

namespace Prebuilt.Config

/-- A field that the command line can replace. -/
inductive Field where
  | source
  | outDir
  | archive
  | compiler
  | archiver
  | march
  | mabi
deriving Repr, DecidableEq

namespace Field

def all : List Field := [.source, .outDir, .archive, .compiler, .archiver, .march, .mabi]

/-- The option that replaces the field, up to and with its equals sign. -/
def option : Field → Bytes
  | .source => "--source="
  | .outDir => "--out-dir="
  | .archive => "--archive="
  | .compiler => "--cc="
  | .archiver => "--ar="
  | .march => "--march="
  | .mabi => "--mabi="

def get (c : Config) : Field → Bytes
  | .source => c.source
  | .outDir => c.outDir
  | .archive => c.archive
  | .compiler => c.toolchain.compiler
  | .archiver => c.toolchain.archiver
  | .march => c.toolchain.march
  | .mabi => c.toolchain.mabi

def set (c : Config) (value : Bytes) : Field → Config
  | .source => { c with source := value }
  | .outDir => { c with outDir := value }
  | .archive => { c with archive := value }
  | .compiler => { c with toolchain := { c.toolchain with compiler := value } }
  | .archiver => { c with toolchain := { c.toolchain with archiver := value } }
  | .march => { c with toolchain := { c.toolchain with march := value } }
  | .mabi => { c with toolchain := { c.toolchain with mabi := value } }

theorem get_set (c : Config) (f g : Field) (value : Bytes) :
    g.get (f.set c value) = if g = f then value else g.get c := by
  cases f <;> cases g <;> rfl

end Field

/-- The field and the value that an argument names. -/
def override? (arg : Bytes) : Option (Field × Bytes) :=
  Field.all.findSome? fun f => (arg.after? f.option).map (f, ·)

/-- The configuration after one override, if the argument is one. -/
def applyOverride? (c : Config) (arg : Bytes) : Option Config :=
  (override? arg).map fun o => o.1.set c o.2

end Prebuilt.Config
