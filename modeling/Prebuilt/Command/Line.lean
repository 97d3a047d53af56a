import Prebuilt.Config
import Prebuilt.Command.Quote

/-!
# Command lines

The three commands that a build and its inspection run, as text for the
shell. Words are separated by single blanks. The options `-mabi` and
`-march` are not quoted, as validation admits only harmless values; nor
are the extra flags, which may hold several words.
-/

namespace Prebuilt.Command

def unwords (words : List Bytes) : Bytes := List.intercalate " " words

/-- Assemble the source into the object. -/
def assemble (c : Config) : Bytes :=
  unwords <|
    [quoteName c.toolchain.compiler, "-c", "-mabi=" ++ c.toolchain.mabi,
      "-march=" ++ c.toolchain.march]
    ++ c.toolchain.flags
    ++ [quotePath c.source, "-o", quotePath c.objectPath]

/-- Put the object into the archive and index it. -/
def archive (c : Config) : Bytes :=
  unwords [quoteName c.toolchain.archiver, "crs", quotePath c.archivePath,
    quotePath c.objectPath]

/-- List the members of an archive. -/
def listMembers (archiver : Bytes) (archive : Path) : Bytes :=
  unwords [quoteName archiver, "t", quotePath archive]

end Prebuilt.Command
