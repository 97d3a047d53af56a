import Prebuilt.Path

/-!
# Quoting for the shell

Tools are run by a POSIX shell, so every word of a command line that
comes from outside is quoted. Single quotes keep everything literal but
a single quote, which is closed, escaped and opened again. A name made
of harmless bytes only is left bare.
-/

namespace Prebuilt.Command

/-- A byte that means itself to the shell wherever it stands in a word. -/
def isHarmless (c : UInt8) : Bool :=
  Byte.isAlphanumeric c || (Bytes.ofString "/._-+,:=@").contains c

/-- A byte between single quotes. -/
def quoteByte (c : UInt8) : Bytes := if c = '\'' then "'\\''" else [c]

/-- Any text as one word. -/
def quote (word : Bytes) : Bytes :=
  "'" ++ word.flatMap quoteByte ++ "'"

/-- A tool name as one word, quoted only where it has to be. -/
def quoteName (name : Bytes) : Bytes :=
  if name ≠ [] ∧ name.all isHarmless then name else quote name

/-- A path as one word, with forward slashes. -/
def quotePath (p : Path) : Bytes := quote p.withForwardSlashes

end Prebuilt.Command
