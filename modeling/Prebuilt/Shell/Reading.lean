import Prebuilt.Shell.Pattern
import Prebuilt.Shell.Word

/-!
# Reading a line into variables

`read` cuts a line at the separators. Every variable but the last takes
one field, and the last takes the rest of the line without the blanks
around it. A backslash takes the meaning from the byte after it, unless
the line is read raw.
-/

namespace Prebuilt.Shell

/-- The bytes of a line, marked if a backslash stands before them. -/
def unescapeLine : Bytes → List Glyph
  | [] => []
  | [c] => if c = '\\' then [] else [(c, false)]
  | c :: d :: rest =>
      if c = '\\' then (d, true) :: unescapeLine rest
      else (c, false) :: unescapeLine (d :: rest)

def isSeparator (separators : Bytes) (g : Glyph) : Bool := !g.2 && separators.contains g.1

/-- A separator that is a blank. -/
def isBlankSeparator (separators : Bytes) (g : Glyph) : Bool :=
  isSeparator separators g && isSpace g.1

/-- What follows the separator at the front, with the blanks around it. -/
def afterSeparator (separators : Bytes) (line : List Glyph) : List Glyph :=
  match line.dropWhile (isBlankSeparator separators) with
  | g :: rest =>
      if isSeparator separators g then rest.dropWhile (isBlankSeparator separators)
      else g :: rest
  | [] => []

/-- The values of the variables. -/
def fieldValues (separators : Bytes) : (count : Nat) → List Glyph → List Bytes
  | 0, _ => []
  | 1, line =>
      [((line.reverse.dropWhile (isBlankSeparator separators)).reverse).map (·.1)]
  | n + 1, line =>
      (line.takeWhile fun g => !isSeparator separators g).map (·.1)
        :: fieldValues separators n
            (afterSeparator separators (line.dropWhile fun g => !isSeparator separators g))

/-- A line as the values of this many variables. -/
def splitLine (separators : Bytes) (raw : Bool) (count : Nat) (line : Bytes) :
    List Bytes :=
  let glyphs := if raw then line.map (·, false) else unescapeLine line
  fieldValues separators count (glyphs.dropWhile (isBlankSeparator separators))

end Prebuilt.Shell
