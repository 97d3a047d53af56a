import Prebuilt.Bytes

/-!
# Log levels

A level is an integer, and a larger one is more severe. Seven of them
have names; the others are compared like any integer and printed as
`???`. Names are read without regard to case.
-/

namespace Prebuilt.Log

abbrev Level := Int

namespace Level

abbrev trace : Level := 0

abbrev debug : Level := 1

abbrev info : Level := 2

abbrev warn : Level := 3

abbrev error : Level := 4

abbrev fatal : Level := 5

abbrev off : Level := 6

/-- The names of the levels from 0 on. -/
def names : List Bytes := ["TRACE", "DEBUG", "INFO", "WARN", "ERROR", "FATAL", "OFF"]

/-- The name of a level, as log lines show it. -/
def name : Level → Bytes
  | .ofNat n => names[n]?.getD "???"
  | .negSucc _ => "???"

/-- The byte is this capital letter or its small form. -/
def sameLetter (capital c : UInt8) : Bool := c = capital ∨ c = capital + 32

/-- The text spells this capital name, in letters of either case. -/
def spells : (capitals text : Bytes) → Bool
  | [], [] => true
  | u :: capitals, c :: text => sameLetter u c && spells capitals text
  | _, _ => false

/-- The level with this name. -/
def ofName? (text : Bytes) : Option Level :=
  (names.findIdx? (spells · text)).map Int.ofNat

/-- The level with this name, `info` for a name that is none. -/
def ofName (text : Bytes) : Level := (ofName? text).getD info

end Level

end Prebuilt.Log
