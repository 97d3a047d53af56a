import Prebuilt.Log.Level

/-!
# Log records

A record is one message with its level, the topic it belongs to, the
place of the statement that made it, and a time in milliseconds. It has
two written forms, each one line without its end: a JSON object, and
text for people.

A text line shows two things that are not in the record, the reading of
the wall clock and the way a place is written. Both come from a
`Layout`.
-/

namespace Prebuilt.Log

structure Record where
  level : Level
  topic : Bytes
  message : Bytes
  /-- The file that holds the statement, if it is known. -/
  file : Option Bytes
  line : Int
  millis : Int
deriving Repr, DecidableEq

inductive Format where
  | text
  | json
deriving Repr, DecidableEq

/-! ## JSON -/

/-- A byte inside a JSON string. Control bytes are escaped; bytes from
128 on stand for themselves. -/
def escapeByte (c : UInt8) : Bytes :=
  if c = '"' then "\\\""
  else if c = '\\' then "\\\\"
  else if c = '\n' then "\\n"
  else if c = '\r' then "\\r"
  else if c = '\t' then "\\t"
  else if c < 32 then "\\u00" ++ Bytes.hexPair c
  else [c]

def escape (b : Bytes) : Bytes := b.flatMap escapeByte

/-- A file without the directories that lead to it. Either kind of slash
ends a directory. -/
def baseName (file : Bytes) : Bytes := file.afterLast fun c => c = '/' ∨ c = '\\'

/-- The file of a record as it is shown, empty if it is not known. -/
def Record.fileName (r : Record) : Bytes := (r.file.map baseName).getD []

/-- A record as a JSON object with six members in this order. -/
def Record.json (r : Record) : Bytes :=
  "\x7b\"ts\":" ++ Bytes.ofInt r.millis
    ++ ",\"level\":\"" ++ Level.name r.level
    ++ "\",\"module\":\"" ++ escape r.topic
    ++ "\",\"file\":\"" ++ escape r.fileName
    ++ "\",\"line\":" ++ Bytes.ofInt r.line
    ++ ",\"msg\":\"" ++ escape r.message ++ "\"\x7d"

/-! ## Text -/

/-- What a text line shows besides the record. -/
structure Layout where
  /-- The reading of the wall clock. -/
  clock : Bytes
  /-- How the place of a statement, file and line, is written. -/
  place : Bytes → Int → Bytes

/-- The layout that writes a place as `file:line`. -/
def Layout.plain (clock : Bytes) : Layout :=
  ⟨clock, fun file line => file ++ ":" ++ Bytes.ofInt line⟩

/-- The colour of a level on a terminal, as the escape that turns it on. -/
def colour : Level → Bytes
  | 0 => "\x1b[90m"
  | 1 => "\x1b[36m"
  | 2 => "\x1b[32m"
  | 3 => "\x1b[33m"
  | 4 => "\x1b[31m"
  | 5 => "\x1b[1;31m"
  | _ => ""

def colourReset : Bytes := "\x1b[0m"

/-- The place, shown for the two most verbose levels if it is known. -/
def Record.placeNote (layout : Layout) (r : Record) : Bytes :=
  match r.file with
  | some file =>
      if r.level ≤ Level.debug then " (" ++ layout.place (baseName file) r.line ++ ")" else ""
  | none => ""

/-- A record as text: clock, level in five columns, topic and message. -/
def Record.text (layout : Layout) (colours : Bool) (r : Record) : Bytes :=
  let level := (Level.name r.level).padRight 5
  let shown :=
    if colours ∧ colour r.level ≠ [] then colour r.level ++ level ++ colourReset else level
  layout.clock ++ " " ++ shown ++ " [" ++ r.topic ++ "] " ++ r.message ++ r.placeNote layout

/-- A record as one line of a log, without its end. -/
def Record.written (layout : Layout) (colours : Bool) : Format → Record → Bytes
  | .json, r => r.json
  | .text, r => r.text layout colours

def Record.render (layout : Layout) (colours : Bool) (format : Format) (r : Record) : Bytes :=
  r.written layout colours format ++ "\n"

end Prebuilt.Log
