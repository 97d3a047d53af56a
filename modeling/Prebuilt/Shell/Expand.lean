import Prebuilt.Shell.Pattern
import Prebuilt.Shell.State
import Prebuilt.Shell.Word

/-!
# Expanding words

A word is first made a row of *pieces* (`pieces`): text that stays as it
is, values that are still to be split, and boundaries between fields.
From the pieces come either one text (`joined`), for an assignment, a
redirection or the subject of a case, or the fields that make up a
command (`fields`), which are then matched against file names.

How the output of a command is found is a parameter, so that nothing
here depends on the commands there are.
-/

namespace Prebuilt.Shell

/-- The output of a command, given by its source. -/
abbrev Substitution := State → Bytes → Bytes × State

inductive Piece where
  | text (quoted : Bool) (b : Bytes)
  /-- A value to be split at the separators. -/
  | value (b : Bytes)
  /-- The end of a field; it makes an empty one only if it is quoted. -/
  | boundary (quoted : Bool)
  /-- A parameter that had to be set is not. -/
  | refused
deriving Repr, DecidableEq

namespace Piece

/-- The piece as it counts between double quotes. -/
def enquote : Piece → Piece
  | .text _ b => .text true b
  | .value b => .text true b
  | .boundary _ => .boundary true
  | .refused => .refused

/-- The piece as it counts within an expansion that is not quoted. -/
def expose : Piece → Piece
  | .text false b => .value b
  | p => p

def glyphs : Piece → List Glyph
  | .text quoted b => b.map (·, quoted)
  | .value b => b.map (·, false)
  | .boundary _ => [(' ', false)]
  | .refused => []

end Piece

/-- The bytes of the pieces put together. -/
def joined (ps : List Piece) : Bytes := (ps.flatMap Piece.glyphs).map (·.1)

/-! ## Parameters -/

/-- A value, quoted or still to be split. -/
def Piece.ofValue (quoted : Bool) (b : Bytes) : Piece := if quoted then .text true b else .value b

/-- The value of a parameter with one value. -/
def State.parameter? (s : State) (name : Bytes) : Option Bytes :=
  if name = "#" then some (Bytes.ofNat s.arguments.length)
  else if name = "?" then some (Bytes.ofNat s.status)
  else if name = "$" then some (Bytes.ofNat s.process)
  else if name = "-" ∨ name = "!" then some []
  else
    match number? name with
    | some 0 => some s.name
    | some (n + 1) => s.arguments[n]?
    | none => s.value? name

/-- All arguments: fields of their own, or for `*` in double quotes one
text with the first separator in between. -/
def State.allArguments (s : State) (quoted : Bool) (name : Bytes) : List Piece :=
  if quoted ∧ name = "*" then
    [.text true (List.intercalate (s.separators.take 1) s.arguments)]
  else (s.arguments.map fun a => Piece.ofValue quoted a).intersperse (.boundary quoted)

def isAllArguments (name : Bytes) : Bool := name = "@" || name = "*"

/-- The output of a command without the newlines at its end. -/
def trimOutput (b : Bytes) : Bytes :=
  ((b.filter (· ≠ 0)).reverse.dropWhile (· = '\n'.toUInt8)).reverse

/-! ## Pieces -/

/-- Pieces of a nested word in the place of its parameter. -/
def within (quoted : Bool) (found : List Piece × State) : List Piece × State :=
  (found.1.map (if quoted then Piece.enquote else Piece.expose), found.2)

/-- The value of a parameter changed as its modifier asks. `nested`
gives the pieces of the modifier's word. -/
def modified (nested : State → Bytes → List Piece × State) (s : State) (quoted : Bool)
    (name : Bytes) (modifier : Modifier) : List Piece × State :=
  let value := s.parameter? name
  let current := value.getD []
  match modifier with
  | .plain => ([.ofValue quoted current], s)
  | .length => ([.ofValue quoted (Bytes.ofNat current.length)], s)
  | .trim front longest text =>
      let (ps, s) := nested s text
      let pattern := Pattern.parse (ps.flatMap Piece.glyphs)
      ([.ofValue quoted (pattern.trim front longest current)], s)
  | .alternative sign colon text =>
      let given := value.any fun v => !colon || v ≠ []
      if sign = '+' then
        if given then within quoted (nested s text) else ([.ofValue quoted []], s)
      else if given then ([.ofValue quoted current], s)
      else if sign = '-' then within quoted (nested s text)
      else if sign = '=' then
        let (ps, s) := nested s text
        ([.ofValue quoted (joined ps)], s.assign name (joined ps))
      else ([.refused], s)

def pieces (output : Substitution) : (depth : Nat) → State → Word → List Piece × State
  | 0, s, _ => ([], s)
  | _, s, [] => ([], s)
  | depth + 1, s, part :: rest =>
      let nested := fun s text =>
        match Word.ofText? text with
        | some w => pieces output depth s w
        | none => ([.refused], s)
      let (first, s) :=
        match part with
        | .literal quoted text => ([.text quoted text], s)
        | .command quoted source =>
            let (text, s) := output s source
            ([.ofValue quoted (trimOutput text)], s)
        | .parameter quoted name modifier =>
            if isAllArguments name then (s.allArguments quoted name, s)
            else modified nested s quoted name modifier
      let (others, s) := pieces output depth s rest
      (first ++ others, s)

/-! ## Fields -/

/-- Fields that are complete, the field under way, and whether the last
one was ended by a blank. -/
structure Fields where
  complete : List (List Glyph)
  current : Option (List Glyph)
  blank : Bool

namespace Fields

def extend (f : Fields) (glyphs : List Glyph) : Fields :=
  { f with current := some (f.current.getD [] ++ glyphs), blank := false }

/-- End the field under way, if there is one. -/
def close (f : Fields) : Fields :=
  match f.current with
  | none => f
  | some field => { f with complete := f.complete ++ [field], current := none }

/-- End a field, an empty one if none is under way. -/
def cut (f : Fields) : Fields := (f.extend []).close

/-- Blanks end a field and may surround any other separator. -/
def split (separators : Bytes) (f : Fields) (c : UInt8) : Fields :=
  if !separators.contains c then f.extend [(c, false)]
  else if isSpace c || c = '\n' then
    if f.current.isSome then { f.close with blank := true } else f
  else if f.blank then { f with blank := false }
  else f.cut

def add (separators : Bytes) (f : Fields) : Piece → Fields
  | .text quoted b => if quoted || b ≠ [] then f.extend (b.map (·, quoted)) else f
  | .value b => b.foldl (split separators) f
  | .boundary quoted => if quoted then f.cut else f.close
  | .refused => f

end Fields

/-- The fields that pieces make up. -/
def fieldsOf (separators : Bytes) (ps : List Piece) : List (List Glyph) :=
  (ps.foldl (Fields.add separators) ⟨[], none, false⟩).close.complete

/-- The word holds all arguments in double quotes. -/
def Word.spreads (w : Word) : Bool :=
  w.any fun
    | .parameter true name _ => name = "@"
    | _ => false

/-- The number of nested words that a word can hold, and more. -/
def Word.depth (w : Word) : Nat :=
  w.foldl (fun n part => n + 1 + nested part) 1
where
  nested : Part → Nat
    | .parameter _ _ (.alternative _ _ text) => text.length
    | .parameter _ _ (.trim _ _ text) => text.length
    | _ => 0

/-- A word as one text; `none` if a parameter it needs is not set. -/
def expandText (output : Substitution) (s : State) (w : Word) : Option Bytes × State :=
  let (ps, s) := pieces output (Word.depth w) s w
  (if ps.contains .refused then none else some (joined ps), s)

/-- A word as a pattern. -/
def expandPattern (output : Substitution) (s : State) (w : Word) : Pattern × State :=
  let (ps, s) := pieces output (Word.depth w) s w
  (Pattern.parse (ps.flatMap Piece.glyphs), s)

/-- The fields of a word. Arguments that are spread where there are none
leave no field. -/
def expandWord (output : Substitution) (s : State) (w : Word) : Option (List Bytes) × State :=
  let (ps, s) := pieces output (Word.depth w) s w
  if ps.contains .refused then (none, s)
  else
    let found := fieldsOf s.separators ps
    let found := if Word.spreads w ∧ s.arguments = [] ∧ found = [[]] then [] else found
    (some (found.flatMap (Pattern.expand s.files)), s)

/-- The fields of all words in their order. -/
def expandWords (output : Substitution) (s : State) :
    List Word → Option (List Bytes) × State
  | [] => (some [], s)
  | w :: rest =>
      match expandWord output s w with
      | (none, s) => (none, s)
      | (some first, s) =>
          let (others, s) := expandWords output s rest
          (others.map (first ++ ·), s)

end Prebuilt.Shell
