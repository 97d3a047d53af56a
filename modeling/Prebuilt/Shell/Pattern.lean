import Prebuilt.FileTree.Resolve

/-!
# Patterns of the shell

A pattern matches a text as a whole: `*` stands for any bytes, `?` for
one, and brackets for one byte of a class; what was quoted stands for
itself. Patterns select the arms of a case, trim values, and are
replaced by the file names they match.
-/

namespace Prebuilt.Shell

/-- One step of a pattern. -/
inductive Glob where
  | byte (b : UInt8)
  | one
  | any
  /-- One byte within these ranges, or outside of them. -/
  | range (inside : Bool) (ranges : List (UInt8 × UInt8))
deriving Repr, DecidableEq

abbrev Pattern := List Glob

/-- A byte of an expanded word, with the mark that it was quoted. -/
abbrev Glyph := UInt8 × Bool

namespace Pattern

/-- The bytes of a class up to its closing bracket. -/
def classBody : List Glyph → Option (Bytes × List Glyph)
  | [] => none
  | (c, quoted) :: rest =>
      if c = ']' ∧ quoted = false then some ([], rest)
      else (classBody rest).map fun f => (c :: f.1, f.2)

/-- The ranges that the bytes of a class spell. -/
def classRanges : Bytes → List (UInt8 × UInt8)
  | a :: dash :: b :: rest =>
      if dash = '-' then (a, b) :: classRanges rest
      else (a, a) :: classRanges (dash :: b :: rest)
  | a :: rest => (a, a) :: classRanges rest
  | [] => []

/-- The class after an opening bracket. A bracket that comes first does
not close it. -/
def classOf? (rest : List Glyph) : Option (Glob × List Glyph) :=
  let (inside, rest) :=
    match rest with
    | (c, false) :: more => if c = '!' then (false, more) else (true, rest)
    | _ => (true, rest)
  match rest with
  | [] => none
  | (c, _) :: more =>
      (classBody more).map fun f => (.range inside (classRanges (c :: f.1)), f.2)

/-- A pattern as it is written. A bracket that opens no class stands for
itself. -/
def ofGlyphs : (fuel : Nat) → List Glyph → Pattern
  | 0, _ => []
  | _, [] => []
  | fuel + 1, (c, quoted) :: rest =>
      if quoted then .byte c :: ofGlyphs fuel rest
      else if c = '*' then .any :: ofGlyphs fuel rest
      else if c = '?' then .one :: ofGlyphs fuel rest
      else if c = '[' then
        match classOf? rest with
        | some (glob, rest) => glob :: ofGlyphs fuel rest
        | none => .byte c :: ofGlyphs fuel rest
      else .byte c :: ofGlyphs fuel rest

def parse (glyphs : List Glyph) : Pattern := ofGlyphs (glyphs.length + 1) glyphs

/-- The pattern stands for more than one text. -/
def isWild (p : Pattern) : Bool :=
  p.any fun
    | .byte _ => false
    | _ => true

def inRanges (ranges : List (UInt8 × UInt8)) (c : UInt8) : Bool :=
  ranges.any fun r => r.1 ≤ c && c ≤ r.2

/-- The pattern matches the whole text. -/
def fits : Pattern → Bytes → Bool
  | [], b => b = []
  | .byte c :: p, b =>
      match b with
      | [] => false
      | d :: rest => d = c && fits p rest
  | .one :: p, b =>
      match b with
      | [] => false
      | _ :: rest => fits p rest
  | .range inside ranges :: p, b =>
      match b with
      | [] => false
      | d :: rest => (inRanges ranges d = inside) && fits p rest
  | .any :: p, b =>
      fits p b ||
        match b with
        | [] => false
        | _ :: rest => fits (.any :: p) rest
termination_by p b => (p.length, b.length)

/-! ## Trimming -/

/-- A value without the beginning or the end that the pattern matches. -/
def trim (p : Pattern) (front longest : Bool) (value : Bytes) : Bytes :=
  let cuts := List.range (value.length + 1)
  let matching := cuts.filter fun n =>
    if front then p.fits (value.take n) else p.fits (value.drop n)
  let wanted := if front = longest then matching.getLast? else matching.head?
  match wanted with
  | none => value
  | some n => if front then value.drop n else value.take n

/-! ## File names -/

/-- A field cut at its slashes. -/
def components : List Glyph → List (List Glyph)
  | [] => [[]]
  | (c, q) :: rest =>
      if c = '/' then [] :: components rest
      else
        match components rest with
        | [] => [[(c, q)]]
        | piece :: pieces => ((c, q) :: piece) :: pieces

/-- The names in a directory that fit. A leading dot is only matched by a
dot. -/
def namesThatFit (p : Pattern) (names : List Bytes) : List Bytes :=
  names.filter fun name =>
    p.fits name && (name.head? ≠ some '.'.toUInt8 || p.head? = some (.byte '.'))

/-- The paths that fit the components, each with what precedes it. -/
def pathsFrom (files : FileTree) (front : Bytes) : List (List Glyph) → List Bytes
  | [] => []
  | [last] => step last
  | piece :: rest =>
      (step piece).flatMap fun path =>
        if piece = [] ∨ files.isDirectory path then pathsFrom files (path ++ "/") rest else []
where
  step (piece : List Glyph) : List Bytes :=
    let p := parse piece
    if p.isWild then
      let dir : Path := if front = [] then "." else front
      match files.resolve dir with
      | .ok l => (namesThatFit p ([Bytes.ofString ".", ".."] ++ files.names l)).map (front ++ ·)
      | .error _ => []
    else [front ++ piece.map (·.1)]

/-- The paths that a field stands for: those it matches, or its own text
if it is no pattern or matches none. -/
def expand (files : FileTree) (field : List Glyph) : List Bytes :=
  let own := field.map (·.1)
  if (parse field).isWild then
    match (pathsFrom files [] (components field)).filter fun path => files.pathExists path with
    | [] => [own]
    | found => found.mergeSort
  else [own]

end Pattern

end Prebuilt.Shell
