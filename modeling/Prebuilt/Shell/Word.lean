import Prebuilt.Bytes

/-!
# Words of the shell

A word of a command line is a row of parts: literal text, and places
where a parameter or the output of a command is put in. Each part knows
whether it was quoted, since only what was not quoted is split into
fields and matched against file names.

`Word.scan?` reads the longest word that the text begins with. Text in
parentheses or braces after a dollar sign is kept as it stands and read
when it is expanded.
-/

namespace Prebuilt.Shell

/-- What is done with the value of a parameter. -/
inductive Modifier where
  | plain
  | length
  /-- The signs `-`, `=`, `?` and `+`; with a colon an empty value counts
  as unset. -/
  | alternative (sign : UInt8) (colon : Bool) (word : Bytes)
  /-- The signs `#` and `%` trim the shortest match at the front or the
  back, doubled the longest. -/
  | trim (front longest : Bool) (pattern : Bytes)
deriving Repr, DecidableEq

inductive Part where
  | literal (quoted : Bool) (text : Bytes)
  | parameter (quoted : Bool) (name : Bytes) (modifier : Modifier)
  | command (quoted : Bool) (source : Bytes)
deriving Repr, DecidableEq

abbrev Word := List Part

/-! ## Bytes with a meaning -/

def isSpace (c : UInt8) : Bool := c = ' ' || c = '\t'

def isNameStart (c : UInt8) : Bool := Byte.isLower c || Byte.isUpper c || c = '_'

def isNameByte (c : UInt8) : Bool := isNameStart c || Byte.isDigit c

def isName (b : Bytes) : Bool :=
  match b with
  | [] => false
  | c :: rest => isNameStart c && rest.all isNameByte

/-- A number in decimal digits. -/
def number? (b : Bytes) : Option Nat :=
  if b ≠ [] ∧ b.all Byte.isDigit then
    some (b.foldl (fun n d => 10 * n + (d.toNat - 48)) 0)
  else none

/-- A byte that ends a word if it is not quoted. -/
def endsWord (c : UInt8) : Bool :=
  isSpace c || (Bytes.ofString "\n;&|<>()").contains c

def backquote : UInt8 := 96

/-- The parameters whose names are single signs. -/
def isSpecialParameter (c : UInt8) : Bool := (Bytes.ofString "@*#?-$!").contains c

/-! ## Nested text -/

inductive Quoting where
  | bare
  | single
  | double
deriving Repr, DecidableEq

/-- The text up to the sign that closes a group and what follows it.
Groups of the same kind may be nested; quoted signs do not count. -/
def balanced (opening closing : UInt8) : (depth : Nat) → Quoting → Bytes →
    Option (Bytes × Bytes)
  | _, _, [] => none
  | depth, .single, c :: rest =>
      keep c (balanced opening closing depth (if c = '\'' then .bare else .single) rest)
  | depth, mode, c :: rest =>
      if c = '\\' then
        match rest with
        | [] => none
        | e :: rest => keep c (keep e (balanced opening closing depth mode rest))
      else if c = '"' then
        keep c (balanced opening closing depth (if mode = .double then .bare else .double) rest)
      else if mode = .double then keep c (balanced opening closing depth mode rest)
      else if c = '\'' then keep c (balanced opening closing depth .single rest)
      else if c = opening then keep c (balanced opening closing (depth + 1) mode rest)
      else if c = closing then
        match depth with
        | 0 => some ([], rest)
        | depth + 1 => keep c (balanced opening closing depth mode rest)
      else keep c (balanced opening closing depth mode rest)
where
  /-- A byte of the group. -/
  keep (c : UInt8) (found : Option (Bytes × Bytes)) : Option (Bytes × Bytes) :=
    found.map fun f => (c :: f.1, f.2)

/-- The source of a command in backquotes and what follows it. -/
def backquoted : Bytes → Option (Bytes × Bytes)
  | [] => none
  | c :: rest =>
      if c = backquote then some ([], rest)
      else if c = '\\' then
        match rest with
        | [] => none
        | e :: rest =>
            (backquoted rest).map fun f =>
              (if e = backquote ∨ e = '\\' ∨ e = '$' then e :: f.1 else c :: e :: f.1, f.2)
      else (backquoted rest).map fun f => (c :: f.1, f.2)

/-! ## Parameters -/

/-- What stands between the name of a parameter and the closing brace. -/
def Modifier.ofText? (text : Bytes) : Option Modifier :=
  match text with
  | [] => some .plain
  | c :: rest =>
      if c = ':' then
        match rest with
        | [] => none
        | sign :: word =>
            if (Bytes.ofString "-=?+").contains sign then some (.alternative sign true word)
            else none
      else if (Bytes.ofString "-=?+").contains c then some (.alternative c false rest)
      else if c = '#' ∨ c = '%' then
        match rest with
        | [] => some (.trim (c = '#') false [])
        | d :: more => if d = c then some (.trim (c = '#') true more)
            else some (.trim (c = '#') false rest)
      else none

/-- The name of a parameter that a text begins with. -/
def parameterName (text : Bytes) : Bytes :=
  match text with
  | [] => []
  | c :: _ =>
      if isNameStart c then text.takeWhile isNameByte
      else if Byte.isDigit c then text.takeWhile Byte.isDigit
      else if isSpecialParameter c then [c]
      else []

/-- The parameter that the text in braces stands for. -/
def bracedParameter? (quoted : Bool) (text : Bytes) : Option Part :=
  match text.after? "#" with
  | some name =>
      if name ≠ [] ∧ parameterName name = name then some (.parameter quoted name .length)
      else braced text
  | none => braced text
where
  braced (text : Bytes) : Option Part :=
    let name := parameterName text
    if name = [] then none
    else (Modifier.ofText? (text.drop name.length)).map (.parameter quoted name ·)

/-- What a dollar sign stands for together with the text after it. -/
def dollar? (quoted : Bool) (rest : Bytes) : Option (Part × Bytes) :=
  match rest with
  | [] => some (.literal quoted "$", [])
  | c :: more =>
      if c = '(' then
        (balanced '(' ')' 0 .bare more).map fun f => (.command quoted f.1, f.2)
      else if c = '\x7b' then
        match balanced '\x7b' '\x7d' 0 .bare more with
        | none => none
        | some (text, rest) => (bracedParameter? quoted text).map (·, rest)
      else if isNameStart c then
        some (.parameter quoted (rest.takeWhile isNameByte) .plain, rest.dropWhile isNameByte)
      else if Byte.isDigit c ∨ isSpecialParameter c then
        some (.parameter quoted [c] .plain, more)
      else some (.literal quoted "$", rest)

/-! ## Scanning -/

/-- A literal part before others, joined to the next if that is like it. -/
def consLiteral (quoted : Bool) (text : Bytes) : Word → Word
  | .literal q more :: rest =>
      if q = quoted then .literal q (text ++ more) :: rest
      else .literal quoted text :: .literal q more :: rest
  | rest => .literal quoted text :: rest

/-- The rest of a text between double quotes. -/
def scanDouble : (fuel : Nat) → Bytes → Option (Word × Bytes)
  | 0, _ => none
  | _, [] => none
  | fuel + 1, c :: rest =>
      if c = '"' then some ([.literal true []], rest)
      else if c = '\\' then
        match rest with
        | [] => none
        | e :: more =>
            if e = '\n' then scanDouble fuel more
            else if e = backquote ∨ (Bytes.ofString "$\"\\").contains e then
              (scanDouble fuel more).map fun f => (consLiteral true [e] f.1, f.2)
            else (scanDouble fuel rest).map fun f => (consLiteral true [c] f.1, f.2)
      else if c = '$' then
        match dollar? true rest with
        | none => none
        | some (part, rest) => (scanDouble fuel rest).map fun f => (part :: f.1, f.2)
      else if c = backquote then
        match backquoted rest with
        | none => none
        | some (source, rest) =>
            (scanDouble fuel rest).map fun f => (.command true source :: f.1, f.2)
      else (scanDouble fuel rest).map fun f => (consLiteral true [c] f.1, f.2)

/-- Scan outside of quotes, up to a byte that ends words or, if the whole
text is one word, up to its end. -/
def scanBare (whole : Bool) : (fuel : Nat) → Bytes → Option (Word × Bytes)
  | 0, _ => none
  | _, [] => some ([], [])
  | fuel + 1, c :: rest =>
      if !whole && endsWord c then some ([], c :: rest)
      else if c = '\'' then
        match Bytes.cut? '\'' rest with
        | none => none
        | some (text, rest) =>
            (scanBare whole fuel rest).map fun f => (consLiteral true text f.1, f.2)
      else if c = '"' then
        match scanDouble fuel rest with
        | none => none
        | some (parts, rest) => (scanBare whole fuel rest).map fun f => (parts ++ f.1, f.2)
      else if c = '\\' then
        match rest with
        | [] => some ([.literal true [c]], [])
        | e :: rest =>
            if e = '\n' then scanBare whole fuel rest
            else (scanBare whole fuel rest).map fun f => (consLiteral true [e] f.1, f.2)
      else if c = '$' then
        match dollar? false rest with
        | none => none
        | some (part, rest) => (scanBare whole fuel rest).map fun f => (part :: f.1, f.2)
      else if c = backquote then
        match backquoted rest with
        | none => none
        | some (source, rest) =>
            (scanBare whole fuel rest).map fun f => (.command false source :: f.1, f.2)
      else (scanBare whole fuel rest).map fun f => (consLiteral false [c] f.1, f.2)

/-- The word that a text begins with, empty if it begins with none, and
what follows it. There is none if a quote or a group is not closed. -/
def Word.scan? (b : Bytes) : Option (Word × Bytes) := scanBare false (b.length + 1) b

/-- The whole text as one word. -/
def Word.ofText? (b : Bytes) : Option Word := (scanBare true (b.length + 1) b).map (·.1)

/-- The text of a word of which nothing was quoted or expanded. -/
def Word.bareText? : Word → Option Bytes
  | [.literal false text] => some text
  | _ => none

end Prebuilt.Shell
