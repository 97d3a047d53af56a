import Prebuilt.Shell.Token

/-!
# Printed text

The escapes of `echo` and `printf`, and the conversions of `printf`. An
escape that is not known stands for itself.
-/

namespace Prebuilt.Shell

def octalDigit? (c : UInt8) : Option Nat :=
  if '0' ≤ c && c ≤ '7' then some (c.toNat - 48) else none

/-- The value of at most `digits` octal digits, and what follows them. -/
def octal (digits : Nat) (value : Nat) (b : Bytes) : Nat × Bytes :=
  match digits, b with
  | digits + 1, c :: rest =>
      match octalDigit? c with
      | some d => octal digits (8 * value + d) rest
      | none => (value, b)
  | _, _ => (value, b)

/-- The escapes of one letter. -/
def letterEscape? (c : UInt8) : Option UInt8 :=
  table.lookup c
where
  table : List (UInt8 × UInt8) :=
    [('\\', 92), ('a', 7), ('b', 8), ('e', 27), ('f', 12), ('n', 10), ('r', 13), ('t', 9),
     ('v', 11)]

/-- The byte that the text after a backslash stands for. -/
def escape (rest : Bytes) : Bytes × Bytes :=
  match rest with
  | [] => ("\\", [])
  | c :: more =>
      match octalDigit? c with
      | some _ => ([(octal 3 0 rest).1.toUInt8], (octal 3 0 rest).2)
      | none =>
          match letterEscape? c with
          | some e => ([e], more)
          | none => ("\\", rest)

theorem octal_length_le (digits value : Nat) (b : Bytes) :
    (octal digits value b).2.length ≤ b.length := by
  induction digits generalizing value b with
  | zero => simp [octal]
  | succ digits ih =>
      cases b with
      | nil => simp [octal]
      | cons c rest =>
          simp only [octal]
          split
          · exact Nat.le_trans (ih ..) (Nat.le_succ _)
          · exact Nat.le_refl _

theorem escape_length_le (rest : Bytes) : (escape rest).2.length ≤ rest.length := by
  unfold escape
  split
  · simp
  · split
    · exact octal_length_le ..
    · split <;> simp

/-- The text with its escapes replaced, as `echo` prints it. The flag
tells that `\c` ended all output. An octal value begins with a zero. -/
def unescape (b : Bytes) : Bytes × Bool :=
  match b with
  | [] => ([], false)
  | c :: rest =>
      if c ≠ '\\' then ((c :: (unescape rest).1), (unescape rest).2)
      else
        match rest with
        | [] => ("\\", false)
        | d :: more =>
            if d = 'c' then ([], true)
            else if d = '0' then
              have := octal_length_le 3 0 more
              let after := unescape (octal 3 0 more).2
              ((octal 3 0 more).1.toUInt8 :: after.1, after.2)
            else
              have := escape_length_le (d :: more)
              let after := unescape (escape (d :: more)).2
              ((escape (d :: more)).1 ++ after.1, after.2)
termination_by b.length
decreasing_by all_goals simp_all <;> omega

/-! ## Conversions -/

/-- A conversion of `printf`. -/
structure Conversion where
  leftAligned : Bool := false
  zeroFilled : Bool := false
  plus : Bool := false
  space : Bool := false
  alternate : Bool := false
  width : Nat := 0
  precision : Option Nat := none
deriving Repr, DecidableEq

namespace Conversion

def flags (c : Conversion) : Bytes → Conversion × Bytes
  | [] => (c, [])
  | b :: rest =>
      if b = '-' then flags { c with leftAligned := true } rest
      else if b = '0' then flags { c with zeroFilled := true } rest
      else if b = '+' then flags { c with plus := true } rest
      else if b = ' ' then flags { c with space := true } rest
      else if b = '#' then flags { c with alternate := true } rest
      else (c, b :: rest)

/-- Filled up with blanks to the width. -/
def fill (c : Conversion) (b : Bytes) : Bytes :=
  let blanks := List.replicate (c.width - b.length) ' '.toUInt8
  if c.leftAligned then b ++ blanks else blanks ++ b

def text (c : Conversion) (b : Bytes) : Bytes :=
  c.fill (match c.precision with
    | some n => b.take n
    | none => b)

/-- A number by its sign and its digits. -/
def number (c : Conversion) (sign digits : Bytes) : Bytes :=
  let least := c.precision.getD 1
  let digits := if least = 0 ∧ digits = "0" then [] else digits
  let digits := List.replicate (least - digits.length) '0'.toUInt8 ++ digits
  let digits :=
    if c.zeroFilled ∧ !c.leftAligned ∧ c.precision.isNone then
      List.replicate (c.width - sign.length - digits.length) '0'.toUInt8 ++ digits
    else digits
  c.fill (sign ++ digits)

def signed (c : Conversion) (n : Int) : Bytes :=
  let sign : Bytes := if n < 0 then "-" else if c.plus then "+" else if c.space then " " else ""
  c.number sign (Bytes.ofNat n.natAbs)

/-- The digits of a number in a base up to sixteen. -/
def digitsIn (base : Nat) (capital : Bool) : (fuel : Nat) → Nat → Bytes
  | 0, _ => []
  | fuel + 1, n =>
      let d := Bytes.hexDigit (n % base).toUInt8
      let d := if capital ∧ Byte.isLower d then d - 32 else d
      if n < base then [d] else digitsIn base capital fuel (n / base) ++ [d]

/-- Numbers below zero are printed as their remainder modulo 2 to the 64. -/
def unsigned (c : Conversion) (base : Nat) (capital : Bool) (n : Int) : Bytes :=
  let n := (n % 0x10000000000000000).toNat
  let sign : Bytes :=
    if c.alternate ∧ n ≠ 0 then
      if base = 16 then (if capital then "0X" else "0x") else if base = 8 then "0" else ""
    else ""
  c.number sign (digitsIn base capital 64 n)

end Conversion

/-- The value of a digit in a base up to sixteen. -/
def digitIn? (base : Nat) (c : UInt8) : Option Nat :=
  let value :=
    if Byte.isDigit c then c.toNat - 48
    else if Byte.isLower c then c.toNat - 87
    else if Byte.isUpper c then c.toNat - 55
    else base
  if value < base then some value else none

/-- The base of a number, by its first digits, and what follows the mark
of the base. -/
def baseOf (b : Bytes) : Nat × Bytes :=
  match b with
  | zero :: x :: digit :: rest =>
      if zero ≠ '0' then (10, b)
      else if (x = 'x' ∨ x = 'X') ∧ (digitIn? 16 digit).isSome then (16, digit :: rest)
      else (8, b)
  | zero :: _ => (if zero = '0' then 8 else 10, b)
  | [] => (10, b)

/-- The value of the digits at the front, and what follows them. -/
def leadingNumber (base value : Nat) : Bytes → Nat × Bytes
  | [] => (value, [])
  | c :: rest =>
      match digitIn? base c with
      | some d => leadingNumber base (base * value + d) rest
      | none => (value, c :: rest)

/-- The value of a numeric argument, kept within 64 bits; the flag tells
that it is no number. A quote stands for the code of the byte after it. -/
def numericArgument (b : Bytes) : Int × Bool :=
  match b.dropWhile isSpace with
  | [] => (0, b ≠ [])
  | c :: rest =>
      if c = '"' ∨ c = '\'' then (Int.ofNat ((rest.head?.map (·.toNat)).getD 0), false)
      else
        let (base, digits) := baseOf (if c = '-' ∨ c = '+' then rest else c :: rest)
        let (n, left) := leadingNumber base 0 digits
        let value : Int := if c = '-' then -n else n
        let kept := max (-0x8000000000000000) (min value 0x7fffffffffffffff)
        (kept, digits = [] || left ≠ [] || kept ≠ value)

/-- The state of one `printf`: what was printed, the arguments left,
whether any was taken, and the exit status. -/
structure Printing where
  printed : Bytes
  arguments : List Bytes
  took : Bool
  status : Nat
  /-- All output has ended. -/
  ended : Bool
deriving Repr, DecidableEq

namespace Printing

def print (p : Printing) (b : Bytes) : Printing := { p with printed := p.printed ++ b }

def take (p : Printing) : Bytes × Printing :=
  match p.arguments with
  | [] => ([], { p with took := true })
  | a :: rest => (a, { p with arguments := rest, took := true })

/-- A width or a precision: digits, or a star that takes an argument. -/
def size (p : Printing) (b : Bytes) : (Nat × Bytes) × Printing :=
  match b with
  | c :: rest =>
      if c = '*' then
        let (a, p) := p.take
        (((numericArgument a).1.toNat, rest), p)
      else
        let digits := b.takeWhile Byte.isDigit
        (((number? digits).getD 0, b.drop digits.length), p)
  | [] => ((0, []), p)

/-- Print one argument as its conversion asks; `none` for a letter that
is no conversion. -/
def convert? (p : Printing) (c : Conversion) (letter : UInt8) : Option Printing :=
  let (a, taken) := p.take
  let (n, faulty) := numericArgument a
  let counted := { taken with status := if faulty then 1 else taken.status }
  if letter = 's' then some (taken.print (c.text a))
  else if letter = 'c' then some (taken.print (c.text [a.head?.getD 0]))
  else if letter = 'b' then
    let (b, ended) := unescape a
    some { taken.print (c.text b) with ended := ended }
  else if letter = 'd' ∨ letter = 'i' then some (counted.print (c.signed n))
  else if letter = 'u' then some (counted.print (c.unsigned 10 false n))
  else if letter = 'o' then some (counted.print (c.unsigned 8 false n))
  else if letter = 'x' then some (counted.print (c.unsigned 16 false n))
  else if letter = 'X' then some (counted.print (c.unsigned 16 true n))
  else none

/-- A conversion after its percent sign. -/
def conversion (p : Printing) (b : Bytes) : Option (Printing × Bytes) :=
  let (c, b) := Conversion.flags {} b
  let ((width, b), p) := p.size b
  let c := { c with width := width }
  let ((c, b), p) :=
    match b with
    | dot :: rest =>
        if dot = '.' then
          let ((n, b), p) := p.size rest
          (({ c with precision := some n }, b), p)
        else ((c, b), p)
    | [] => ((c, b), p)
  match b with
  | letter :: rest => (p.convert? c letter).map (·, rest)
  | [] => none

/-- A conversion that is none ends the output. -/
def refuse (p : Printing) : Printing := { p with status := 2, ended := true }

/-- Print a format once. -/
def once : (fuel : Nat) → Printing → Bytes → Printing
  | 0, p, _ => p
  | _, p, [] => p
  | fuel + 1, p, c :: rest =>
      if p.ended then p
      else if c = '\\' then
        let (b, rest) := escape rest
        once fuel (p.print b) rest
      else if c = '%' then
        match rest with
        | [] => p.refuse
        | d :: more =>
            if d = '%' then once fuel (p.print "%") more
            else
              match p.conversion rest with
              | some (p, rest) => once fuel p rest
              | none => p.refuse
      else once fuel (p.print [c]) rest

/-- Print a format as often as it takes to use up the arguments. -/
def all : (fuel : Nat) → Printing → Bytes → Printing
  | 0, p, _ => p
  | fuel + 1, p, format =>
      let p := once (format.length + 1) { p with took := false } format
      if p.ended ∨ !p.took ∨ p.arguments = [] then p else all fuel p format

end Printing

/-- What `printf` prints, and its exit status. -/
def printf (format : Bytes) (arguments : List Bytes) : Bytes × Nat :=
  let p := Printing.all (arguments.length + 1) ⟨[], arguments, false, 0, false⟩ format
  (p.printed, p.status)

/-- What `echo` prints. -/
def echo (arguments : List Bytes) : Bytes :=
  let (newline, arguments) :=
    match arguments with
    | first :: rest => if first = "-n" then (false, rest) else (true, arguments)
    | [] => (true, [])
  let (text, ended) := unescape (List.intercalate " " arguments)
  if newline ∧ !ended then text ++ "\n" else text

end Prebuilt.Shell
