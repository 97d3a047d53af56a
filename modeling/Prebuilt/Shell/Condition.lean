import Prebuilt.FileTree.Resolve
import Prebuilt.Shell.Word

/-!
# Conditions

What `test` finds: it asks about texts, numbers and files. How the
arguments are read depends on how many there are, so that texts that
look like operators can be compared.
-/

namespace Prebuilt.Shell

/-- A number with an optional sign, blanks around it. -/
def integer? (b : Bytes) : Option Int :=
  match b.trim isSpace with
  | [] => none
  | c :: rest =>
      if c = '-' then (number? rest).map fun n => -(n : Int)
      else if c = '+' then (number? rest).map Int.ofNat
      else (number? (c :: rest)).map Int.ofNat

namespace Condition

/-- Questions about one text. -/
def unary? (files : FileTree) (operator text : Bytes) : Option Bool :=
  table.lookup operator
where
  table : List (Bytes × Bool) :=
    [("-n", text ≠ []), ("-z", text = []), ("-f", files.isRegularFile text),
     ("-d", files.isDirectory text), ("-e", files.pathExists text),
     ("-r", files.pathExists text), ("-w", files.pathExists text),
     ("-x", executable), ("-s", size ≠ 0), ("-h", false), ("-L", false)]
  executable : Bool :=
    match files.stat text with
    | .ok (.file _ x) => x
    | .ok .directory => true
    | .error _ => false
  size : Nat :=
    match files.stat text with
    | .ok (.file content _) => content.length
    | .ok .directory => 1
    | .error _ => 0

/-- Comparisons of two numbers. -/
def numeric? (operator : Bytes) (a b : Int) : Option Bool :=
  table.lookup operator
where
  table : List (Bytes × Bool) :=
    [("-eq", a = b), ("-ne", a ≠ b), ("-lt", a < b), ("-le", a ≤ b), ("-gt", b < a),
     ("-ge", b ≤ a)]

/-- Comparisons of two texts; `none` if the operator is none, and
`some none` if a number was asked for and not given. -/
def binary? (a operator b : Bytes) : Option (Option Bool) :=
  if operator = "=" ∨ operator = "==" then some (some (a = b))
  else if operator = "!=" then some (some (a ≠ b))
  else if operator = "<" then some (some (a < b))
  else if operator = ">" then some (some (b < a))
  else
    match integer? a, integer? b with
    | some m, some n => (numeric? operator m n).map some
    | _, _ => if (numeric? operator 0 0).isSome then some none else none

/-! ## Longer conditions

Alternatives are joined by `-o`, and within them conditions by `-a`; a
condition can be denied or put in parentheses. -/

mutual

def either? (files : FileTree) : (fuel : Nat) → List Bytes → Option (Bool × List Bytes)
  | 0, _ => none
  | fuel + 1, words =>
      match both? files fuel words with
      | none => none
      | some (first, rest) =>
          if rest.head? = some "-o" then
            (either? files fuel (rest.drop 1)).map fun f => (first || f.1, f.2)
          else some (first, rest)

def both? (files : FileTree) : (fuel : Nat) → List Bytes → Option (Bool × List Bytes)
  | 0, _ => none
  | fuel + 1, words =>
      match single? files fuel words with
      | none => none
      | some (first, rest) =>
          if rest.head? = some "-a" then
            (both? files fuel (rest.drop 1)).map fun f => (first && f.1, f.2)
          else some (first, rest)

def single? (files : FileTree) : (fuel : Nat) → List Bytes → Option (Bool × List Bytes)
  | 0, _ => none
  | _, [] => none
  | fuel + 1, first :: rest =>
      if first = "!" then (single? files fuel rest).map fun f => (!f.1, f.2)
      else
        match rest with
        | [] => some (first ≠ [], [])
        | second :: more =>
            match more.head?.bind (binary? first second) with
            | some answer => answer.map (·, more.drop 1)
            | none =>
                match unary? files first second with
                | some answer => some (answer, more)
                | none =>
                    if first = "(" then
                      match either? files fuel rest with
                      | some (answer, close :: rest) =>
                          if close = ")" then some (answer, rest) else none
                      | _ => none
                    else some (first ≠ [], rest)

end

/-- The answer to a whole condition. -/
def whole? (files : FileTree) (words : List Bytes) : Option Bool :=
  match either? files (4 * words.length + 4) words with
  | some (answer, []) => some answer
  | _ => none

/-- The answer, or `none` for a question that is not understood. -/
def holds? (files : FileTree) (words : List Bytes) : Option Bool :=
  match words with
  | [] => some false
  | [a] => some (a ≠ [])
  | [op, a] => if op = "!" then some (a = []) else unary? files op a
  | [a, op, b] =>
      match binary? a op b with
      | some answer => answer
      | none => whole? files words
  | _ => whole? files words

end Condition

/-- The exit status that tells the answer. -/
def Condition.status (files : FileTree) (arguments : List Bytes) : Nat :=
  match holds? files arguments with
  | some true => 0
  | some false => 1
  | none => 2

end Prebuilt.Shell
