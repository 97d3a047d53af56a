import Prebuilt.Shell.Word

/-!
# Tokens of the shell

A script is cut into words, operators, redirections and line ends.
Blanks, comments and joined lines leave no token. A quote or a group
that is never closed gives the token `unfinished` and nothing after it,
so that the lines before it can still be carried out.
-/

namespace Prebuilt.Shell

inductive Operator where
  | semicolon
  | doubleSemicolon
  | background
  | andIf
  | pipe
  | orIf
  | openParen
  | closeParen
deriving Repr, DecidableEq

inductive RedirectKind where
  | input
  | output
  | append
  | readWrite
  | duplicate
deriving Repr, DecidableEq

/-- The descriptor that is redirected if none is written. -/
def RedirectKind.descriptor (input : Bool) : Nat := if input then 0 else 1

inductive Token where
  | word (w : Word)
  | operator (op : Operator)
  | redirect (descriptor : Nat) (kind : RedirectKind)
  | newline
  | unfinished
deriving Repr, DecidableEq

/-! ## Operators -/

/-- The operator that a text begins with. -/
def operator? (b : Bytes) : Option (Operator × Bytes) :=
  table.findSome? fun (sign, op) => (b.after? sign).map (op, ·)
where
  /-- Longer signs come first. -/
  table : List (Bytes × Operator) :=
    [(";;", .doubleSemicolon), ("&&", .andIf), ("||", .orIf), (";", .semicolon),
     ("&", .background), ("|", .pipe), ("(", .openParen), (")", .closeParen)]

/-- The redirection that a text begins with: whether it is for input by
default, its kind, and what follows. -/
def redirectSign? (b : Bytes) : Option ((Bool × RedirectKind) × Bytes) :=
  table.findSome? fun (sign, what) => (b.after? sign).map (what, ·)
where
  table : List (Bytes × (Bool × RedirectKind)) :=
    [(">>", (false, .append)), (">&", (false, .duplicate)), (">|", (false, .output)),
     (">", (false, .output)), ("<&", (true, .duplicate)), ("<>", (true, .readWrite)),
     ("<", (true, .input))]

/-- A redirection, with the descriptor in front of it if there is one. -/
def redirect? (b : Bytes) : Option (Token × Bytes) :=
  let digits := b.takeWhile Byte.isDigit
  match redirectSign? (b.drop digits.length) with
  | none => none
  | some ((input, kind), rest) =>
      some (.redirect ((number? digits).getD (RedirectKind.descriptor input)) kind, rest)

/-! ## The whole text -/

def tokensFrom : (fuel : Nat) → Bytes → List Token
  | 0, _ => []
  | _, [] => []
  | fuel + 1, c :: rest =>
      if isSpace c then tokensFrom fuel rest
      else if c = '\n' then .newline :: tokensFrom fuel rest
      else if c = '#' then tokensFrom fuel (rest.dropWhile (· ≠ '\n'.toUInt8))
      else if c = '\\' ∧ rest.head? = some '\n'.toUInt8 then tokensFrom fuel (rest.drop 1)
      else
        match redirect? (c :: rest) with
        | some (token, rest) => token :: tokensFrom fuel rest
        | none =>
        match operator? (c :: rest) with
        | some (op, rest) => .operator op :: tokensFrom fuel rest
        | none =>
        match Word.scan? (c :: rest) with
        | some (w, rest) => .word w :: tokensFrom fuel rest
        | none => [.unfinished]

def tokens (b : Bytes) : List Token := tokensFrom (b.length + 1) b

end Prebuilt.Shell
