import Prebuilt.Shell.Token

/-!
# The grammar of the shell

Commands and how they are read from tokens. A script is read one line at
a time (`nextLine`), or several lines where a compound command spans
them, because a shell carries out each line before it looks at the next.
Every reader returns the tokens it leaves, or nothing where the tokens
are no command.
-/

namespace Prebuilt.Shell

structure Redirect where
  descriptor : Nat
  kind : RedirectKind
  target : Word
deriving Repr, DecidableEq

inductive Command where
  | nothing
  | simple (assignments : List (Bytes × Word)) (words : List Word) (redirects : List Redirect)
  | sequence (first second : Command)
  | background (c : Command)
  | andThen (first second : Command)
  | orElse (first second : Command)
  | negate (c : Command)
  | pipe (left right : Command)
  | subshell (c : Command)
  | choice (condition yes no : Command)
  | loop (whileTrue : Bool) (condition body : Command)
  | forEach (name : Bytes) (words : List Word) (body : Command)
  | select (subject : Word) (arms : List (List Word × Command))
  | redirected (c : Command) (redirects : List Redirect)

/-! ## Reserved words -/

/-- Words that begin a command only in a place of their own. -/
def closers : List Bytes := ["then", "else", "elif", "fi", "do", "done", "esac", "\x7d"]

/-- The bare word at the front. -/
def bareWord? : List Token → Option (Bytes × List Token)
  | .word w :: rest => w.bareText?.map (·, rest)
  | _ => none

/-- The tokens after the given bare word. -/
def expectWord (text : Bytes) (ts : List Token) : Option (List Token) :=
  match bareWord? ts with
  | some (found, rest) => if found = text then some rest else none
  | none => none

def skipNewlines : List Token → List Token
  | .newline :: rest => skipNewlines rest
  | ts => ts

/-! ## Simple commands -/

def redirects : (fuel : Nat) → List Token → Option (List Redirect × List Token)
  | 0, _ => none
  | fuel + 1, .redirect d kind :: .word w :: rest =>
      (redirects fuel rest).map fun f => (⟨d, kind, w⟩ :: f.1, f.2)
  | _, .redirect _ _ :: _ => none
  | _, ts => some ([], ts)

/-- A word that assigns a variable: a name, an equals sign, and the
value. The name and the sign are not quoted. -/
def assignment? (w : Word) : Option (Bytes × Word) :=
  match w with
  | .literal false text :: rest =>
      match text.cut? '=' with
      | some (name, value) =>
          if isName name then some (name, if value = [] then rest else .literal false value :: rest)
          else none
      | none => none
  | _ => none

structure SimpleParts where
  assignments : List (Bytes × Word)
  words : List Word
  redirects : List Redirect

/-- Assignments come before the first word; redirections may come
anywhere. -/
def simpleParts (seen : SimpleParts) : List Token → Option (SimpleParts × List Token)
  | .redirect d kind :: .word w :: rest =>
      simpleParts { seen with redirects := seen.redirects ++ [⟨d, kind, w⟩] } rest
  | .redirect _ _ :: _ => none
  | .word w :: rest =>
      match seen.words, assignment? w with
      | [], some a => simpleParts { seen with assignments := seen.assignments ++ [a] } rest
      | _, _ => simpleParts { seen with words := seen.words ++ [w] } rest
  | ts => some (seen, ts)

/-- A simple command has a word, an assignment or a redirection. -/
def simple (ts : List Token) : Option (Command × List Token) :=
  match simpleParts ⟨[], [], []⟩ ts with
  | none => none
  | some (p, rest) =>
      if p.assignments.isEmpty && p.words.isEmpty && p.redirects.isEmpty then none
      else some (.simple p.assignments p.words p.redirects, rest)

/-- The words up to the end of a line or a semicolon. -/
def wordList : List Token → Option (List Word × List Token)
  | .word w :: rest => (wordList rest).map fun f => (w :: f.1, f.2)
  | .operator .semicolon :: rest => some ([], rest)
  | .newline :: rest => some ([], rest)
  | _ => none

/-- The patterns of a case, up to the parenthesis. -/
def patterns : List Token → Option (List Word × List Token)
  | .word w :: .operator .closeParen :: rest => some ([w], rest)
  | .word w :: .operator .pipe :: rest => (patterns rest).map fun f => (w :: f.1, f.2)
  | _ => none

/-- A line of commands may end before these tokens. -/
def endsLine : List Token → Bool
  | [] => true
  | .newline :: _ => true
  | .operator .closeParen :: _ => true
  | .operator .doubleSemicolon :: _ => true
  | ts => (bareWord? ts).any fun f => closers.contains f.1

/-! ## Commands -/

mutual

/-- Lines of commands up to a closing word, a closing parenthesis or the
end of a case. -/
def commandList : (fuel : Nat) → List Token → Option (Command × List Token)
  | 0, _ => none
  | fuel + 1, ts =>
      let ts := skipNewlines ts
      if endsLine ts then some (.nothing, ts)
      else
        match commandLine fuel ts with
        | none => none
        | some (first, rest) =>
            if endsLine rest then
              (commandList fuel rest).map fun f => (.sequence first f.1, f.2)
            else none

/-- Lines of commands of which there has to be one. -/
def someCommands : (fuel : Nat) → List Token → Option (Command × List Token)
  | 0, _ => none
  | fuel + 1, ts => if endsLine (skipNewlines ts) then none else commandList fuel ts

/-- Commands up to the end of the line. -/
def commandLine : (fuel : Nat) → List Token → Option (Command × List Token)
  | 0, _ => none
  | fuel + 1, ts =>
      match andOr fuel ts with
      | none => none
      | some (first, .operator .semicolon :: rest) => more fuel first rest
      | some (first, .operator .background :: rest) => more fuel (.background first) rest
      | some (first, rest) => some (first, rest)

/-- What follows a semicolon on the same line. -/
def more : (fuel : Nat) → Command → List Token → Option (Command × List Token)
  | 0, _, _ => none
  | fuel + 1, first, ts =>
      if endsLine ts then some (first, ts)
      else (commandLine fuel ts).map fun f => (.sequence first f.1, f.2)

def andOr : (fuel : Nat) → List Token → Option (Command × List Token)
  | 0, _ => none
  | fuel + 1, ts =>
      match pipeline fuel ts with
      | none => none
      | some (first, rest) => andOrRest fuel first rest

def andOrRest : (fuel : Nat) → Command → List Token → Option (Command × List Token)
  | 0, _, _ => none
  | fuel + 1, first, ts =>
      match ts with
      | .operator .andIf :: rest =>
          match pipeline fuel (skipNewlines rest) with
          | none => none
          | some (second, rest) => andOrRest fuel (.andThen first second) rest
      | .operator .orIf :: rest =>
          match pipeline fuel (skipNewlines rest) with
          | none => none
          | some (second, rest) => andOrRest fuel (.orElse first second) rest
      | _ => some (first, ts)

def pipeline : (fuel : Nat) → List Token → Option (Command × List Token)
  | 0, _ => none
  | fuel + 1, ts =>
      match expectWord "!" ts with
      | some rest => (pipes fuel rest).map fun f => (.negate f.1, f.2)
      | none => pipes fuel ts

def pipes : (fuel : Nat) → List Token → Option (Command × List Token)
  | 0, _ => none
  | fuel + 1, ts =>
      match command fuel ts with
      | none => none
      | some (left, .operator .pipe :: rest) =>
          (pipes fuel (skipNewlines rest)).map fun f => (.pipe left f.1, f.2)
      | some (left, rest) => some (left, rest)

def command : (fuel : Nat) → List Token → Option (Command × List Token)
  | 0, _ => none
  | fuel + 1, ts =>
      match compound fuel ts with
      | some none => simple ts
      | some (some (c, rest)) =>
          match redirects (rest.length + 1) rest with
          | none => none
          | some ([], rest) => some (c, rest)
          | some (rs, rest) => some (.redirected c rs, rest)
      | none => none

/-- A compound command: `none` if it is faulty, and `some none` if the
tokens begin no compound command. -/
def compound : (fuel : Nat) → List Token → Option (Option (Command × List Token))
  | 0, _ => none
  | fuel + 1, .operator .openParen :: rest =>
      match someCommands fuel rest with
      | some (c, .operator .closeParen :: rest) => some (some (.subshell c, rest))
      | _ => none
  | fuel + 1, ts =>
      match bareWord? ts with
      | none => some none
      | some (text, rest) =>
          if text = "\x7b" then
            match someCommands fuel rest with
            | some (c, rest) => (expectWord "\x7d" rest).map fun rest => some (c, rest)
            | none => none
          else if text = "if" then (conditional fuel rest).map some
          else if text = "while" ∨ text = "until" then
            match someCommands fuel rest with
            | none => none
            | some (condition, rest) =>
                (doGroup fuel rest).map fun f =>
                  some (.loop (text = "while") condition f.1, f.2)
          else if text = "for" then (forLoop fuel rest).map some
          else if text = "case" then (caseCommand fuel rest).map some
          else if closers.contains text then none
          else some none

/-- A conditional after `if` or `elif`. -/
def conditional : (fuel : Nat) → List Token → Option (Command × List Token)
  | 0, _ => none
  | fuel + 1, ts =>
      match someCommands fuel ts with
      | none => none
      | some (condition, rest) =>
      match expectWord "then" rest with
      | none => none
      | some rest =>
      match someCommands fuel rest with
      | none => none
      | some (yes, rest) =>
      match bareWord? rest with
      | none => none
      | some (text, rest) =>
          if text = "fi" then some (.choice condition yes .nothing, rest)
          else if text = "elif" then
            (conditional fuel rest).map fun f => (.choice condition yes f.1, f.2)
          else if text = "else" then
            match someCommands fuel rest with
            | none => none
            | some (no, rest) =>
                (expectWord "fi" rest).map fun rest => (.choice condition yes no, rest)
          else none

def doGroup : (fuel : Nat) → List Token → Option (Command × List Token)
  | 0, _ => none
  | fuel + 1, ts =>
      match expectWord "do" (skipNewlines ts) with
      | none => none
      | some rest =>
      match someCommands fuel rest with
      | none => none
      | some (body, rest) => (expectWord "done" rest).map fun rest => (body, rest)

/-- A loop over words after `for`; without words it runs over the
arguments. -/
def forLoop : (fuel : Nat) → List Token → Option (Command × List Token)
  | 0, _ => none
  | fuel + 1, ts =>
      match bareWord? ts with
      | none => none
      | some (name, rest) =>
          if !isName name then none
          else
            match expectWord "in" (skipNewlines rest) with
            | some rest =>
                match wordList rest with
                | none => none
                | some (words, rest) =>
                    (doGroup fuel rest).map fun f => (.forEach name words f.1, f.2)
            | none =>
                let rest :=
                  match rest with
                  | .operator .semicolon :: rest => rest
                  | rest => rest
                (doGroup fuel rest).map fun f =>
                  (.forEach name [[.parameter true "@" .plain]] f.1, f.2)

def caseCommand : (fuel : Nat) → List Token → Option (Command × List Token)
  | 0, _ => none
  | fuel + 1, ts =>
      match ts with
      | .word subject :: rest =>
          match expectWord "in" (skipNewlines rest) with
          | none => none
          | some rest => (caseArms fuel rest).map fun f => (.select subject f.1, f.2)
      | _ => none

def caseArms : (fuel : Nat) → List Token → Option (List (List Word × Command) × List Token)
  | 0, _ => none
  | fuel + 1, ts =>
      let ts := skipNewlines ts
      match expectWord "esac" ts with
      | some rest => some ([], rest)
      | none =>
          let ts :=
            match ts with
            | .operator .openParen :: rest => rest
            | ts => ts
          match patterns ts with
          | none => none
          | some (ps, rest) =>
          match commandList fuel rest with
          | none => none
          | some (body, .operator .doubleSemicolon :: rest) =>
              (caseArms fuel rest).map fun f => ((ps, body) :: f.1, f.2)
          | some (body, rest) =>
              (expectWord "esac" rest).map fun rest => ([(ps, body)], rest)

end

/-! ## Scripts -/

/-- What the next line of a script is. -/
inductive Line where
  | finished
  | command (c : Command) (rest : List Token)
  | faulty

/-- The next line that holds a command. -/
def nextLine (ts : List Token) : Line :=
  match skipNewlines ts with
  | [] => .finished
  | ts =>
      match commandLine (12 * ts.length + 12) ts with
      | some (c, []) => .command c []
      | some (c, .newline :: rest) => .command c rest
      | _ => .faulty

end Prebuilt.Shell
