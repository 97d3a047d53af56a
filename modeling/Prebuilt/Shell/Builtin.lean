import Prebuilt.Shell.Format
import Prebuilt.Shell.Reading
import Prebuilt.Shell.Signal
import Prebuilt.Shell.State

/-!
# Built-in commands

The commands that a shell carries out itself and that run no others. The
*special* ones end the shell when they fail, and keep the values that
were assigned in front of them.
-/

namespace Prebuilt.Shell

abbrev Builtin := State → List Bytes → Flow × State

namespace Builtin

/-- The status of an error that ends the shell. -/
def failure (s : State) : Flow × State := (.exit, { s with status := 2 })

/-- The optional number that some commands take. -/
def count? (default : Nat) : List Bytes → Option Nat
  | [] => some default
  | a :: _ =>
      match integer? a with
      | some (.ofNat n) => if n < 0x80000000 then some n else none
      | _ => none

/-! ## Special ones -/

def exit : Builtin := fun s arguments =>
  match count? s.status arguments with
  | some n => (.exit, { s with status := n % 256 })
  | none => failure s

def shift : Builtin := fun s arguments =>
  match count? 1 arguments with
  | some n =>
      if n ≤ s.arguments.length then
        State.succeed { s with arguments := s.arguments.drop n } 0
      else failure s
  | none => failure s

def leave (flow : Nat → Flow) : Builtin := fun s arguments =>
  match count? 1 arguments with
  | some (n + 1) => (flow (n + 1), { s with status := 0 })
  | _ => failure s

def markExported : Builtin := fun s arguments =>
  (arguments.foldl
    (fun s a =>
      match a.cut? '=' with
      | some (name, value) => (s.assign name value).markExported name
      | none => s.markExported a)
    s).succeed 0

def unset : Builtin := fun s arguments =>
  ((arguments.filter isName).foldl State.unset s).succeed 0

/-- New arguments for the shell. Options are accepted and change nothing. -/
def set : Builtin := fun s arguments =>
  match arguments with
  | [] => s.succeed 0
  | first :: rest =>
      if first = "--" then State.succeed { s with arguments := rest } 0
      else if first.head? = some '-'.toUInt8 ∨ first.head? = some '+'.toUInt8 then s.succeed 0
      else State.succeed { s with arguments := arguments } 0

def nothing : Builtin := fun s _ => s.succeed 0

/-- The special commands by name. -/
def special? (name : Bytes) : Option Builtin :=
  table.lookup name
where
  table : List (Bytes × Builtin) :=
    [(":", nothing), ("exit", exit), ("return", exit), ("shift", shift),
     ("break", leave .breakLoop), ("continue", leave .continueLoop),
     ("export", markExported), ("unset", unset), ("set", set), ("trap", nothing),
     ("times", nothing)]

/-! ## Regular ones -/

def echo : Builtin := fun s arguments => s.print (Shell.echo arguments) 0

def printf : Builtin := fun s arguments =>
  match arguments with
  | [] => s.succeed 2
  | first :: rest =>
      if first = "--" then
        match rest with
        | [] => s.succeed 2
        | format :: values => formatted s format values
      else if (first.after? "-").any (· ≠ []) then s.succeed 2
      else formatted s first rest
where
  formatted (s : State) (format : Bytes) (values : List Bytes) : Flow × State :=
    let (text, status) := Shell.printf format values
    s.print text status

def read : Builtin := fun s arguments =>
  let raw := arguments.head? = some "-r"
  let names := if raw then arguments.drop 1 else arguments
  if names = [] then s.succeed 2
  else
    let ((line, complete), s) := s.readLine 0
    let values := splitLine s.separators raw names.length (line.filter (· ≠ 0))
    let s := (names.zip values).foldl (fun s v => s.assign v.1 v.2) s
    s.succeed (if complete then 0 else 1)

def test : Builtin := fun s arguments => s.succeed (Condition.status s.files arguments)

/-- A test between brackets. -/
def bracket : Builtin := fun s arguments =>
  if arguments.getLast? = some "]" then test s arguments.dropLast else s.succeed 2

def cd : Builtin := fun s arguments =>
  let target := arguments.head?.getD ((s.value? "HOME").getD [])
  if s.files.isDirectory target then
    match s.files.resolve target with
    | .ok l => State.succeed { s with files := { s.files with workingDirectory := l } } 0
    | .error _ => s.succeed 2
  else s.succeed 2

def pwd : Builtin := fun s _ =>
  s.print ("/" ++ List.intercalate "/" s.files.workingDirectory ++ "\n") 0

/-- A shell knows only one process, itself. -/
def kill : Builtin := fun s arguments =>
  match signalArguments? arguments with
  | none => s.succeed 2
  | some (signal, targets) =>
      if targets = [] ∨ targets.any (fun t => (integer? t).isNone) then s.succeed 2
      else if targets.all fun t => t = Bytes.ofNat s.process then
        if Signal.isHarmless signal then s.succeed 0 else (.killed signal, s)
      else s.succeed 1

/-- The regular commands by name. -/
def regular? (name : Bytes) : Option Builtin :=
  table.lookup name
where
  table : List (Bytes × Builtin) :=
    [("true", nothing), ("false", fun s _ => s.succeed 1), ("echo", echo), ("printf", printf),
     ("read", read), ("test", test), ("[", bracket), ("cd", cd), ("pwd", pwd), ("kill", kill),
     ("wait", nothing), ("umask", nothing), ("hash", nothing), ("alias", nothing)]

end Builtin

end Prebuilt.Shell
