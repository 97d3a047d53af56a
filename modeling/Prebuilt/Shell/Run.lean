import Prebuilt.Shell.Builtin
import Prebuilt.Shell.Expand
import Prebuilt.Shell.Grammar
import Prebuilt.Shell.Utility

/-!
# Carrying out commands

A script is carried out line by line. Every command leaves a state and
says how to go on (`Flow`). A subshell keeps its variables, its working
directory and its descriptors to itself, but what it does to files and
streams stays; a program started by the shell also gets a process of its
own, and of the variables only those that are exported.

A script may loop for ever, so the number of steps is given.
-/

namespace Prebuilt.Shell

/-- Go on only after a command that asks for nothing else. -/
def andNext (r : Flow × State) (k : State → Flow × State) : Flow × State :=
  match r with
  | (.next, s) => k s
  | other => other

/-! ## Redirections -/

/-- The stream that a file name leads to, opened as the kind asks. -/
def State.openPath (s : State) (kind : RedirectKind) (p : Path) : Option (State × Stream) :=
  match s.files.resolve p with
  | .error _ => none
  | .ok l =>
      if l = [Bytes.ofString "dev", "null"] then some (s, .null)
      else if kind = .input then
        (s.files.lookup l).map fun _ => (s, .file (s.files.handle l) 0 false)
      else
        match s.files.openFile p with
        | .error _ => none
        | .ok (files, l) =>
            let files := if kind = .output then files.truncate l else files
            some ({ s with files := files }, .file (files.handle l) 0 (kind = .append))

/-- Let a descriptor lead to where the target says. -/
def State.redirect (s : State) (descriptor : Nat) (kind : RedirectKind) (target : Bytes) :
    Option State :=
  if kind = .duplicate then
    if target = "-" then some (s.closeDescriptor descriptor)
    else
      match number? target with
      | none => none
      | some n => (s.descriptors.lookup n).map (s.attach descriptor)
  else (s.openPath kind target).map fun f => f.1.openStream descriptor f.2

/-- All redirections of a command. The flag tells that one failed; those
after it are not made. -/
def redirectAll (output : Substitution) (s : State) : List Redirect → State × Bool
  | [] => (s, false)
  | r :: rest =>
      match expandText output s r.target with
      | (none, s) => (s, true)
      | (some target, s) =>
          match s.redirect r.descriptor r.kind target with
          | none => (s, true)
          | some s => redirectAll output s rest

/-- The descriptors as they were before a command. -/
def State.restore (before : State) (r : Flow × State) : Flow × State :=
  (r.1, { r.2 with descriptors := before.descriptors })

/-! ## Assignments -/

def assignAll (output : Substitution) (s : State) : List (Bytes × Word) → Option State
  | [] => some s
  | (name, w) :: rest =>
      match expandText output s w with
      | (none, _) => none
      | (some value, s) => assignAll output (s.assign name value) rest

/-- The variables of these names as they were before a command. -/
def State.withdrawn (before : State) (names : List Bytes) (r : Flow × State) : Flow × State :=
  (r.1,
   { r.2 with
     bindings := before.bindings.filter (fun v => names.contains v.1)
       ++ r.2.bindings.filter (fun v => !names.contains v.1) })

def holdsCommand (w : Word) : Bool :=
  w.any fun
    | .command .. => true
    | _ => false

/-- The command ends the shell if it fails. -/
def isSpecial (name : Bytes) : Bool :=
  (Builtin.special? name).isSome || [Bytes.ofString "exec", "eval", "."].contains name

/-! ## Programs -/

/-- What a command name leads to. -/
inductive Program where
  | missing
  /-- There is a file, but none that can be executed. -/
  | refused
  | found (path : Path)
deriving Repr, DecidableEq

/-- What executing a path would do. -/
def executable (files : FileTree) (p : Path) : Program :=
  match files.stat p with
  | .error _ => .missing
  | .ok .directory => .refused
  | .ok (.file _ x) => if x then .found p else .refused

/-- The files with this name in the directories of the search path. -/
def filesOnPath (files : FileTree) (searchPath name : Bytes) : List Path :=
  let paths := (Bytes.splitOn ':' searchPath).map fun dir =>
    if dir = [] then name else dir ++ '/'.toUInt8 :: name
  paths.filter fun p => files.isRegularFile p

/-- A name with a slash is a path; any other is looked for in the
directories of the search path, and a file that cannot be executed is
passed over. -/
def findProgram (files : FileTree) (searchPath name : Bytes) : Program :=
  if name.contains '/' then executable files name
  else
    match (filesOnPath files searchPath name).map (executable files) with
    | [] => .missing
    | first :: rest => ((first :: rest).find? (· ≠ .refused)).getD .refused

/-- The search path of a shell that was given none. -/
def defaultSearchPath : Bytes := "/usr/local/sbin:/usr/local/bin:/usr/sbin:/usr/bin:/sbin:/bin"

def State.searchPath (s : State) : Bytes := (s.value? "PATH").getD defaultSearchPath

/-- The script that a shell is to read with `.`; it need not be
executable. -/
def scriptFor (s : State) (name : Bytes) : Option Path :=
  if name.contains '/' then some name
  else (filesOnPath s.files s.searchPath name).head?

/-- The directories of the utilities. -/
def utilityDirectories : List Location := [["bin"], ["usr", "bin"]]

/-- The name of the utility at a location. -/
def utilityAt? (files : FileTree) (p : Path) : Option Bytes :=
  match files.resolve p with
  | .error _ => none
  | .ok l => if utilityDirectories.contains l.dropLast then l.getLast? else none

/-- The interpreter that a script asks for, and the argument for it. -/
def interpreter? (content : Bytes) : Option (Path × List Bytes) :=
  match content.after? "#!" with
  | none => none
  | some rest =>
      let line := Bytes.trim isSpace (rest.takeWhile (· ≠ '\n'.toUInt8))
      let path := line.takeWhile fun c => !isSpace c
      let argument := (line.drop path.length).dropWhile isSpace
      if path = [] then none else some (path, if argument = [] then [] else [argument])

/-- The state in which a program starts. -/
def State.spawn (s : State) : State :=
  { s.withEnvironment s.environment with process := s.process + 1, status := 0 }

/-- A program that could not be started. -/
def State.refuse (s : State) (program : Program) : Flow × State :=
  s.succeed (if program = .missing then 127 else 126)

/-- What a shell sees of a program that ended. -/
def State.collect (s : State) (r : Flow × State) : Flow × State :=
  match r.1 with
  | .killed signal => (s.resume r.2).succeed (128 + signal)
  | .exhausted => (.exhausted, s.resume r.2)
  | _ => (.next, s.resume r.2)

/-- What a shell sees of a subshell that ended. A signal is meant for
the shell itself. -/
def State.rejoin (s : State) (r : Flow × State) : Flow × State :=
  match r.1 with
  | .killed signal => (.killed signal, s.resume r.2)
  | .exhausted => (.exhausted, s.resume r.2)
  | _ => (.next, s.resume r.2)

/-! ## Loops and cases -/

/-- Leave one loop. -/
def leave (flow : Flow) (s : State) : Flow × State :=
  match flow with
  | .breakLoop (n + 2) => (.breakLoop (n + 1), s)
  | .continueLoop (n + 2) => (.continueLoop (n + 1), s)
  | .breakLoop _ => (.next, s)
  | .continueLoop _ => (.next, s)
  | other => (other, s)

/-- One of the patterns fits the value. -/
def anyFits (output : Substitution) (s : State) (value : Bytes) : List Word → Bool × State
  | [] => (false, s)
  | w :: rest =>
      let (p, s) := expandPattern output s w
      if p.fits value then (true, s) else anyFits output s value rest

/-! ## Commands -/

mutual

/-- Carry out a script. -/
def runText : (fuel : Nat) → State → Bytes → Flow × State
  | 0, s, _ => (.exhausted, s)
  | fuel + 1, s, source => runLines fuel s (tokens source)

def runLines : (fuel : Nat) → State → List Token → Flow × State
  | 0, s, _ => (.exhausted, s)
  | fuel + 1, s, ts =>
      match nextLine ts with
      | .finished => (.next, s)
      | .faulty => Builtin.failure s
      | .command c rest => andNext (eval fuel s c) fun s => runLines fuel s rest

/-- The output of a script that is run in a subshell. -/
def substitute : (fuel : Nat) → State → Bytes → Bytes × State
  | 0, s, _ => ([], s)
  | fuel + 1, s, source =>
      let i := s.streams.length
      let r := runText fuel (s.openStream 1 (.pipe [])) source
      let after := (s.rejoin r).2
      match after.streams[i]? with
      | some (.pipe held) => (held, after)
      | _ => ([], after)

def eval : (fuel : Nat) → State → Command → Flow × State
  | 0, s, _ => (.exhausted, s)
  | fuel + 1, s, c =>
      match c with
      | .nothing => (.next, s)
      | .simple assignments words redirects =>
          simpleCommand fuel s assignments words redirects
      | .sequence first second => andNext (eval fuel s first) fun s => eval fuel s second
      | .background c => andNext (s.rejoin (eval fuel s c)) fun s => s.succeed 0
      | .andThen first second =>
          andNext (eval fuel s first) fun s =>
            if s.status = 0 then eval fuel s second else (.next, s)
      | .orElse first second =>
          andNext (eval fuel s first) fun s =>
            if s.status = 0 then (.next, s) else eval fuel s second
      | .negate c =>
          andNext (eval fuel s c) fun s => s.succeed (if s.status = 0 then 1 else 0)
      | .pipe left right =>
          let i := s.streams.length
          let joint := { s with streams := s.streams ++ [Stream.pipe []] }
          andNext (s.rejoin (eval fuel (joint.attach 1 i) left)) fun s =>
            s.rejoin (eval fuel (s.attach 0 i) right)
      | .subshell c => s.rejoin (eval fuel s c)
      | .choice condition yes no =>
          andNext (eval fuel s condition) fun s => branch fuel s (if s.status = 0 then yes else no)
      | .loop whileTrue condition body => loop fuel s whileTrue condition body 0
      | .forEach name words body =>
          match expandWords (substitute fuel) s words with
          | (none, s) => Builtin.failure s
          | (some [], s) => s.succeed 0
          | (some values, s) => forEach fuel s name values body
      | .select subject arms =>
          match expandText (substitute fuel) s subject with
          | (none, s) => Builtin.failure s
          | (some value, s) => select fuel s value arms
      | .redirected c redirects =>
          match redirectAll (substitute fuel) s redirects with
          | (after, true) => s.restore (after.succeed 2)
          | (after, false) => s.restore (eval fuel after c)

/-- One branch of a choice. An empty one succeeds. -/
def branch : (fuel : Nat) → State → Command → Flow × State
  | 0, s, _ => (.exhausted, s)
  | fuel + 1, s, c =>
      match c with
      | .nothing => s.succeed 0
      | c => eval fuel s c

/-- A loop ends with the status of its last round. -/
def loop : (fuel : Nat) → State → (whileTrue : Bool) → (condition body : Command) →
    (last : Nat) → Flow × State
  | 0, s, _, _, _, _ => (.exhausted, s)
  | fuel + 1, s, whileTrue, condition, body, last =>
      match eval fuel s condition with
      | (.next, s) =>
          if decide (s.status = 0) = whileTrue then
            match eval fuel s body with
            | (.next, s) => loop fuel s whileTrue condition body s.status
            | (.continueLoop 1, s) => loop fuel s whileTrue condition body s.status
            | (flow, s) => leave flow s
          else s.succeed last
      | (.continueLoop 1, s) => loop fuel s whileTrue condition body s.status
      | (flow, s) => leave flow s

def forEach : (fuel : Nat) → State → (name : Bytes) → (values : List Bytes) →
    (body : Command) → Flow × State
  | 0, s, _, _, _ => (.exhausted, s)
  | _, s, _, [], _ => (.next, s)
  | fuel + 1, s, name, value :: rest, body =>
      match eval fuel (s.assign name value) body with
      | (.next, s) => forEach fuel s name rest body
      | (.continueLoop 1, s) => forEach fuel s name rest body
      | (flow, s) => leave flow s

/-- The first arm of which a pattern fits. -/
def select : (fuel : Nat) → State → (value : Bytes) → List (List Word × Command) →
    Flow × State
  | 0, s, _, _ => (.exhausted, s)
  | _, s, _, [] => s.succeed 0
  | fuel + 1, s, value, (ps, body) :: rest =>
      match anyFits (substitute fuel) s value ps with
      | (true, s) => branch fuel s body
      | (false, s) => select fuel s value rest

/-- A simple command: its words are expanded, then its redirections and
assignments are made. Without words both stay. -/
def simpleCommand : (fuel : Nat) → State → List (Bytes × Word) → List Word →
    List Redirect → Flow × State
  | 0, s, _, _, _ => (.exhausted, s)
  | fuel + 1, s, assignments, words, redirects =>
      match expandWords (substitute fuel) s words with
      | (none, s) => Builtin.failure s
      | (some found, s) =>
          match redirectAll (substitute fuel) s redirects with
          | (after, true) =>
              if (found.head?.map isSpecial).getD false then Builtin.failure after
              else s.restore (after.succeed 2)
          | (after, false) =>
              match assignAll (substitute fuel) after assignments with
              | none => Builtin.failure after
              | some after =>
                  match found with
                  | [] =>
                      let status :=
                        if words.any holdsCommand || assignments.any (holdsCommand ·.2) then
                          after.status
                        else 0
                      s.restore (after.succeed status)
                  | name :: arguments =>
                      call fuel s after (assignments.map (·.1)) name arguments

/-- Call a command. `after` is the state with the redirections and the
assignments made; `s` is the state that a regular command goes back to. -/
def call : (fuel : Nat) → (s after : State) → (assigned : List Bytes) → (name : Bytes) →
    (arguments : List Bytes) → Flow × State
  | 0, s, _, _, _, _ => (.exhausted, s)
  | fuel + 1, s, after, assigned, name, arguments =>
      if name = "exec" then
        match arguments with
        | [] => after.succeed 0
        | program :: arguments =>
            andNext (start fuel after program arguments) fun s => (.exit, s)
      else if name = "eval" then
        s.restore (runText fuel { after with status := 0 } (List.intercalate " " arguments))
      else if name = "." then
        match (arguments.head?.bind (scriptFor after)).bind after.files.read? with
        | some source => s.restore (runText fuel { after with status := 0 } source)
        | none => Builtin.failure after
      else
        match Builtin.special? name with
        | some builtin => s.restore (builtin after arguments)
        | none =>
        match Builtin.regular? name with
        | some builtin => s.withdrawn assigned (s.restore (builtin after arguments))
        | none =>
            let exporting := assigned.foldl State.markExported after
            s.withdrawn assigned (s.restore (start fuel exporting name arguments))

/-- Run a program and wait for it to end. -/
def start : (fuel : Nat) → State → (name : Bytes) → (arguments : List Bytes) → Flow × State
  | 0, s, _, _ => (.exhausted, s)
  | fuel + 1, s, name, arguments =>
      match findProgram s.files s.searchPath name with
      | .found path => s.collect (execute fuel s.spawn path arguments)
      | program => s.refuse program

/-- Execute a file: a utility, a script for the interpreter that its
first line names, or a script of the shell. -/
def execute : (fuel : Nat) → State → (path : Path) → (arguments : List Bytes) → Flow × State
  | 0, s, _, _ => (.exhausted, s)
  | fuel + 1, s, path, arguments =>
      let name := utilityAt? s.files path
      if name = some "sh" then interpret fuel s arguments
      else
        match name.bind Utility.named? with
        | some utility => (.exit, utility s arguments)
        | none =>
            let content := (s.files.read? path).getD []
            match interpreter? content with
            | none => interpret fuel s (path :: arguments)
            | some (interpreter, argument) =>
                match executable s.files interpreter with
                | .found interpreter =>
                    execute fuel s interpreter (argument ++ path :: arguments)
                | program => s.refuse program

/-- A shell of its own: it carries out its argument, a file, or what it
can read. Its options change nothing. -/
def interpret : (fuel : Nat) → State → (arguments : List Bytes) → Flow × State
  | 0, s, _ => (.exhausted, s)
  | fuel + 1, s, arguments =>
      match arguments with
      | [] =>
          let (source, s) := s.readAll 0
          runText fuel s source
      | first :: rest =>
          if first = "-c" then
            match rest with
            | [] => s.succeed 2
            | source :: rest =>
                runText fuel
                  { s with name := rest.head?.getD "sh", arguments := rest.drop 1 } source
          else if first.head? = some '-'.toUInt8 then interpret fuel s rest
          else
            match s.files.read? first with
            | none => s.succeed 2
            | some source => runText fuel { s with name := first, arguments := rest } source

end

end Prebuilt.Shell
