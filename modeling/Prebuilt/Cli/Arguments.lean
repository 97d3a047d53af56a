import Prebuilt.Config.Override
import Prebuilt.Log.Options

/-!
# Command-line arguments

The command may stand anywhere among the options, and it may be left
out. Arguments are read from left to right, and the first one that asks
for help or the version, or that makes no sense, ends the reading. Log
options are for the logger and are passed over, except that those for
verbosity also ask for commands to be echoed.

What an override names is not checked here: whether an option is known
is only decided when it is applied.
-/

namespace Prebuilt.Cli

inductive Command where
  | build
  | clean
  | stage
  | inspect
deriving Repr, DecidableEq

namespace Command

def all : List Command := [.build, .clean, .stage, .inspect]

def word : Command → Bytes
  | .build => "build"
  | .clean => "clean"
  | .stage => "stage"
  | .inspect => "inspect"

def ofWord? (text : Bytes) : Option Command := all.find? fun c => c.word = text

end Command

/-- What one argument is. -/
inductive Argument where
  | help
  | version
  | logOption
  | manifest (path : Path)
  /-- Any other argument that begins with a dash. -/
  | override (text : Bytes)
  | word (text : Bytes)
deriving Repr, DecidableEq

def Argument.ofText (text : Bytes) : Argument :=
  if text = "--help" ∨ text = "-h" then .help
  else if text = "--version" ∨ text = "-V" then .version
  else if Log.isLogOption text then .logOption
  else
    match text.after? "--manifest=" with
    | some path => .manifest path
    | none => if text.head? = some '-'.toUInt8 then .override text else .word text

/-- The argument asks for commands to be echoed. -/
def asksForEcho (text : Bytes) : Bool :=
  text = "--verbose" || decide (0 < Log.verbosityCount text)

/-- What the arguments ask for. -/
structure Request where
  command : Option Command := none
  /-- The manifest to read; empty if none was named. -/
  manifest : Path := []
  overrides : List Bytes := []
deriving Repr, DecidableEq

/-- What reading the arguments comes to. -/
inductive Scan where
  | help
  | version
  | unknownCommand (text : Bytes)
  | unexpectedArgument (text : Bytes)
  | proceed (request : Request)
deriving Repr, DecidableEq

/-- Read the arguments after what was asked for so far. The flag tells
whether an argument that was read asks for echoes. -/
def scanFrom (request : Request) (echo : Bool) : List Bytes → Bool × Scan
  | [] => (echo, .proceed request)
  | text :: rest =>
      match Argument.ofText text with
      | .help => (echo, .help)
      | .version => (echo, .version)
      | .logOption => scanFrom request (echo || asksForEcho text) rest
      | .manifest path => scanFrom { request with manifest := path } echo rest
      | .override text =>
          scanFrom { request with overrides := request.overrides ++ [text] } echo rest
      | .word text =>
          match request.command, Command.ofWord? text with
          | none, some command => scanFrom { request with command := some command } echo rest
          | none, none => (echo, .unknownCommand text)
          | some _, _ => (echo, .unexpectedArgument text)

def scan (args : List Bytes) : Bool × Scan := scanFrom {} false args

end Prebuilt.Cli
