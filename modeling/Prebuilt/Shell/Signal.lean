import Prebuilt.Shell.Condition

/-!
# Signals

The signals a shell can send to itself, by number or by name.
-/

namespace Prebuilt.Shell

namespace Signal

/-- The names of the signals from number 1 on. -/
def names : List Bytes :=
  ["HUP", "INT", "QUIT", "ILL", "TRAP", "ABRT", "BUS", "FPE", "KILL", "USR1", "SEGV", "USR2",
   "PIPE", "ALRM", "TERM", "STKFLT", "CHLD", "CONT", "STOP", "TSTP", "TTIN", "TTOU", "URG",
   "XCPU", "XFSZ", "VTALRM", "PROF", "WINCH", "IO", "PWR", "SYS"]

def largest : Nat := 64

def ofText? (b : Bytes) : Option Nat :=
  match number? b with
  | some n => if n ≤ largest then some n else none
  | none => (names.findIdx? fun known => known = b).map (· + 1)

/-- A process survives these signals: it ignores them, or it stops and
goes on. -/
def isHarmless (signal : Nat) : Bool := [0, 17, 18, 19, 20, 21, 22, 23, 28].contains signal

def terminate : Nat := 15

end Signal

/-- The signal and the processes that the arguments of `kill` name. -/
def signalArguments? : List Bytes → Option (Nat × List Bytes)
  | [] => none
  | first :: rest =>
      if first = "-s" then
        match rest with
        | [] => none
        | name :: targets => (Signal.ofText? name).map (·, targets)
      else if first = "--" then some (Signal.terminate, rest)
      else
        match first.after? "-" with
        | some name => (Signal.ofText? name).map (·, rest)
        | none => some (Signal.terminate, first :: rest)

end Prebuilt.Shell
