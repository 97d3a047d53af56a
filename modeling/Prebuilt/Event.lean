import Prebuilt.Log.Record

/-!
# Events

What a command tells while it works, in order: records for the log,
command lines it is about to run, and text for the two output streams.
Commands only list their events; how they reach the user depends on the
logger and is decided by `Console.deliver`.
-/

namespace Prebuilt

inductive Event where
  | log (level : Log.Level) (topic message : Bytes)
  | command (line : Bytes)
  | stdout (text : Bytes)
  | stderr (text : Bytes)
deriving Repr, DecidableEq

end Prebuilt
