import Prebuilt.Bytes

/-!
# The wall clock

How the time of day is written in front of a log line: hours, minutes
and seconds of two digits each, and milliseconds of three.
-/

namespace Prebuilt.Log

/-- A number with zeros in front up to a width. -/
def padded (width n : Nat) : Bytes :=
  List.replicate (width - (Bytes.ofNat n).length) '0'.toUInt8 ++ Bytes.ofNat n

/-- The time of day, given the milliseconds since some midnight. -/
def clockReading (millis : Nat) : Bytes :=
  let seconds := millis / 1000
  padded 2 (seconds / 3600 % 24) ++ ":" ++ padded 2 (seconds / 60 % 60) ++ ":"
    ++ padded 2 (seconds % 60) ++ "." ++ padded 3 (millis % 1000)

end Prebuilt.Log
