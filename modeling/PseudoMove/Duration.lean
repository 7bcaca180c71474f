import PseudoMove.BinaryFraction
/-!
# Durations

How long something took, in the largest unit that leaves at least one: microseconds, milliseconds,
seconds, or minutes and seconds.
-/

namespace PseudoMove

/-- A span of time, with less than a second in its nanoseconds. -/
structure Duration where
  seconds : Nat
  nanoseconds : Nat
deriving DecidableEq, Repr

namespace Duration

open BinaryFraction

/-- How many nanoseconds a second has. -/
def nanosPerSecond : Nat := 1000000000

/-- The span of some seconds and some nanoseconds. Whole seconds among the nanoseconds are carried. -/
def ofParts (seconds nanoseconds : Nat) : Duration where
  seconds := seconds + nanoseconds / nanosPerSecond
  nanoseconds := nanoseconds % nanosPerSecond

/-- The span in seconds, as a rounded number. -/
def inSeconds (d : Duration) : BinaryFraction :=
  (nearest d.seconds 1).add (nearest d.nanoseconds nanosPerSecond)

/-- The span as text. -/
def format (d : Duration) : String :=
  let t := d.inSeconds
  if t.isLess (nearest 1 1000) then (t.scaleBy 1000000).fixed 2 ++ "µs"
  else if t.isLess (nearest 1 1) then (t.scaleBy 1000).fixed 2 ++ "ms"
  else if t.isLess (nearest 60 1) then t.fixed 2 ++ "s"
  else toString (t.divideBy 60).floor ++ "m " ++ (t.modulo 60).fixed 1 ++ "s"

end Duration

end PseudoMove
