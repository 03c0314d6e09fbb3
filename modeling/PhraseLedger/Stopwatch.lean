/-!
# Stopwatches

A stopwatch adds up the time that passes between its starts and stops.  What happens to it
happens at a moment, and it notes the moments only: at what time each of them was is told
by a clock, in nanoseconds.  So what is measured can be said before anybody looks at the
clock.

Main definitions:

- Definition {lit}`Stopwatch.start`, {lit}`Stopwatch.stop`: begin and end an
  interval.
- Definition {lit}`Stopwatch.elapsed`: the time added up so far.
- Definition {lit}`Stopwatch.durationText`: a duration in its largest fitting unit.
-/

namespace PhraseLedger

/-- The time of each moment, in nanoseconds.  It never goes back. -/
abbrev Clock := Nat → Nat

/-- An accumulating stopwatch. -/
structure Stopwatch where
  /-- The moment at which the current interval began, while the stopwatch runs. -/
  started : Option Nat
  /-- The moments at which the intervals that ended began and ended, the newest interval
  first. -/
  intervals : List (Nat × Nat)
deriving DecidableEq, Repr

namespace Stopwatch

/-- A stopwatch that never ran. -/
def new : Stopwatch := ⟨none, []⟩

/-- Begins an interval; a running stopwatch goes on with the one it is in. -/
def start (watch : Stopwatch) (moment : Nat) : Stopwatch :=
  match watch.started with
  | none => { watch with started := some moment }
  | some _ => watch

/-- Ends the current interval, if there is one. -/
def stop (watch : Stopwatch) (moment : Nat) : Stopwatch :=
  match watch.started with
  | none => watch
  | some began => ⟨none, (began, moment) :: watch.intervals⟩

/-- Whether an interval is open. -/
def isRunning (watch : Stopwatch) : Bool :=
  watch.started.isSome

/-- The length of all intervals that ended. -/
def accumulated (clock : Clock) (watch : Stopwatch) : Nat :=
  watch.intervals.foldl (fun total interval => total + (clock interval.2 - clock interval.1)) 0

/-- The time added up so far, the current interval included. -/
def elapsed (clock : Clock) (watch : Stopwatch) (moment : Nat) : Nat :=
  match watch.started with
  | none => watch.accumulated clock
  | some began => watch.accumulated clock + (clock moment - clock began)

/-- Measures an action that lasts from `began` to `ended`. -/
def time (watch : Stopwatch) (began ended : Nat) : Stopwatch :=
  (watch.start began).stop ended

/-! ## Durations in words -/

/-- The digits of `part / scale` behind the point, without the zeros at the end. -/
def fractionText (part scale : Nat) : String :=
  let digits := (toString (scale + part)).toList.drop 1
  let kept := (digits.reverse.dropWhile (· == '0')).reverse
  if kept.isEmpty then "" else "." ++ String.ofList kept

/-- A duration in seconds, milliseconds, microseconds or nanoseconds, whichever is the
largest unit that it fills at least once. -/
def durationText (nanoseconds : Nat) : String :=
  let text (scale : Nat) (unit : String) : String :=
    toString (nanoseconds / scale) ++ fractionText (nanoseconds % scale) scale ++ unit
  if 1000000000 ≤ nanoseconds then text 1000000000 "s"
  else if 1000000 ≤ nanoseconds then text 1000000 "ms"
  else if 1000 ≤ nanoseconds then text 1000 "µs"
  else text 1 "ns"

end Stopwatch

end PhraseLedger
