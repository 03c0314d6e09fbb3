import PhraseLedger.Stopwatch

/-!
# The time that a session takes

A session has a stopwatch for the bulk load, one for its additions and removals, and one
for its flushes.  Starting and stopping them are its moments, counted from its beginning.

Main definitions:

- Definition {lit}`Timing.start`, {lit}`Timing.stop`: the stopwatch of an activity.
- Definition {lit}`Timing.durations`: the measured times in words.
-/

namespace PhraseLedger

/-- What is measured in a session. -/
inductive Activity where
  | bulkLoad
  | mutations
  | flushes
deriving DecidableEq, Repr

/-- The stopwatches of a session. -/
structure Timing where
  bulkLoad : Stopwatch
  mutations : Stopwatch
  flushes : Stopwatch
  /-- Number of moments so far. -/
  moments : Nat
deriving DecidableEq, Repr

/-- The time that the parts of a session took, in words. -/
structure Durations where
  bulkLoad : String
  mutations : String
  flushes : String
deriving DecidableEq, Repr

namespace Timing

/-- Stopwatches that never ran. -/
def new : Timing := ⟨.new, .new, .new, 0⟩

/-- Something happens to the stopwatch of an activity, at a moment of its own. -/
def press (change : Stopwatch → Nat → Stopwatch) (timing : Timing) : Activity → Timing
  | .bulkLoad =>
    { timing with
      bulkLoad := change timing.bulkLoad timing.moments
      moments := timing.moments + 1 }
  | .mutations =>
    { timing with
      mutations := change timing.mutations timing.moments
      moments := timing.moments + 1 }
  | .flushes =>
    { timing with
      flushes := change timing.flushes timing.moments
      moments := timing.moments + 1 }

/-- Starts the stopwatch of an activity. -/
def start (timing : Timing) (activity : Activity) : Timing :=
  timing.press .start activity

/-- Stops the stopwatch of an activity. -/
def stop (timing : Timing) (activity : Activity) : Timing :=
  timing.press .stop activity

/-- The measured times in words. -/
def durations (clock : Clock) (timing : Timing) : Durations :=
  let text (watch : Stopwatch) : String :=
    Stopwatch.durationText (watch.elapsed clock timing.moments)
  ⟨text timing.bulkLoad, text timing.mutations, text timing.flushes⟩

end Timing

end PhraseLedger
