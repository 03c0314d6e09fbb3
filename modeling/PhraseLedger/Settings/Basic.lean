import PhraseLedger.Error

/-!
# Engine settings

The settings say how many workers there are, into how many slices a batch of queries
is cut, and when and into how many fragments a long document is cut.  They have no
influence on any answer.

Main definitions:

- Definition {lit}`Settings.sequential`: everything on the calling thread.
- Definition {lit}`Settings.standard`: the defaults for a number of processors.
- Definition {lit}`Settings.validate`: refuses settings with a zero count.
-/

namespace PhraseLedger

/-- The knobs of the engine. -/
structure Settings where
  /-- Number of workers. -/
  poolSize : Nat
  /-- Number of slices into which a batch of queries is cut. -/
  parallelism : Nat
  /-- Number of fragments into which a long document is cut. -/
  fragmentWorkers : Nat
  /-- The number of bytes from which on a document counts as long. -/
  splitThreshold : Nat
deriving DecidableEq, Repr

namespace Settings

/-- The first number that a machine word of 64 bits cannot hold. -/
def wordLimit : Nat := UInt64.size

/-- The default number of fragments. -/
def defaultFragmentWorkers : Nat := 4

/-- The default length from which on a document is cut. -/
def defaultSplitThreshold : Nat := 64 * 1024

/-- Settings under which every query is answered on the calling thread.  The pool
still owns one worker, which never gets a job. -/
def sequential : Settings := ⟨1, 1, 1, wordLimit - 1⟩

/-- The default settings of a machine: a worker and a slice for each processor. -/
def standard (processors : Nat) : Settings :=
  ⟨processors, processors, defaultFragmentWorkers, defaultSplitThreshold⟩

/-- The error of a count that must not be zero. -/
def zeroCount (name : String) : Error :=
  .invalidArgument name ("self." ++ name ++ " > 0")

/-- Refuses settings with a zero count; the first one in the order of the fields is
reported. -/
def validate (settings : Settings) : Except Error Unit :=
  if settings.poolSize = 0 then .error (zeroCount "pool_size")
  else if settings.parallelism = 0 then .error (zeroCount "parallelism")
  else if settings.fragmentWorkers = 0 then .error (zeroCount "fragment_workers")
  else .ok ()

end Settings

end PhraseLedger
