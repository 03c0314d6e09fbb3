/-!
# Membership logs

The membership of one phrase over time is a log: a record for every mutation, in the
order in which the mutations came.  The state at a point in time is what the last
record up to that point says.

Main definitions:

- Definition {lit}`Log.append`: puts a record behind all others.
- Definition {lit}`Log.visibleAt`: membership as of an operation index.
-/

namespace PhraseLedger

/-- What a mutation does to the membership of a phrase. -/
inductive Mutation where
  | add
  | remove
deriving DecidableEq, Repr

/-- One entry of a log: what happened, and the operation index at which it did. -/
structure Record where
  kind : Mutation
  opIndex : Nat
deriving DecidableEq, Repr

/-- The mutations of one phrase. -/
structure Log where
  /-- The records, the newest one first. -/
  newestFirst : List Record
deriving DecidableEq, Repr

namespace Log

/-- The log without records. -/
def empty : Log := ⟨[]⟩

/-- Puts a record behind all others. -/
def append (log : Log) (record : Record) : Log :=
  ⟨record :: log.newestFirst⟩

/-- The records, the oldest one first. -/
def toList (log : Log) : List Record :=
  log.newestFirst.reverse

/-- The record appended last. -/
def latest? (log : Log) : Option Record :=
  log.newestFirst.head?

/-- Number of records. -/
def length (log : Log) : Nat :=
  log.newestFirst.length

/-- Whether there is no record. -/
def isEmpty (log : Log) : Bool :=
  log.newestFirst.isEmpty

/-- Whether the phrase is a member as of `opIndex`.  The newest record decides if it
is not later than that, and otherwise the newest one among the older records that is
not later; if there is none, the phrase is no member. -/
def visibleAt (log : Log) (opIndex : Nat) : Bool :=
  match log.newestFirst with
  | [] => false
  | newest :: older =>
    if newest.opIndex ≤ opIndex then newest.kind == .add
    else
      match older.find? (·.opIndex ≤ opIndex) with
      | none => false
      | some record => record.kind == .add

/-- The empty log has no records. -/
@[simp] theorem toList_empty : empty.toList = [] := rfl

/-- An appended record comes last. -/
@[simp] theorem toList_append (log : Log) (record : Record) :
    (log.append record).toList = log.toList ++ [record] := by
  simp [append, toList]

/-- An appended record is the latest one. -/
@[simp] theorem latest?_append (log : Log) (record : Record) :
    (log.append record).latest? = some record := rfl

end Log

end PhraseLedger
