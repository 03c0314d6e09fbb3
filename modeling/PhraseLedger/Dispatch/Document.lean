import PhraseLedger.Dispatch.Pool
import PhraseLedger.Index.Scan
import PhraseLedger.Settings.Basic
import PhraseLedger.Text.Fragments
import PhraseLedger.Text.Utf8

/-!
# Answering one query

A query asks which members occur in a document as of an operation index.  A short
document is scanned at once.  A long one is cut into fragments, and each fragment is
scanned by a job of its own that reports the members starting in it.  If there cannot be
room for as many fragments as the settings ask for, the thread that cuts is aborted.

Main definitions:

- Definition {lit}`Query.scanFragment`: scans one fragment.
- Definition {lit}`Query.answer`: the distinct matches of a query.
-/

namespace PhraseLedger

/-- A document, and the operation index whose state of the index it is held
against. -/
structure Query where
  document : Text
  opIndex : Nat
deriving DecidableEq, Repr

/-- How a piece of work can go wrong. -/
inductive Failure where
  /-- It reports an error. -/
  | error (error : Error)
  /-- It aborts the thread that does it. -/
  | abort
deriving DecidableEq, Repr

namespace Query

/-- Scans one fragment of a document: the rest of the document from the start of the
fragment on, in which only the bytes of the fragment start a match.  A fragment that
starts behind the document or inside a character aborts the thread. -/
def scanFragment (index : Index) (query : Query) (fragment : Span) : Option (List Match) :=
  if query.document.isBoundary fragment.start then
    some (index.matchesFrom (query.document.drop fragment.start) fragment.length
      fragment.start query.opIndex)
  else none

/-- Whether a document is cut into fragments. -/
def isSplit (settings : Settings) (query : Query) : Bool :=
  1 < settings.fragmentWorkers && settings.splitThreshold ≤ query.document.length

/-- The fragments of a document that is cut; nothing if there cannot be room for them. -/
def pieces? (settings : Settings) (query : Query) : Option (List Span) :=
  query.document.fragments? settings.fragmentWorkers

/-- The results of jobs from number `i` on, unless one is lost; `name` tells what the
job of a number was. -/
def collectFrom {α : Type} (name : Nat → String) (i : Nat) :
    List (Option α) → Except Error (List α)
  | [] => .ok []
  | none :: _ => .error (.workerLost (name i))
  | some result :: rest => (collectFrom name (i + 1) rest).map (result :: ·)

/-- What the scan of a fragment is called in errors. -/
def scanName (i : Nat) : String :=
  "scan of document fragment " ++ toString i

variable {σ : Type}

/-- The job that scans one fragment. -/
def scanJob (index : Index) (query : Query) (fragment : Span) : Job σ (List Match) :=
  fun pool => (query.scanFragment index fragment, pool)

/-- The distinct matches of a query, in the order of their first occurrence. -/
def answer (crew : Crew σ) (index : Index) (settings : Settings) (query : Query)
    (pool : Pool σ) : Except Failure (List Match) × Pool σ :=
  if query.isSplit settings then
    match query.pieces? settings with
    | none => (.error .abort, pool)
    | some pieces =>
      match Pool.fanOut crew (pieces.map (query.scanJob index)) pool with
      | (none, pool) => (.error .abort, pool)
      | (some results, pool) =>
        match collectFrom scanName 0 results with
        | .error error => (.error (.error error), pool)
        | .ok found => (.ok (Match.distinct found.flatten), pool)
  else (.ok (Match.distinct (index.matchesIn query.document 0 query.opIndex)), pool)

end Query

end PhraseLedger
