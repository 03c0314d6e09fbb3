import PhraseLedger.Index.Basic
import PhraseLedger.Match

/-!
# Scanning a text for members

From every word of a text a walk goes down the trie, one word at a time, and reports
every member that it spells.  A walk ends as soon as the trie has no node for the
words read so far, because then no longer member starts at that word either.

Main definitions:

- Definition {lit}`Index.matchesFrom`: the members that start before a limit.
- Definition {lit}`Index.matchesIn`: all members of a text.
-/

namespace PhraseLedger

namespace Node

/-- The positions behind the members that `words` spell from `node` on.  `gap` stands
in front of the next word: nothing at the start of a walk, a single space later. -/
def walk (opIndex : Nat) (gap : Text) (node : Node) : List Word → List Nat
  | [] => []
  | word :: rest =>
    match node.find? (gap ++ word.bytes) with
    | none => []
    | some next =>
      if next.visibleAt opIndex then word.stop :: walk opIndex [Text.space] next rest
      else walk opIndex [Text.space] next rest

end Node

namespace Text

/-- The nonempty ends of a list, the longest one first. -/
def tails {α : Type} (items : List α) : List (List α) :=
  items.foldr (fun item ends => (item :: ends.headD []) :: ends) []

/-- The match of a stretch of a text that itself starts at position `offset`. -/
def matchAt (text : Text) (offset : Nat) (span : Span) : Match :=
  ⟨text.slice span.start span.stop, offset + span.start⟩

end Text

namespace Index

/-- The stretches of the members that start at the first of `words`. -/
def spansAt (index : Index) (opIndex : Nat) : List Word → List Span
  | [] => []
  | word :: rest =>
    (index.trie.root.walk opIndex [] (word :: rest)).map fun stop => ⟨word.start, stop⟩

/-- The stretches of the members that start before `limit`, by their first word and
then by their last. -/
def spansFrom (index : Index) (text : Text) (limit opIndex : Nat) : List Span :=
  let starting := (Text.tails text.words).takeWhile fun words =>
    match words with
    | [] => false
    | word :: _ => word.start < limit
  starting.flatMap (index.spansAt opIndex)

/-- The members in `text` as of `opIndex` that start before `limit`; they may end
behind it.  `offset` is the position of the text in its document. -/
def matchesFrom (index : Index) (text : Text) (limit offset opIndex : Nat) : List Match :=
  (index.spansFrom text limit opIndex).map (text.matchAt offset)

/-- All members in `text` as of `opIndex`. -/
def matchesIn (index : Index) (text : Text) (offset opIndex : Nat) : List Match :=
  index.matchesFrom text text.length offset opIndex

end Index

end PhraseLedger
