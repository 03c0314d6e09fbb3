import PhraseLedger.Text.Words
import PhraseLedger.Trie.Basic

/-!
# The index of phrases

The index keeps the membership log of every phrase ever added.  A phrase is found
under its spelling, the path of its words with single spaces between them, so texts
that differ only in the number of spaces name the same phrase.

Main definitions:

- Definition {lit}`Index.add?`: adds a phrase as of an operation index.
- Definition {lit}`Index.remove?`: removes a phrase as of an operation index.
- Definition {lit}`Index.contains`: membership as of an operation index.
-/

namespace PhraseLedger

/-- The membership logs of all phrases. -/
structure Index where
  trie : Trie

namespace Index

/-- The index without phrases. -/
def empty : Index := ⟨.empty⟩

/-- The path of the phrase that a text names. -/
def path (text : Text) : List UInt8 :=
  Text.spell text.phrase

/-- Adds a phrase as of `opIndex`, or nothing if the text has no words. -/
def add? (index : Index) (text : Text) (opIndex : Nat) : Option Index :=
  if text.hasWord then some ⟨index.trie.record (path text) ⟨.add, opIndex⟩⟩ else none

/-- Removes a phrase as of `opIndex`, or nothing if the text has no words or its path
was never planted. -/
def remove? (index : Index) (text : Text) (opIndex : Nat) : Option Index :=
  if text.hasWord then (index.trie.recordAt? (path text) ⟨.remove, opIndex⟩).map Index.mk
  else none

/-- Adds a phrase as of `opIndex`; a text without words changes nothing. -/
def add (index : Index) (text : Text) (opIndex : Nat) : Index :=
  (index.add? text opIndex).getD index

/-- Removes a phrase as of `opIndex`; a phrase that was never planted changes
nothing. -/
def remove (index : Index) (text : Text) (opIndex : Nat) : Index :=
  (index.remove? text opIndex).getD index

/-- Whether the phrase that a text names is a member as of `opIndex`. -/
def contains (index : Index) (text : Text) (opIndex : Nat) : Bool :=
  text.hasWord &&
    match index.trie.find? (path text) with
    | none => false
    | some node => node.visibleAt opIndex

/-- Size of the trie behind the index. -/
def stats (index : Index) : TrieStats :=
  index.trie.stats

end Index

end PhraseLedger
