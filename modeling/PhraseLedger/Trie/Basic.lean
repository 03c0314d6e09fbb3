import PhraseLedger.Log
import PhraseLedger.Trie.Fanout

/-!
# The trie of logs

A trie holds a log for every path of bytes that was planted in it.  Nodes are never
taken out: a phrase is deleted by a record in its log.

Main definitions:

- Definition {lit}`Trie.plant`: makes sure that a path has a node.
- Definition {lit}`Trie.find?`: the node of a path.
- Definition {lit}`Trie.recordAt?`: appends a record to the log of a path's node.
- Definition {lit}`Trie.record`: plants a path and appends a record to its log.
-/

namespace PhraseLedger

/-- A node of a trie: the log of its path, and its children by the next byte. -/
structure Node where
  log : Log
  fanout : Fanout Node

/-- Size of a trie. -/
structure TrieStats where
  /-- Number of nodes, the root among them. -/
  nodes : Nat
  /-- Number of nodes whose children are held in a direct table. -/
  directNodes : Nat
deriving DecidableEq, Repr

/-- Sizes are added part by part. -/
instance : Add TrieStats where
  add a b := ⟨a.nodes + b.nodes, a.directNodes + b.directNodes⟩

namespace Node

/-- A node without records and children. -/
def empty : Node := ⟨.empty, .empty⟩

/-- The child reached through `byte`, if there is one. -/
def child? (node : Node) (byte : UInt8) : Option Node :=
  node.fanout.get? byte

/-- Number of children. -/
def childCount (node : Node) : Nat :=
  node.fanout.size

/-- Whether the children are held in a direct table. -/
def isDirect (node : Node) : Bool :=
  node.fanout.isDirect

/-- Whether the path of this node is a member as of `opIndex`. -/
def visibleAt (node : Node) (opIndex : Nat) : Bool :=
  node.log.visibleAt opIndex

/-- Appends a record to the log of this node. -/
def append (node : Node) (record : Record) : Node :=
  { node with log := node.log.append record }

/-- The node reached from `node` by a path of bytes, if every byte has a child. -/
def find? (node : Node) (path : List UInt8) : Option Node :=
  path.foldlM child? node

/-- What a node adds to the size of its trie when it gets a child under `byte`. -/
def growth (node : Node) (byte : UInt8) : TrieStats :=
  ⟨if (node.child? byte).isNone then 1 else 0, if node.fanout.upgrades byte then 1 else 0⟩

/-- Makes sure that a path starting at `node` has all its nodes, and tells by how much
the trie grew. -/
def plant : List UInt8 → Node → Node × TrieStats
  | [], node => (node, ⟨0, 0⟩)
  | byte :: path, node =>
    let (child, grown) := plant path ((node.child? byte).getD empty)
    ({ node with fanout := node.fanout.insert byte child }, node.growth byte + grown)

/-- Changes the node at the end of a path, or nothing if the path has no node. -/
def update? (change : Node → Node) : List UInt8 → Node → Option Node
  | [], node => some (change node)
  | byte :: path, node =>
    match node.child? byte with
    | none => none
    | some child =>
      match update? change path child with
      | none => none
      | some child => some { node with fanout := node.fanout.insert byte child }

end Node

/-- A trie: its root, and its size as counted while it grew. -/
structure Trie where
  root : Node
  stats : TrieStats

namespace Trie

/-- The trie that has only a root. -/
def empty : Trie := ⟨.empty, ⟨1, 0⟩⟩

/-- The node of a path, if there is one. -/
def find? (trie : Trie) (path : List UInt8) : Option Node :=
  trie.root.find? path

/-- Makes sure that a path has a node.  A path that has one changes nothing. -/
def plant (trie : Trie) (path : List UInt8) : Trie :=
  let (root, grown) := trie.root.plant path
  ⟨root, trie.stats + grown⟩

/-- Appends a record to the log of a path's node, or nothing if there is no such
node. -/
def recordAt? (trie : Trie) (path : List UInt8) (record : Record) : Option Trie :=
  (trie.root.update? (·.append record) path).map fun root => { trie with root }

/-- Plants a path and appends a record to the log of its node. -/
def record (trie : Trie) (path : List UInt8) (record : Record) : Trie :=
  let planted := trie.plant path
  (planted.recordAt? path record).getD planted

end Trie

end PhraseLedger
