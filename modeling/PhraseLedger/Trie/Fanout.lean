/-!
# The children of a trie node

Most nodes of a trie have few children, so a node starts with a compact pair of parallel lists,
its keys and its children, that is searched from the front.  A node that needs more than
{lit}`Fanout.compactLimit` children is upgraded, once and for good, to a direct table
with a slot for every byte.  The choice changes no answer.

Main definitions:

- Definition {lit}`Fanout.get?`: the child reached through a byte.
- Definition {lit}`Fanout.insert`: puts a child under a byte.
- Definition {lit}`Fanout.upgrades`: whether a new child forces the upgrade.
-/

namespace PhraseLedger

/-- The children of a node, by byte. -/
inductive Fanout (α : Type) where
  /-- The keys and their children, each in the order in which they came. -/
  | compact (keys : List UInt8) (children : List α)
  /-- A slot for every byte. -/
  | direct (slots : Array (Option α))

namespace Fanout

variable {α : Type}

/-- The largest number of children in compact lists. -/
def compactLimit : Nat := 4

/-- Number of slots of a direct table. -/
def directSize : Nat := 256

/-- No children. -/
def empty : Fanout α := .compact [] []

/-- The child reached through `byte`, if there is one. -/
def get? (fanout : Fanout α) (byte : UInt8) : Option α :=
  match fanout with
  | .compact keys children => (keys.idxOf? byte).bind (children[·]?)
  | .direct slots => slots[byte.toNat]?.join

/-- Number of children. -/
def size : Fanout α → Nat
  | .compact keys _ => keys.length
  | .direct slots => slots.countP Option.isSome

/-- Whether the children are held in a direct table. -/
def isDirect : Fanout α → Bool
  | .compact _ _ => false
  | .direct _ => true

/-- The direct table that holds the children of compact lists. -/
def table (keys : List UInt8) (children : List α) : Array (Option α) :=
  (keys.zip children).foldl
    (fun slots entry => slots.setIfInBounds entry.1.toNat (some entry.2))
    (Array.replicate directSize none)

/-- Whether a child under `byte` forces the upgrade to a direct table: the byte is new
to compact lists that are full. -/
def upgrades (fanout : Fanout α) (byte : UInt8) : Bool :=
  match fanout with
  | .compact keys _ => keys.length == compactLimit && !keys.contains byte
  | .direct _ => false

/-- Puts `child` under `byte`, in place of the child that is there. -/
def insert (fanout : Fanout α) (byte : UInt8) (child : α) : Fanout α :=
  match fanout with
  | .compact keys children =>
    match keys.idxOf? byte with
    | some position => .compact keys (children.set position child)
    | none =>
      if keys.length = compactLimit then
        .direct ((table keys children).setIfInBounds byte.toNat (some child))
      else .compact (keys ++ [byte]) (children ++ [child])
  | .direct slots => .direct (slots.setIfInBounds byte.toNat (some child))

/-- The children with their bytes. -/
def toList : Fanout α → List (UInt8 × α)
  | .compact keys children => keys.zip children
  | .direct slots =>
    slots.toList.zipIdx.filterMap fun entry => entry.1.map (UInt8.ofNat entry.2, ·)

end Fanout

end PhraseLedger
