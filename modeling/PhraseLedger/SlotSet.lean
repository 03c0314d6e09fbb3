/-!
# Sets of claimed slots

A slot set says which slots, out of a fixed number, are claimed.  It is held in words
of 64 bits, slot `i` being bit `i % 64` of word `i / 64`.

Main definitions:

- Definition {lit}`SlotSet.claim`: claims the lowest free slot.
- Definition {lit}`SlotSet.release?`: frees a slot.
- Definition {lit}`SlotSet.isClaimed?`: whether a slot is claimed.
-/

namespace PhraseLedger

/-- The claimed ones among `size` slots. -/
structure SlotSet where
  size : Nat
  words : List (BitVec 64)
deriving DecidableEq, Repr

namespace SlotSet

/-- Number of slots in a word. -/
def wordSize : Nat := 64

/-- A set of `size` slots, all of them free. -/
def free (size : Nat) : SlotSet :=
  ⟨size, List.replicate ((size + 63) / wordSize) 0⟩

/-- Whether there are no slots at all. -/
def isEmpty (slots : SlotSet) : Bool :=
  slots.size == 0

/-- The lowest bit of a word that is not set. -/
def lowestFree (word : BitVec 64) : Option Nat :=
  (List.range wordSize).find? (!word.getLsbD ·)

/-- Claims the lowest free slot in words that start with slot `first`, or nothing if
every slot below `size` is claimed. -/
def claimFrom (size first : Nat) : List (BitVec 64) → Option (Nat × List (BitVec 64))
  | [] => none
  | word :: rest =>
    match (lowestFree word).filter (first + · < size) with
    | some bit => some (first + bit, (word ||| BitVec.twoPow 64 bit) :: rest)
    | none =>
      (claimFrom size (first + wordSize) rest).map fun claimed =>
        (claimed.1, word :: claimed.2)

/-- Claims the lowest free slot; a full set stays as it is. -/
def claim (slots : SlotSet) : Option Nat × SlotSet :=
  match claimFrom slots.size 0 slots.words with
  | none => (none, slots)
  | some (slot, words) => (some slot, { slots with words := words })

/-- Whether bit `slot` of the words is set. -/
def bit (slots : SlotSet) (slot : Nat) : Bool :=
  match slots.words[slot / wordSize]? with
  | none => false
  | some word => word.getLsbD (slot % wordSize)

/-- Whether a slot is claimed, or nothing if there is no such slot. -/
def isClaimed? (slots : SlotSet) (slot : Nat) : Option Bool :=
  if slot < slots.size then some (slots.bit slot) else none

/-- Frees a slot and tells whether it was claimed, or nothing if there is no such
slot. -/
def release? (slots : SlotSet) (slot : Nat) : Option (Bool × SlotSet) :=
  if slot < slots.size then
    some (slots.bit slot, { slots with
      words := slots.words.modify (slot / wordSize)
        (· &&& ~~~(BitVec.twoPow 64 (slot % wordSize))) })
  else none

/-- Frees a slot; a slot that does not exist changes nothing. -/
def release (slots : SlotSet) (slot : Nat) : SlotSet :=
  match slots.release? slot with
  | none => slots
  | some (_, freed) => freed

/-- Number of set bits of a word. -/
def bitCount (word : BitVec 64) : Nat :=
  (List.range wordSize).countP word.getLsbD

/-- Number of claimed slots. -/
def claimedCount (slots : SlotSet) : Nat :=
  slots.words.foldr (fun word count => bitCount word + count) 0

/-- Number of free slots. -/
def freeCount (slots : SlotSet) : Nat :=
  slots.size - slots.claimedCount

end SlotSet

end PhraseLedger
