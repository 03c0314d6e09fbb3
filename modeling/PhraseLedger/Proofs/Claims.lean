import Mathlib.Data.List.Nodup
import Mathlib.Data.List.Range
import PhraseLedger.SlotSet

/-!
# Claims of slots

A slot set is held in words of 64 bits, but a claim and a release act on it as on a list of
bits: a claim takes the lowest slot whose bit is not set, and a release unsets one bit.

Main results:

- Theorem {lit}`SlotSet.claim_eq_none`: when nothing is claimed, every slot is claimed already.
- Theorem {lit}`SlotSet.claim_eq_some`: what a claim takes and what it changes.
- Theorem {lit}`SlotSet.bit_release`: what a release changes.
-/

namespace PhraseLedger

namespace SlotSet

variable {size first slot : Nat} {words after : List (BitVec 64)}

/-! ## Words -/

/-- Bits behind the first word are those of the words behind it. -/
theorem bit_cons (size : Nat) (word : BitVec 64) (rest : List (BitVec 64)) (i : Nat) :
    bit ⟨size, word :: rest⟩ i =
      if i < wordSize then word.getLsbD i else bit ⟨size, rest⟩ (i - wordSize) := by
  rw [bit, bit, wordSize]
  split_ifs with hfirst
  · rw [Nat.div_eq_of_lt hfirst, Nat.mod_eq_of_lt hfirst]
    rfl
  · have hdiv : i / 64 = (i - 64) / 64 + 1 := by omega
    have hmod : i % 64 = (i - 64) % 64 := by omega
    rw [hdiv, hmod, List.getElem?_cons_succ]

theorem lowestFree_eq_some {word : BitVec 64} {i : Nat} (hfree : lowestFree word = some i) :
    i < wordSize ∧ word.getLsbD i = false ∧ ∀ lower < i, word.getLsbD lower = true := by
  rw [lowestFree, List.find?_range_eq_some, List.mem_range] at hfree
  rcases hfree with ⟨hunset, hbound, hlower⟩
  refine ⟨hbound, Bool.not_eq_true' _ ▸ hunset, fun lower hlt => ?_⟩
  have hset := hlower lower hlt
  rwa [Bool.not_not] at hset

theorem lowestFree_eq_none {word : BitVec 64} (hfull : lowestFree word = none) :
    ∀ i < wordSize, word.getLsbD i = true := by
  intro i hbound
  have hset := List.find?_range_eq_none.mp hfull i hbound
  rwa [Bool.not_not] at hset

/-- The bits of a word of which no slot below `size` is free. -/
theorem getLsbD_of_filter_eq_none {word : BitVec 64} {i : Nat}
    (hfull : (lowestFree word).filter (first + · < size) = none) (hbound : i < wordSize)
    (hsize : first + i < size) : word.getLsbD i = true := by
  cases hfree : lowestFree word with
  | none => exact lowestFree_eq_none hfree i hbound
  | some free =>
      rw [hfree, Option.filter_some] at hfull
      split_ifs at hfull with hinside
      rw [decide_eq_true_iff] at hinside
      exact (lowestFree_eq_some hfree).2.2 i (by omega)

/-- One bit more is set when a bit is set that was not. -/
theorem bitCount_or_twoPow {word : BitVec 64} {i : Nat} (hbound : i < wordSize)
    (hunset : word.getLsbD i = false) :
    bitCount (word ||| BitVec.twoPow 64 i) = bitCount word + 1 := by
  have hcount : ∀ bits : List Nat, bits.countP (word ||| BitVec.twoPow 64 i).getLsbD =
      bits.countP word.getLsbD + bits.count i := by
    intro bits
    induction bits with
    | nil => rfl
    | cons bit bits ih =>
        rw [List.countP_cons, List.countP_cons, List.count_cons, ih, BitVec.getLsbD_or,
          BitVec.getLsbD_twoPow]
        by_cases hbit : bit = i
        · subst hbit
          have hset : (decide (bit < 64) && decide (bit = bit)) = true := by
            simp [show bit < 64 from hbound]
          rw [hunset, hset, if_pos (beq_self_eq_true bit)]
          simp only [Bool.or_true, if_true, Bool.false_eq_true, if_false]
          omega
        · simp [hbit, Ne.symm hbit]
          omega
  rw [bitCount, bitCount, hcount,
    List.count_eq_one_of_mem List.nodup_range (List.mem_range.mpr hbound)]

/-! ## Claims -/

/-- A claim among words takes the lowest free slot, if it takes one. -/
theorem claimFrom_eq_some (hclaim : claimFrom size first words = some (slot, after)) :
    ∃ offset, slot = first + offset ∧ slot < size ∧ bit ⟨size, words⟩ offset = false ∧
      (∀ lower < offset, bit ⟨size, words⟩ lower = true) ∧
      (∀ other, bit ⟨size, after⟩ other = (bit ⟨size, words⟩ other || other == offset)) ∧
      claimedCount ⟨size, after⟩ = claimedCount ⟨size, words⟩ + 1 := by
  induction words generalizing first after with
  | nil => cases hclaim
  | cons word rest ih =>
      rw [claimFrom] at hclaim
      split at hclaim
      · rename_i free hfree
        obtain ⟨rfl, rfl⟩ := Prod.mk.inj (Option.some.inj hclaim)
        rw [Option.filter_eq_some_iff, decide_eq_true_iff] at hfree
        rcases hfree with ⟨hlowest, hsize⟩
        rcases lowestFree_eq_some hlowest with ⟨hbound, hunset, hlower⟩
        refine ⟨free, rfl, hsize, ?_, ?_, ?_, ?_⟩
        · rw [bit_cons, if_pos hbound, hunset]
        · intro lower hlt
          rw [bit_cons, if_pos (hlt.trans hbound), hlower lower hlt]
        · intro other
          rw [bit_cons, bit_cons]
          split_ifs with hother
          · rw [BitVec.getLsbD_or, BitVec.getLsbD_twoPow]
            simp [show free < 64 from hbound, beq_eq_decide, eq_comm]
          · have hne : (other == free) = false := by
              rw [beq_eq_false_iff_ne]
              omega
            rw [hne, Bool.or_false]
        · simp only [claimedCount, List.foldr_cons]
          rw [bitCount_or_twoPow hbound hunset]
          omega
      · rename_i hfull
        rcases Option.map_eq_some_iff.mp hclaim with ⟨⟨found, later⟩, hrest, hafter⟩
        obtain ⟨rfl, rfl⟩ := Prod.mk.inj hafter
        rcases ih hrest with ⟨offset, rfl, hsize, hunset, hlower, hafter, hcount⟩
        -- The slot that is found is in a later word, so all of this word is below `size`.
        have hword : ∀ i < wordSize, word.getLsbD i = true := fun i hbound =>
          getLsbD_of_filter_eq_none hfull hbound (by omega)
        refine ⟨wordSize + offset, by omega, hsize, ?_, ?_, ?_, ?_⟩
        · rw [bit_cons, if_neg (by omega), Nat.add_sub_cancel_left, hunset]
        · intro lower hlt
          rw [bit_cons]
          split_ifs with hbound
          · exact hword lower hbound
          · exact hlower _ (by omega)
        · intro other
          rw [bit_cons, bit_cons]
          split_ifs with hbound
          · have hne : (other == wordSize + offset) = false := by
              rw [beq_eq_false_iff_ne]
              omega
            rw [hne, Bool.or_false]
          · rw [hafter]
            congr 1
            rw [Bool.eq_iff_iff, beq_iff_eq, beq_iff_eq]
            omega
        · simp only [claimedCount, List.foldr_cons] at hcount ⊢
          omega

/-- When a claim among words takes nothing, every slot is claimed. -/
theorem claimFrom_eq_none (hclaim : claimFrom size first words = none) {offset : Nat}
    (hsize : first + offset < size) (hwords : offset / wordSize < words.length) :
    bit ⟨size, words⟩ offset = true := by
  induction words generalizing first offset with
  | nil => exact absurd hwords (Nat.not_lt_zero _)
  | cons word rest ih =>
      rw [claimFrom] at hclaim
      split at hclaim
      · cases hclaim
      · rename_i hfull
        rw [bit_cons]
        split_ifs with hbound
        · exact getLsbD_of_filter_eq_none hfull hbound hsize
        · refine ih (Option.map_eq_none_iff.mp hclaim) (by omega) ?_
          rw [List.length_cons, wordSize] at *
          omega

/-- When nothing can be claimed, every slot is claimed. -/
theorem claim_eq_none {slots after : SlotSet} (hclaim : slots.claim = (none, after))
    (hslot : slot < slots.size) (hwords : slot / wordSize < slots.words.length) :
    slots.bit slot = true ∧ after = slots := by
  rw [claim] at hclaim
  split at hclaim
  · rename_i hnone
    obtain ⟨-, rfl⟩ := Prod.mk.inj hclaim
    refine ⟨claimFrom_eq_none hnone ?_ hwords, rfl⟩
    rwa [Nat.zero_add]
  · cases hclaim

/-- A claim takes the lowest free slot and sets its bit. -/
theorem claim_eq_some {slots after : SlotSet} (hclaim : slots.claim = (some slot, after)) :
    slot < slots.size ∧ slots.bit slot = false ∧ (∀ lower < slot, slots.bit lower = true) ∧
      (∀ other, after.bit other = (slots.bit other || other == slot)) ∧
      after.claimedCount = slots.claimedCount + 1 := by
  rw [claim] at hclaim
  split at hclaim
  · cases hclaim
  · rename_i found words hsome
    obtain ⟨hfound, rfl⟩ := Prod.mk.inj hclaim
    obtain rfl := Option.some.inj hfound
    rcases claimFrom_eq_some hsome with ⟨offset, hslot, hrest⟩
    obtain rfl : found = offset := hslot.trans (Nat.zero_add offset)
    exact hrest

/-! ## Releases -/

/-- A release unsets the bit of its slot. -/
theorem bit_release {slots : SlotSet} (hslot : slot < slots.size) (other : Nat) :
    (slots.release slot).bit other = (slots.bit other && other != slot) := by
  rw [release, release?, if_pos hslot]
  simp only [bit, List.getElem?_modify, wordSize]
  cases slots.words[other / 64]? with
  | none => rfl
  | some word =>
      by_cases hword : slot / 64 = other / 64
      · have hmod : (slot % 64 = other % 64) ↔ slot = other := by omega
        simp [hword, hmod, bne, beq_eq_decide, Nat.mod_lt, eq_comm]
      · have hne : (other != slot) = true := by
          rw [bne_iff_ne]
          rintro rfl
          exact hword rfl
        simp [hword, hne]

/-- Releases unset the bits of their slots. -/
theorem bit_foldl_release {freed : List Nat} {slots : SlotSet}
    (hfreed : ∀ slot ∈ freed, slot < slots.size) (other : Nat) :
    (freed.foldl release slots).bit other = (slots.bit other && !freed.contains other) := by
  induction freed generalizing slots with
  | nil => simp
  | cons slot freed ih =>
      rcases List.forall_mem_cons.mp hfreed with ⟨hslot, hrest⟩
      have hsize : (slots.release slot).size = slots.size := by
        rw [release, release?, if_pos hslot]
      rw [List.foldl_cons, ih (by rwa [hsize]), bit_release hslot, List.contains_cons,
        Bool.not_or, Bool.and_assoc]
      rfl

end SlotSet

end PhraseLedger
