import Mathlib.Data.Finset.Card
import Mathlib.Order.Bounds.Basic
import PhraseLedger.Proofs.Claims
import PhraseLedger.Proofs.Slots

/-!
# Slots in use

The words of a slot set stand for a set of numbers, those of the bits that are set.  Whatever
calls a slot set has answered, this set lies below the number of slots, and every answer is the
one that the set gives: a claim takes the least slot outside of it, a release takes a slot out
of it, and the queries read it.

Main definitions:

- Definition {lit}`SlotSet.claimed`: the set that the words stand for.
- Definition {lit}`SlotSet.performAll`: the answers to a list of calls.
- Definition {lit}`SlotSet.Answers`: what a set of claimed slots answers to a call.

Main results:

- Theorem {lit}`SlotSet.claimedCount_eq_card`: the bits that are counted are the claimed slots.
- Theorem {lit}`SlotSet.Sound.perform`: one call.
- Theorem {lit}`SlotSet.answers_as_set`: all calls that a slot set has ever answered.
-/

namespace PhraseLedger

/-- A call of a slot set. -/
inductive SlotCall where
  /-- Claims the lowest free slot. -/
  | claim
  /-- Frees a slot. -/
  | release (slot : Nat)
  /-- Asks whether a slot is claimed. -/
  | isClaimed (slot : Nat)
  /-- Asks how many slots are claimed. -/
  | claimedCount
  /-- Asks how many slots there are. -/
  | size
  /-- Asks whether there are no slots at all. -/
  | isEmpty
deriving DecidableEq, Repr

/-- The answer to a call of a slot set. -/
inductive SlotAnswer where
  /-- The slot that is claimed, if one was free. -/
  | slot (found : Option Nat)
  /-- The answer to a question. -/
  | holds (answer : Bool)
  /-- A number of slots. -/
  | number (count : Nat)
  /-- The call fails: there is no such slot. -/
  | refused
deriving DecidableEq, Repr

namespace SlotSet

/-- The answer of a slot set to a call, and the slot set behind it.  A call that fails leaves it
as it is. -/
def perform (slots : SlotSet) : SlotCall → SlotAnswer × SlotSet
  | .claim => (.slot slots.claim.1, slots.claim.2)
  | .release slot =>
    match slots.release? slot with
    | none => (.refused, slots)
    | some (wasClaimed, freed) => (.holds wasClaimed, freed)
  | .isClaimed slot =>
    match slots.isClaimed? slot with
    | none => (.refused, slots)
    | some isClaimed => (.holds isClaimed, slots)
  | .claimedCount => (.number slots.claimedCount, slots)
  | .size => (.number slots.size, slots)
  | .isEmpty => (.holds slots.isEmpty, slots)

/-- The answers of a slot set to calls one after the other, and the slot set behind them. -/
def performAll (slots : SlotSet) : List SlotCall → List SlotAnswer × SlotSet
  | [] => ([], slots)
  | call :: calls =>
    let (answer, next) := slots.perform call
    let (answers, last) := next.performAll calls
    (answer :: answers, last)

/-- The numbers of all bits that are set in the words, also of those that belong to no slot. -/
def claimed (slots : SlotSet) : Finset Nat :=
  (Finset.range (wordSize * slots.words.length)).filter fun slot => slots.bit slot = true

/-! ## The answers of a set -/

/-- What a set of claimed slots, out of `size` slots, answers to a call, and the set of claimed
slots behind the call. -/
inductive Answers (size : Nat) (claimed : Finset Nat) :
    SlotCall → SlotAnswer → Finset Nat → Prop
  /-- The least free slot is claimed. -/
  | claim {slot : Nat} (least : IsLeast {free | free < size ∧ free ∉ claimed} slot) :
      Answers size claimed .claim (.slot (some slot)) (insert slot claimed)
  /-- All slots are claimed. -/
  | full (all : claimed = Finset.range size) :
      Answers size claimed .claim (.slot none) claimed
  /-- A slot is freed. -/
  | release {slot : Nat} (inside : slot < size) :
      Answers size claimed (.release slot) (.holds (decide (slot ∈ claimed))) (claimed.erase slot)
  /-- No slot is freed. -/
  | releaseOutside {slot : Nat} (outside : size ≤ slot) :
      Answers size claimed (.release slot) .refused claimed
  | isClaimed {slot : Nat} (inside : slot < size) :
      Answers size claimed (.isClaimed slot) (.holds (decide (slot ∈ claimed))) claimed
  | isClaimedOutside {slot : Nat} (outside : size ≤ slot) :
      Answers size claimed (.isClaimed slot) .refused claimed
  | claimedCount : Answers size claimed .claimedCount (.number claimed.card) claimed
  | size : Answers size claimed .size (.number size) claimed
  | isEmpty : Answers size claimed .isEmpty (.holds (decide (size = 0))) claimed

/-- What a set of claimed slots answers to calls one after the other, and the set of claimed
slots behind them. -/
inductive AnswersAll (size : Nat) :
    Finset Nat → List SlotCall → List SlotAnswer → Finset Nat → Prop
  | nil {claimed : Finset Nat} : AnswersAll size claimed [] [] claimed
  | cons {claimed next last : Finset Nat} {call : SlotCall} {answer : SlotAnswer}
      {calls : List SlotCall} {answers : List SlotAnswer}
      (first : Answers size claimed call answer next)
      (rest : AnswersAll size next calls answers last) :
      AnswersAll size claimed (call :: calls) (answer :: answers) last

/-! ## Bits and claimed slots -/

/-- A bit that is set lies in a word. -/
theorem lt_of_bit {slots : SlotSet} {slot : Nat} (hbit : slots.bit slot = true) :
    slot < wordSize * slots.words.length := by
  rw [bit] at hbit
  split at hbit
  · cases hbit
  · rename_i hword
    have hindex := (List.getElem?_eq_some_iff.mp hword).1
    rw [wordSize] at *
    omega

@[simp] theorem mem_claimed_iff {slots : SlotSet} {slot : Nat} :
    slot ∈ slots.claimed ↔ slots.bit slot = true := by
  rw [claimed, Finset.mem_filter, Finset.mem_range]
  exact ⟨And.right, fun hbit => ⟨lt_of_bit hbit, hbit⟩⟩

/-- As many slots are claimed as bits are set. -/
theorem claimedCount_eq_countP (slots : SlotSet) :
    slots.claimedCount = (List.range (wordSize * slots.words.length)).countP slots.bit := by
  rcases slots with ⟨size, words⟩
  induction words with
  | nil => rfl
  | cons word rest ih =>
      -- The bits of the first word, and behind them those of the others, a word further on.
      have hfirst : (List.range wordSize).countP (bit ⟨size, word :: rest⟩) = bitCount word := by
        refine List.countP_congr fun slot hslot => ?_
        rw [bit_cons, if_pos (List.mem_range.mp hslot)]
      have hrest : ((List.range (wordSize * rest.length)).map (wordSize + ·)).countP
          (bit ⟨size, word :: rest⟩) = claimedCount ⟨size, rest⟩ := by
        rw [ih, List.countP_map]
        refine List.countP_congr fun slot _ => ?_
        rw [Function.comp_apply, bit_cons, if_neg (by omega), Nat.add_sub_cancel_left]
      have hlength : wordSize * (word :: rest).length = wordSize + wordSize * rest.length := by
        rw [List.length_cons, Nat.mul_succ, Nat.add_comm]
      rw [hlength, List.range_add, List.countP_append, hfirst, hrest]
      rfl

/-- The count of the claimed slots is the size of their set. -/
theorem claimedCount_eq_card (slots : SlotSet) : slots.claimedCount = slots.claimed.card := by
  have hbits : slots.claimed =
      ((List.range (wordSize * slots.words.length)).filter slots.bit).toFinset := by
    ext slot
    rw [claimed, Finset.mem_filter, Finset.mem_range, List.mem_toFinset, List.mem_filter,
      List.mem_range]
  rw [claimedCount_eq_countP, List.countP_eq_length_filter, hbits,
    List.toFinset_card_of_nodup (List.nodup_range.filter _)]

/-! ## Calls -/

/-- Whether a slot set has `size` slots, a bit for each of them, and sets no other bit. -/
structure Sound (size : Nat) (slots : SlotSet) : Prop where
  size_eq : slots.size = size
  words : slots.words.length = (size + 63) / wordSize
  inside : ∀ slot, slots.bit slot = true → slot < size

variable {size : Nat} {slots : SlotSet}

theorem bit_free (size slot : Nat) : (free size).bit slot = false := by
  simp only [free, bit, List.getElem?_replicate]
  split_ifs <;> simp

theorem sound_free (size : Nat) : (free size).Sound size := by
  refine ⟨rfl, List.length_replicate, fun slot hbit => ?_⟩
  rw [bit_free] at hbit
  cases hbit

theorem claimed_free (size : Nat) : (free size).claimed = ∅ := by
  ext slot
  rw [mem_claimed_iff, bit_free]
  simp

theorem Sound.claimed_subset (h : slots.Sound size) : slots.claimed ⊆ Finset.range size :=
  fun slot hslot => Finset.mem_range.mpr (h.inside slot (mem_claimed_iff.mp hslot))

/-- There is a word for every slot. -/
theorem Sound.word_lt (h : slots.Sound size) {slot : Nat} (hslot : slot < size) :
    slot / wordSize < slots.words.length := by
  rw [h.words, wordSize]
  omega

/-- A claim takes the least slot that is not claimed. -/
theorem Sound.claim_some (h : slots.Sound size) {slot : Nat} {after : SlotSet}
    (hclaim : slots.claim = (some slot, after)) :
    IsLeast {free | free < size ∧ free ∉ slots.claimed} slot ∧
      after.claimed = insert slot slots.claimed ∧ after.Sound size := by
  rcases claim_eq_some hclaim with ⟨hslot, hfree, hlower, hafter, -⟩
  have hbounds := slots.claim_bounds
  rw [hclaim] at hbounds
  rcases hbounds with ⟨-, hsize, hlength⟩
  rw [h.size_eq] at hslot
  refine ⟨⟨⟨hslot, ?_⟩, ?_⟩, ?_, ?_⟩
  · rw [mem_claimed_iff, hfree]
    exact Bool.false_ne_true
  · rintro other ⟨-, hother⟩
    by_contra hlt
    exact hother (mem_claimed_iff.mpr (hlower other (not_le.mp hlt)))
  · ext other
    rw [Finset.mem_insert, mem_claimed_iff, mem_claimed_iff, hafter, Bool.or_eq_true, beq_iff_eq,
      or_comm]
  · refine ⟨hsize.trans h.size_eq, hlength.trans h.words, fun other hother => ?_⟩
    rw [hafter, Bool.or_eq_true, beq_iff_eq] at hother
    rcases hother with hother | rfl
    · exact h.inside other hother
    · exact hslot

/-- A claim takes nothing only if every slot is claimed, and then changes nothing. -/
theorem Sound.claim_none (h : slots.Sound size) {after : SlotSet}
    (hclaim : slots.claim = (none, after)) : slots.claimed = Finset.range size ∧ after = slots := by
  constructor
  · refine subset_antisymm h.claimed_subset fun slot hslot => ?_
    rw [Finset.mem_range] at hslot
    exact mem_claimed_iff.mpr
      (claim_eq_none hclaim (h.size_eq.symm ▸ hslot) (h.word_lt hslot)).1
  · rw [claim] at hclaim
    split at hclaim
    · exact (Prod.mk.inj hclaim).2.symm
    · cases hclaim

/-- A release takes its slot out of the claimed ones. -/
theorem Sound.release (h : slots.Sound size) {slot : Nat} (hslot : slot < size) :
    (slots.release slot).claimed = slots.claimed.erase slot ∧ (slots.release slot).Sound size := by
  have hinside : slot < slots.size := h.size_eq.symm ▸ hslot
  rcases slots.release_bounds slot with ⟨hsize, hlength⟩
  constructor
  · ext other
    rw [Finset.mem_erase, mem_claimed_iff, mem_claimed_iff, bit_release hinside, Bool.and_eq_true,
      bne_iff_ne, and_comm]
  · refine ⟨hsize.trans h.size_eq, hlength.trans h.words, fun other hother => ?_⟩
    rw [bit_release hinside, Bool.and_eq_true] at hother
    exact h.inside other hother.1

theorem bit_eq_decide (slots : SlotSet) (slot : Nat) :
    slots.bit slot = decide (slot ∈ slots.claimed) := by
  rw [Bool.eq_iff_iff, decide_eq_true_iff, mem_claimed_iff]

/-- A slot set answers a call as the set of its claimed slots does. -/
theorem Sound.perform (h : slots.Sound size) (call : SlotCall) :
    Answers size slots.claimed call (slots.perform call).1 (slots.perform call).2.claimed ∧
      (slots.perform call).2.Sound size := by
  cases call with
  | claim =>
      rw [SlotSet.perform]
      rcases hclaim : slots.claim with ⟨found, after⟩
      cases found with
      | none =>
          rcases h.claim_none hclaim with ⟨hall, rfl⟩
          exact ⟨.full hall, h⟩
      | some slot =>
          rcases h.claim_some hclaim with ⟨hleast, hafter, hsound⟩
          exact ⟨hafter ▸ .claim hleast, hsound⟩
  | release slot =>
      by_cases hslot : slot < size
      · have hfreed : slots.release? slot = some (slots.bit slot, slots.release slot) := by
          rw [SlotSet.release, release?, if_pos (h.size_eq.symm ▸ hslot)]
        rcases h.release hslot with ⟨hafter, hsound⟩
        simp only [SlotSet.perform, hfreed]
        rw [bit_eq_decide, hafter]
        exact ⟨.release hslot, hsound⟩
      · have hrefused : slots.release? slot = none := by
          rw [release?, if_neg (h.size_eq.symm ▸ hslot)]
        simp only [SlotSet.perform, hrefused]
        exact ⟨.releaseOutside (not_lt.mp hslot), h⟩
  | isClaimed slot =>
      by_cases hslot : slot < size
      · simp only [SlotSet.perform, isClaimed?, h.size_eq, if_pos hslot]
        rw [bit_eq_decide]
        exact ⟨.isClaimed hslot, h⟩
      · simp only [SlotSet.perform, isClaimed?, h.size_eq, if_neg hslot]
        exact ⟨.isClaimedOutside (not_lt.mp hslot), h⟩
  | claimedCount =>
      simp only [SlotSet.perform, claimedCount_eq_card]
      exact ⟨.claimedCount, h⟩
  | size =>
      simp only [SlotSet.perform, h.size_eq]
      exact ⟨.size, h⟩
  | isEmpty =>
      simp only [SlotSet.perform, SlotSet.isEmpty, h.size_eq]
      exact ⟨.isEmpty, h⟩

/-- A slot set answers calls one after the other as the set of its claimed slots does. -/
theorem Sound.performAll (h : slots.Sound size) (calls : List SlotCall) :
    AnswersAll size slots.claimed calls (slots.performAll calls).1
        (slots.performAll calls).2.claimed ∧ (slots.performAll calls).2.Sound size := by
  induction calls generalizing slots with
  | nil => exact ⟨.nil, h⟩
  | cons call calls ih =>
      rcases h.perform call with ⟨hfirst, hsound⟩
      rcases ih hsound with ⟨hrest, hlast⟩
      exact ⟨.cons hfirst hrest, hlast⟩

/-- Whatever calls a slot set answers from its creation on, it answers them as a set of claimed
slots that is empty at first.  Its words, of which there are as many as its slots need, stand
for this set, and no bit is set that does not belong to a slot. -/
theorem answers_as_set (size : Nat) (calls : List SlotCall) :
    AnswersAll size ∅ calls ((free size).performAll calls).1
        ((free size).performAll calls).2.claimed ∧
      ((free size).performAll calls).2.claimed ⊆ Finset.range size ∧
      ((free size).performAll calls).2.words.length = (size + 63) / wordSize := by
  rcases (sound_free size).performAll calls with ⟨hanswers, hsound⟩
  rw [claimed_free] at hanswers
  exact ⟨hanswers, hsound.claimed_subset, hsound.words⟩

end SlotSet

end PhraseLedger
