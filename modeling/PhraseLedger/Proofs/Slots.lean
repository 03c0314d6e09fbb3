import PhraseLedger.Proofs.Effects
import PhraseLedger.Proofs.Lockstep

/-!
# Slots in bounds

A crew reserves slots that exist only, and the worker of such a slot completes its job or is
aborted, so the slots that are freed exist as well.  What a crew keeps true of its workers holds
after all jobs that are handed out, however they are nested.

Main definitions:

- Definition {lit}`Workers.InBounds`: whether all slots that are on record exist.
- Definition {lit}`Crew.Maintains`: what a crew keeps true of its workers.

Main results:

- Theorem {lit}`Workers.crew_maintains`: the workers of a pool stay within their bounds.
- Theorem {lit}`Session.workers_perform`: a call keeps true what the crew does.
-/

namespace PhraseLedger

variable {σ α : Type}

namespace SlotSet

/-- A slot that is claimed exists, and the words stay as many as they are. -/
theorem claimFrom_bounds {size first slot : Nat} {words after : List (BitVec 64)}
    (hclaim : claimFrom size first words = some (slot, after)) :
    slot < size ∧ after.length = words.length := by
  induction words generalizing first after with
  | nil => cases hclaim
  | cons word rest ih =>
      rw [claimFrom] at hclaim
      split at hclaim
      · rename_i bit hbit
        obtain ⟨rfl, rfl⟩ := Prod.mk.inj (Option.some.inj hclaim)
        rw [Option.filter_eq_some_iff, decide_eq_true_iff] at hbit
        exact ⟨hbit.2, rfl⟩
      · rcases Option.map_eq_some_iff.mp hclaim with ⟨⟨found, later⟩, hrest, hafter⟩
        obtain ⟨rfl, rfl⟩ := Prod.mk.inj hafter
        rcases ih hrest with ⟨hslot, hlength⟩
        exact ⟨hslot, congrArg Nat.succ hlength⟩

/-- A claim takes a slot that exists and changes neither the number of slots nor that of
words. -/
theorem claim_bounds (slots : SlotSet) :
    (∀ slot ∈ slots.claim.1, slot < slots.size) ∧ slots.claim.2.size = slots.size ∧
      slots.claim.2.words.length = slots.words.length := by
  rw [claim]
  split
  · refine ⟨?_, rfl, rfl⟩
    rintro slot ⟨⟩
  · rename_i found words hclaim
    rcases claimFrom_bounds hclaim with ⟨hslot, hlength⟩
    refine ⟨fun slot hfound => ?_, rfl, hlength⟩
    rw [← Option.some.inj hfound]
    exact hslot

/-- A release changes neither the number of slots nor that of words. -/
theorem release_bounds (slots : SlotSet) (slot : Nat) :
    (slots.release slot).size = slots.size ∧
      (slots.release slot).words.length = slots.words.length := by
  rw [release, release?]
  by_cases hslot : slot < slots.size
  · rw [if_pos hslot]
    exact ⟨rfl, List.length_modify ..⟩
  · rw [if_neg hslot]
    exact ⟨rfl, rfl⟩

/-- Releases change neither the number of slots nor that of words. -/
theorem foldl_release_bounds (freed : List Nat) (slots : SlotSet) :
    (freed.foldl release slots).size = slots.size ∧
      (freed.foldl release slots).words.length = slots.words.length := by
  induction freed generalizing slots with
  | nil => exact ⟨rfl, rfl⟩
  | cons slot freed ih =>
      rcases ih (slots.release slot) with ⟨hsize, hlength⟩
      rcases slots.release_bounds slot with ⟨hfirstSize, hfirstLength⟩
      exact ⟨hsize.trans hfirstSize, hlength.trans hfirstLength⟩

end SlotSet

namespace Workers

/-- Whether workers have a bit, a word and an entry for each of `size` slots, and only slots that
exist are to be freed. -/
structure InBounds (size : Nat) (workers : Workers) : Prop where
  slots : workers.slots.size = size
  words : ∀ slot, slot < size → slot / SlotSet.wordSize < workers.slots.words.length
  roster : workers.roster.length = size
  finished : ∀ slot ∈ workers.finished, slot < size

variable {size : Nat}

theorem inBounds_idle (size : Nat) (schedule : Schedule) : (idle size schedule).InBounds size := by
  constructor
  · rfl
  · intro slot hslot
    simp only [idle, SlotSet.free, List.length_replicate, SlotSet.wordSize]
    omega
  · exact List.length_replicate
  · exact fun slot hslot => absurd hslot List.not_mem_nil

theorem InBounds.freeFinished {workers : Workers} (h : workers.InBounds size)
    (back : Nat → Bool) : (workers.freeFinished back).InBounds size := by
  rcases SlotSet.foldl_release_bounds (workers.finished.filter back) workers.slots with
    ⟨hsize, hlength⟩
  exact ⟨hsize.trans h.slots, fun slot hslot => hlength ▸ h.words slot hslot, h.roster,
    fun slot hslot => h.finished slot (List.mem_of_mem_filter hslot)⟩

theorem InBounds.complete {workers : Workers} (h : workers.InBounds size) {slot : Nat}
    (hslot : slot < size) : (workers.complete slot).InBounds size := by
  refine ⟨h.slots, h.words, (List.length_modify ..).trans h.roster, ?_⟩
  exact List.forall_mem_cons.mpr ⟨hslot, h.finished⟩

theorem InBounds.bury {workers : Workers} (h : workers.InBounds size) (slot : Nat) :
    (workers.bury slot).InBounds size :=
  ⟨h.slots, h.words, (List.length_modify ..).trans h.roster, h.finished⟩

/-- A claim reserves a slot that exists. -/
theorem InBounds.claim {workers : Workers} (h : workers.InBounds size) :
    workers.claim.2.InBounds size ∧ ∀ slot ∈ workers.claim.1, slot < size := by
  have hfreed := h.freeFinished (workers.schedule workers.claims)
  rcases (workers.freeFinished (workers.schedule workers.claims)).slots.claim_bounds with
    ⟨hclaimed, hsize, hlength⟩
  rw [Workers.claim]
  simp only
  split
  · refine ⟨⟨hfreed.slots, hfreed.words, hfreed.roster, hfreed.finished⟩, ?_⟩
    rintro slot ⟨⟩
  · rename_i found slots hclaim
    rw [hclaim] at hclaimed hsize hlength
    have hafter : ∀ slot, slot < size → slot / SlotSet.wordSize < slots.words.length :=
      fun slot hslot => hlength ▸ hfreed.words slot hslot
    split
    · refine ⟨⟨hsize.trans hfreed.slots, hafter, hfreed.roster, hfreed.finished⟩, ?_⟩
      intro slot hfound
      exact hfreed.slots ▸ hclaimed slot hfound
    · refine ⟨⟨hsize.trans hfreed.slots, hafter, hfreed.roster, hfreed.finished⟩, ?_⟩
      rintro slot ⟨⟩

end Workers

/-- Whether a crew reserves only slots that are `allowed`, and keeps true of its workers what
`holds` if only such slots are given back. -/
structure Crew.Maintains (crew : Crew σ) (holds : σ → Prop) (allowed : Nat → Prop) : Prop where
  claim : ∀ workers, holds workers →
    holds (crew.claim workers).2 ∧ ∀ slot ∈ (crew.claim workers).1, allowed slot
  complete : ∀ workers slot, holds workers → allowed slot → holds (crew.complete slot workers)
  bury : ∀ workers slot, holds workers → allowed slot → holds (crew.bury slot workers)

/-- The workers of a pool stay within their bounds. -/
theorem Workers.crew_maintains (size : Nat) :
    crew.Maintains (InBounds size) fun slot => slot < size :=
  ⟨fun _ h => h.claim, fun _ _ h hslot => h.complete hslot, fun _ slot h _ => h.bury slot⟩

/-! ## Jobs that are handed out -/

section

variable {crew : Crew σ} {holds : σ → Prop} {allowed : Nat → Prop}

/-- What a crew keeps true of its workers, it keeps true beside itself. -/
theorem Crew.Maintains.agrees (hcrew : crew.Maintains holds allowed) :
    crew.Agrees crew fun busy pool copy =>
      copy = pool ∧ holds pool.workers ∧ ∀ slot ∈ busy, allowed slot := by
  constructor
  · rintro busy pool copy borrowed inline ⟨rfl, hpool, hbusy⟩
    exact ⟨rfl, hpool, hbusy⟩
  · rintro busy pool copy workers ⟨rfl, hpool, hbusy⟩ hclaim
    have hclaimed := (hcrew.claim _ hpool).1
    rw [hclaim] at hclaimed
    exact ⟨workers, hclaim, rfl, hclaimed, hbusy⟩
  · rintro busy pool copy workers slot ⟨rfl, hpool, hbusy⟩ hclaim
    rcases hcrew.claim _ hpool with ⟨hclaimed, hslot⟩
    rw [hclaim] at hclaimed hslot
    exact ⟨workers, hclaim, rfl, hclaimed, List.forall_mem_cons.mpr ⟨hslot slot rfl, hbusy⟩⟩
  · rintro busy pool copy slot ⟨rfl, hpool, hbusy⟩
    rcases List.forall_mem_cons.mp hbusy with ⟨hslot, hrest⟩
    exact ⟨rfl, hcrew.complete _ _ hpool hslot, hrest⟩
  · rintro busy pool copy slot ⟨rfl, hpool, hbusy⟩
    rcases List.forall_mem_cons.mp hbusy with ⟨hslot, hrest⟩
    exact ⟨rfl, hcrew.bury _ _ hpool hslot, hrest⟩

namespace Batch

theorem workers_poolAfter (hcrew : crew.Maintains holds allowed) (index : Index)
    (settings : Settings) (queries : List Query) {pool : Pool σ} (hpool : holds pool.workers) :
    holds (poolAfter crew index settings queries pool).workers := by
  rw [poolAfter]
  split
  · exact hpool
  · rcases Pool.fanOut_agrees hcrew.agrees
      (fun slice _ => sliceJob_agrees hcrew.agrees index settings slice)
      ⟨rfl, hpool, fun slot hslot => absurd hslot List.not_mem_nil⟩ with
      ⟨results, after, later, hfan, -, -, hafter, -⟩
    rw [hfan]
    exact hafter

end Batch

/-- A call keeps true of the workers what their crew does. -/
theorem Session.workers_perform (hcrew : crew.Maintains holds allowed) {session : Session σ}
    (h : session.Ready) (hpool : holds session.pool.workers) (call : Call) :
    holds (session.perform crew call).2.pool.workers := by
  rw [pool_perform h, poolAfter]
  split
  · exact Batch.workers_poolAfter hcrew _ _ _ hpool
  · exact hpool

end

end PhraseLedger
