import PhraseLedger.Proofs.Claims
import PhraseLedger.Proofs.Slots

/-!
# Slots and their workers

Until the workers are stopped, a slot is free exactly when its worker is alive, has no job under
way, and has freed its slot behind the last one.  So a claim never finds a slot whose worker is
gone, and it takes the lowest slot that it could take.  Stopped workers take no job, and each
claim costs them one slot at most.

Main definitions:

- Definition {lit}`Workers.Kept`: what holds of the workers until they are stopped.
- Definition {lit}`Workers.Closed`: what holds of them afterwards.

Main results:

- Theorem {lit}`Workers.Kept.accept`: a claim that takes a slot.
- Theorem {lit}`Workers.Kept.claim_at_rest`: a claim among workers of which none has a job takes
  the slot of the first one that is alive.
- Theorem {lit}`Workers.Kept.stop_reports`: what stopped workers report.
- Theorem {lit}`Workers.Closed.claim`: a claim among stopped workers.
-/

namespace PhraseLedger

namespace Workers

variable {size slot : Nat} {handed busy : List Nat} {workers after : Workers}

/-- Whether no job aborted the worker of a slot. -/
def isAlive (workers : Workers) (slot : Nat) : Bool :=
  workers.roster[slot]?.any Worker.alive

/-- What holds of workers that are not stopped, if jobs were handed to the workers of the slots of
`handed` and those of `busy` have theirs under way. -/
structure Kept (size : Nat) (handed busy : List Nat) (workers : Workers) : Prop where
  bounds : workers.InBounds size
  serving : workers.stopped = false
  quiet : workers.warnings = []
  free_iff : ∀ slot < size, workers.slots.bit slot = false ↔
    workers.isAlive slot = true ∧ slot ∉ busy ∧ slot ∉ workers.finished
  nodup : busy.Nodup
  underway : ∀ slot ∈ busy,
    slot < size ∧ workers.isAlive slot = true ∧ slot ∉ workers.finished
  finished : ∀ slot ∈ workers.finished, workers.isAlive slot = true
  completed : ∀ slot worker, workers.roster[slot]? = some worker → worker.alive = true →
    worker.completed + busy.count slot = handed.count slot

theorem isAlive_idle {schedule : Schedule} (hslot : slot < size) :
    (idle size schedule).isAlive slot = true := by
  rw [isAlive, idle, List.getElem?_replicate, if_pos hslot]
  rfl

theorem bit_idle (size : Nat) (schedule : Schedule) (slot : Nat) :
    (idle size schedule).slots.bit slot = false := by
  simp only [idle, SlotSet.free, SlotSet.bit, List.getElem?_replicate]
  split_ifs
  · exact BitVec.getLsbD_zero
  · rfl

/-- Idle workers have no job. -/
theorem kept_idle (size : Nat) (schedule : Schedule) : (idle size schedule).Kept size [] [] := by
  constructor
  · exact inBounds_idle size schedule
  · rfl
  · rfl
  · intro slot hslot
    rw [bit_idle, isAlive_idle hslot]
    exact iff_of_true rfl ⟨rfl, List.not_mem_nil, List.not_mem_nil⟩
  · exact List.nodup_nil
  · exact fun slot hslot => absurd hslot List.not_mem_nil
  · exact fun slot hslot => absurd hslot List.not_mem_nil
  · intro slot worker hworker halive
    rw [idle, List.getElem?_replicate] at hworker
    split_ifs at hworker
    obtain rfl := Option.some.inj hworker
    rfl

/-- The slots of finished workers become free, in whatever order. -/
theorem Kept.freeFinished (h : workers.Kept size handed busy) (back : Nat → Bool) :
    (workers.freeFinished back).Kept size handed busy := by
  constructor
  · exact h.bounds.freeFinished back
  · exact h.serving
  · exact h.quiet
  · intro slot hslot
    have hinside : ∀ freed ∈ workers.finished.filter back, freed < workers.slots.size :=
      fun freed hfreed => h.bounds.slots ▸ h.bounds.finished freed (List.mem_of_mem_filter hfreed)
    have hbit : (workers.freeFinished back).slots.bit slot =
        (workers.slots.bit slot && !(workers.finished.filter back).contains slot) :=
      SlotSet.bit_foldl_release hinside slot
    have hold := h.free_iff slot hslot
    have halive := h.finished slot
    have hapart : slot ∈ busy → slot ∉ workers.finished := fun hbusy => (h.underway slot hbusy).2.2
    rw [hbit, Bool.and_eq_false_iff, hold, Bool.not_eq_false', List.contains_iff_mem,
      List.mem_filter]
    simp only [Workers.freeFinished, List.mem_filter, Bool.not_eq_true']
    constructor
    · rintro (⟨hlives, hidle, hopen⟩ | ⟨hfinished, hback⟩)
      · exact ⟨hlives, hidle, fun hmem => hopen hmem.1⟩
      · refine ⟨halive hfinished, fun hbusy => hapart hbusy hfinished, fun hmem => ?_⟩
        rw [hback] at hmem
        cases hmem.2
    · rintro ⟨hlives, hidle, hopen⟩
      by_cases hfinished : slot ∈ workers.finished
      · refine Or.inr ⟨hfinished, ?_⟩
        by_contra hback
        exact hopen ⟨hfinished, Bool.not_eq_true _ ▸ hback⟩
      · exact Or.inl ⟨hlives, hidle, hfinished⟩
  · exact h.nodup
  · intro slot hbusy
    rcases h.underway slot hbusy with ⟨hslot, halive, hapart⟩
    exact ⟨hslot, halive, fun hmem => hapart (List.mem_of_mem_filter hmem)⟩
  · exact fun slot hmem => h.finished slot (List.mem_of_mem_filter hmem)
  · exact h.completed

/-- The workers at the moment of a claim: some have freed their slots by then. -/
def reopen (workers : Workers) : Workers :=
  { workers.freeFinished (workers.schedule workers.claims) with claims := workers.claims + 1 }

/-- The workers with other slots claimed. -/
def withSlots (workers : Workers) (slots : SlotSet) : Workers :=
  { workers with slots := slots }

/-- What a claim can do: take nothing, take a slot, or find a slot whose worker is gone. -/
theorem claim_cases (workers : Workers) :
    (∃ slots, workers.reopen.slots.claim = (none, slots) ∧
      workers.claim = (none, workers.reopen)) ∨
    ∃ slot slots, workers.reopen.slots.claim = (some slot, slots) ∧
      ((workers.isServing slot = true ∧
          workers.claim = (some slot, workers.reopen.withSlots slots)) ∨
        (workers.isServing slot = false ∧
          workers.claim =
            (none, (workers.reopen.withSlots slots).warn (goneWarning slot)))) := by
  rcases hslots : workers.reopen.slots.claim with ⟨_ | slot, slots⟩
  · refine Or.inl ⟨slots, rfl, ?_⟩
    rw [reopen] at hslots ⊢
    simp only [claim, hslots]
    rfl
  · refine Or.inr ⟨slot, slots, rfl, ?_⟩
    have hclaim : workers.claim =
        if workers.isServing slot then (some slot, workers.reopen.withSlots slots)
        else (none, (workers.reopen.withSlots slots).warn (goneWarning slot)) := by
      rw [reopen] at hslots ⊢
      simp only [claim, hslots]
      rfl
    rw [hclaim]
    cases hserves : workers.isServing slot with
    | true => exact Or.inl ⟨rfl, if_pos rfl⟩
    | false => exact Or.inr ⟨rfl, if_neg Bool.false_ne_true⟩

theorem Kept.reopen (h : workers.Kept size handed busy) :
    workers.reopen.Kept size handed busy := by
  have hfreed := h.freeFinished (workers.schedule workers.claims)
  exact ⟨⟨hfreed.bounds.slots, hfreed.bounds.words, hfreed.bounds.roster, hfreed.bounds.finished⟩,
    hfreed.serving, hfreed.quiet, hfreed.free_iff, hfreed.nodup, hfreed.underway, hfreed.finished,
    hfreed.completed⟩

/-- A claim takes the lowest slot that is free, if there is one, and so it never finds a slot
whose worker is gone. -/
theorem Kept.claim (h : workers.Kept size handed busy) :
    (workers.claim = (none, workers.reopen) ∧
      ∀ slot < size, workers.reopen.slots.bit slot = true) ∨
    ∃ slot slots, workers.claim = (some slot, workers.reopen.withSlots slots) ∧
      slot < size ∧ workers.reopen.slots.bit slot = false ∧
      (∀ lower < slot, workers.reopen.slots.bit lower = true) ∧ slots.size = size ∧
      slots.words.length = workers.reopen.slots.words.length ∧
      ∀ other, slots.bit other = (workers.reopen.slots.bit other || other == slot) := by
  have hopen := h.reopen
  rcases claim_cases workers with ⟨slots, hslots, hclaim⟩ | ⟨slot, slots, hslots, hclaim⟩
  · refine Or.inl ⟨hclaim, fun slot hslot => ?_⟩
    exact (SlotSet.claim_eq_none hslots (hopen.bounds.slots ▸ hslot)
      (hopen.bounds.words slot hslot)).1
  · rcases SlotSet.claim_eq_some hslots with ⟨hbound, hfree, hlower, hafter, -⟩
    rcases workers.reopen.slots.claim_bounds with ⟨-, hsize, hlength⟩
    rw [hslots] at hsize hlength
    rw [hopen.bounds.slots] at hbound hsize
    have halive := ((hopen.free_iff slot hbound).mp hfree).1
    have hserves : workers.isServing slot = true := by
      rw [isServing, h.serving]
      exact halive
    rw [hserves] at hclaim
    rcases hclaim with ⟨-, hclaim⟩ | ⟨hgone, -⟩
    · exact Or.inr ⟨slot, slots, hclaim, hbound, hfree, hlower, hsize, hlength, hafter⟩
    · cases hgone

/-- A claim that takes nothing hands no job to anybody. -/
theorem Kept.refuse (h : workers.Kept size handed busy) (hclaim : workers.claim = (none, after)) :
    after.Kept size handed busy := by
  rcases h.claim with ⟨hnone, -⟩ | ⟨slot, slots, hsome, -⟩
  · obtain ⟨-, rfl⟩ := Prod.mk.inj (hclaim.symm.trans hnone)
    exact h.reopen
  · cases hsome.symm.trans hclaim

/-- A job is handed to the worker of the slot that a claim takes. -/
theorem Kept.accept (h : workers.Kept size handed busy)
    (hclaim : workers.claim = (some slot, after)) :
    after.Kept size (handed ++ [slot]) (slot :: busy) := by
  have hopen := h.reopen
  rcases h.claim with
    ⟨hnone, -⟩ | ⟨found, slots, hsome, hbound, hfree, -, hsize, hlength, hafter⟩
  · cases hnone.symm.trans hclaim
  obtain ⟨hfound, rfl⟩ := Prod.mk.inj (hclaim.symm.trans hsome)
  obtain rfl := Option.some.inj hfound
  rcases (hopen.free_iff slot hbound).mp hfree with ⟨halive, hidle, hunfinished⟩
  constructor
  · exact ⟨hsize, fun other hother => hlength ▸ hopen.bounds.words other hother,
      hopen.bounds.roster, hopen.bounds.finished⟩
  · exact hopen.serving
  · exact hopen.quiet
  · intro other hother
    have hold := hopen.free_iff other hother
    have hbit : (workers.reopen.withSlots slots).slots.bit other =
        (workers.reopen.slots.bit other || other == slot) := hafter other
    rw [hbit, Bool.or_eq_false_iff, hold, beq_eq_false_iff_ne, List.mem_cons, not_or]
    constructor
    · rintro ⟨⟨hlives, hquiet, hrest⟩, hne⟩
      exact ⟨hlives, ⟨hne, hquiet⟩, hrest⟩
    · rintro ⟨hlives, ⟨hne, hquiet⟩, hrest⟩
      exact ⟨⟨hlives, hquiet, hrest⟩, hne⟩
  · exact List.nodup_cons.mpr ⟨hidle, hopen.nodup⟩
  · exact List.forall_mem_cons.mpr ⟨⟨hbound, halive, hunfinished⟩, hopen.underway⟩
  · exact hopen.finished
  · intro other worker hworker hlives
    rw [List.count_append, List.count_cons, List.count_singleton,
      ← hopen.completed other worker hworker hlives, Nat.add_assoc]

/-- Among workers of which none has a job, a claim takes the slot of the first one that is
alive. -/
theorem Kept.claim_at_rest (h : workers.Kept size handed []) (hrest : workers.finished = []) :
    workers.claim.1 = (List.range size).find? workers.isAlive := by
  have hopen := h.reopen
  have hfinished : workers.reopen.finished = [] := by
    rw [Workers.reopen, Workers.freeFinished, hrest]
    rfl
  have hfree : ∀ slot < size, workers.reopen.slots.bit slot = false ↔
      workers.isAlive slot = true := by
    intro slot hslot
    rw [hopen.free_iff slot hslot, hfinished]
    simp only [List.not_mem_nil, not_false_eq_true, and_true]
    rfl
  rcases h.claim with ⟨hnone, hfull⟩ | ⟨slot, slots, hsome, hbound, hunset, hlower, -⟩
  · rw [hnone, eq_comm, List.find?_range_eq_none]
    intro slot hslot
    rw [Bool.not_eq_true', Bool.eq_false_iff, ne_eq, ← hfree slot hslot, hfull slot hslot]
    exact nofun
  · rw [hsome, eq_comm, List.find?_range_eq_some, List.mem_range]
    refine ⟨(hfree slot hbound).mp hunset, hbound, fun lower hlt => ?_⟩
    rw [Bool.not_eq_true', Bool.eq_false_iff, ne_eq, ← hfree lower (hlt.trans hbound),
      hlower lower hlt]
    exact nofun

theorem isAlive_complete (workers : Workers) (slot other : Nat) :
    (workers.complete slot).isAlive other = workers.isAlive other := by
  simp only [isAlive, complete, List.getElem?_modify]
  cases workers.roster[other]? with
  | none => rfl
  | some worker => by_cases hother : slot = other <;> simp [hother]

theorem isAlive_bury (workers : Workers) (slot other : Nat) :
    (workers.bury slot).isAlive other = (workers.isAlive other && other != slot) := by
  simp only [isAlive, bury, List.getElem?_modify]
  cases workers.roster[other]? with
  | none => rfl
  | some worker =>
      by_cases hother : slot = other
      · simp [hother]
      · simp [hother, Ne.symm hother]

/-- A worker that completed its job has yet to free its slot. -/
theorem Kept.complete (h : workers.Kept size handed (slot :: busy)) :
    (workers.complete slot).Kept size handed busy := by
  rcases List.nodup_cons.mp h.nodup with ⟨hfresh, hnodup⟩
  rcases List.forall_mem_cons.mp h.underway with ⟨⟨hslot, halive, -⟩, hunderway⟩
  constructor
  · exact h.bounds.complete hslot
  · exact h.serving
  · exact h.quiet
  · intro other hother
    have hold := h.free_iff other hother
    have hbit : (workers.complete slot).slots.bit other = workers.slots.bit other := rfl
    have hfinished : (workers.complete slot).finished = slot :: workers.finished := rfl
    rw [hbit, hold, isAlive_complete, hfinished, List.mem_cons, List.mem_cons, not_or, not_or]
    tauto
  · exact hnodup
  · intro other hbusy
    rcases hunderway other hbusy with ⟨hother, hlives, hapart⟩
    refine ⟨hother, (isAlive_complete workers slot other).trans hlives, fun hmem => ?_⟩
    rcases List.mem_cons.mp hmem with rfl | hmem
    · exact hfresh hbusy
    · exact hapart hmem
  · refine List.forall_mem_cons.mpr ⟨?_, fun other hother => ?_⟩
    · rw [isAlive_complete]
      exact halive
    · rw [isAlive_complete]
      exact h.finished other hother
  · intro other worker hworker hlives
    simp only [Workers.complete, List.getElem?_modify] at hworker
    rcases Option.map_eq_some_iff.mp hworker with ⟨before, hbefore, rfl⟩
    have hcount := h.completed other before hbefore
    rw [List.count_cons] at hcount
    by_cases hother : slot = other
    · subst hother
      simp only [if_true] at hlives ⊢
      have hold := hcount hlives
      rw [if_pos (beq_self_eq_true slot)] at hold
      omega
    · simp only [if_neg hother] at hlives ⊢
      have hold := hcount hlives
      rw [if_neg (by simpa using hother)] at hold
      exact hold

/-- The slot of a worker that was aborted is never free again. -/
theorem Kept.bury (h : workers.Kept size handed (slot :: busy)) :
    (workers.bury slot).Kept size handed busy := by
  rcases List.nodup_cons.mp h.nodup with ⟨hfresh, hnodup⟩
  rcases List.forall_mem_cons.mp h.underway with ⟨⟨-, -, hclaimed⟩, hunderway⟩
  constructor
  · exact h.bounds.bury slot
  · exact h.serving
  · exact h.quiet
  · intro other hother
    have hold := h.free_iff other hother
    have hbit : (workers.bury slot).slots.bit other = workers.slots.bit other := rfl
    have hfinished : (workers.bury slot).finished = workers.finished := rfl
    rw [hbit, hold, isAlive_bury, hfinished, List.mem_cons, not_or, Bool.and_eq_true,
      bne_iff_ne]
    tauto
  · exact hnodup
  · intro other hbusy
    rcases hunderway other hbusy with ⟨hother, hlives, hapart⟩
    refine ⟨hother, ?_, hapart⟩
    rw [isAlive_bury, hlives, Bool.true_and, bne_iff_ne]
    rintro rfl
    exact hfresh hbusy
  · intro other hother
    rw [isAlive_bury, h.finished other hother, Bool.true_and, bne_iff_ne]
    rintro rfl
    exact hclaimed hother
  · intro other worker hworker hlives
    simp only [Workers.bury, List.getElem?_modify] at hworker
    rcases Option.map_eq_some_iff.mp hworker with ⟨before, hbefore, rfl⟩
    by_cases hother : slot = other
    · rw [if_pos hother] at hlives
      cases hlives
    · rw [if_neg hother] at hlives ⊢
      have hold := h.completed other before hbefore hlives
      rw [List.count_cons, if_neg (by simpa using hother)] at hold
      exact hold

/-! ## Stopped workers -/

/-- Whether workers were stopped, of which none had a job. -/
structure Closed (workers : Workers) : Prop where
  stopped : workers.stopped = true
  finished : workers.finished = []

/-- Workers that are stopped report the jobs that were handed to those that are alive, in the
order of their slots. -/
theorem Kept.stop_reports (h : workers.Kept size handed []) :
    workers.stop.1 = ((List.range size).filter workers.isAlive).map fun slot =>
      (slot, handed.count slot) := by
  have hroster : workers.roster.zipIdx =
      (List.range size).map fun slot => (workers.roster.getD slot ⟨false, 0⟩, slot) := by
    refine List.ext_getElem (by simp [h.bounds.roster]) fun slot hslot _ => ?_
    rw [List.length_zipIdx] at hslot
    simp [List.getD_eq_getElem?_getD, hslot]
  have halive : ∀ slot, (workers.roster.getD slot ⟨false, 0⟩).alive = workers.isAlive slot := by
    intro slot
    rw [isAlive, List.getD_eq_getElem?_getD]
    cases workers.roster[slot]? <;> rfl
  rw [stop, if_neg (Bool.eq_false_iff.mp h.serving)]
  simp only [hroster, List.filter_map, List.map_map, Function.comp_def, halive]
  refine List.map_congr_left fun slot hslot => ?_
  have hlives := (List.mem_filter.mp hslot).2
  rw [isAlive] at hlives
  cases hworker : workers.roster[slot]? with
  | none =>
      rw [hworker] at hlives
      cases hlives
  | some worker =>
      rw [hworker] at hlives
      rw [List.getD_eq_getElem?_getD, hworker, Option.getD_some,
        ← h.completed slot worker hworker hlives]
      rfl

/-- Workers that have no job are stopped for good. -/
theorem closed_stop (workers : Workers) (hfinished : workers.finished = []) :
    workers.stop.2.Closed := by
  have hwarn : ∀ (silent : List String) (workers : Workers), workers.Closed →
      (silent.foldl warn workers).Closed := by
    intro silent
    induction silent with
    | nil => exact fun _ hclosed => hclosed
    | cons text silent ih => exact fun workers hclosed => ih _ ⟨hclosed.stopped, hclosed.finished⟩
  rw [stop]
  by_cases hstopped : workers.stopped = true
  · rw [if_pos hstopped]
    exact ⟨hstopped, hfinished⟩
  · rw [if_neg hstopped]
    refine hwarn _ _ ⟨rfl, ?_⟩
    simp only [settle, Workers.freeFinished, hfinished]
    rfl

/-- Workers that were stopped report nothing when they are stopped again. -/
theorem Closed.stop_reports (h : workers.Closed) : workers.stop.1 = [] := by
  rw [stop, if_pos h.stopped]

/-- A claim among stopped workers takes nothing, and costs at most one slot. -/
theorem Closed.claim (h : workers.Closed) :
    ∃ after, workers.claim = (none, after) ∧ after.Closed ∧ after.roster = workers.roster ∧
      after.claims = workers.claims + 1 ∧ after.idleCount ≤ workers.idleCount ∧
      workers.idleCount ≤ after.idleCount + 1 := by
  have hslots : workers.reopen.slots = workers.slots := by
    simp only [Workers.reopen, Workers.freeFinished, h.finished]
    rfl
  have hclosed : workers.reopen.Closed := by
    refine ⟨h.stopped, ?_⟩
    simp only [Workers.reopen, Workers.freeFinished, h.finished]
    rfl
  have hgone : ∀ slot, workers.isServing slot = false := by
    intro slot
    rw [Workers.isServing, h.stopped]
    rfl
  rcases claim_cases workers with ⟨slots, -, hclaim⟩ | ⟨slot, slots, hfound, hclaim⟩
  · refine ⟨workers.reopen, hclaim, hclosed, rfl, rfl, ?_, ?_⟩ <;>
      rw [idleCount, idleCount, hslots]
    exact Nat.le_succ _
  · rcases hclaim with ⟨hserves, -⟩ | ⟨-, hclaim⟩
    · rw [hgone] at hserves
      cases hserves
    · rw [hslots] at hfound
      rcases SlotSet.claim_eq_some hfound with ⟨-, -, -, -, hcount⟩
      rcases workers.slots.claim_bounds with ⟨-, hsize, -⟩
      rw [hfound] at hsize
      have hidle : ((workers.reopen.withSlots slots).warn (goneWarning slot)).idleCount =
          workers.slots.size - (workers.slots.claimedCount + 1) := by
        rw [← hcount, ← hsize]
        rfl
      refine ⟨_, hclaim, ⟨hclosed.stopped, hclosed.finished⟩, rfl, rfl, ?_, ?_⟩ <;>
        rw [hidle, idleCount, SlotSet.freeCount] <;> omega

end Workers

end PhraseLedger
