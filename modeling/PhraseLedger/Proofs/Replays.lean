import PhraseLedger.Proofs.Membership

/-!
# Logs as replays

What a log shows as of an operation index is looked for from its newest record backward.  It is
what one gets by going through the records that are not later than the index from the oldest to
the newest, where each addition makes a member and each removal makes none.  As long as operation
indexes never go backward, these records are a prefix of the log.

Main definitions:

- Definition {lit}`Log.ofRecords`: the log that appends make.
- Definition {lit}`Log.upTo`: the records that count as of an operation index.
- Definition {lit}`Log.replayAt`: what their replay makes of a phrase.

Main results:

- Theorem {lit}`Log.visibleAt_eq_replayAt`: the search backward and the replay agree.
- Theorem {lit}`Log.visibleAt_foldl_append`: later records change nothing.
- Theorem {lit}`Log.upTo_append_after`: the records that count come first.
- Theorem {lit}`Log.visibleAt_of_last`: the last one of them decides.
- Theorem {lit}`Log.replays_of_sorted`: all this of a log whose indexes never go backward.
-/

namespace PhraseLedger

namespace Mutation

/-- What a mutation makes of a membership. -/
def apply : Mutation → Bool → Bool
  | .add, _ => true
  | .remove, _ => false

theorem apply_eq (kind : Mutation) (member : Bool) : kind.apply member = (kind == .add) := by
  cases kind <;> rfl

end Mutation

namespace Log

/-- The log that appends make of an empty one. -/
def ofRecords (records : List Record) : Log :=
  records.foldl append empty

/-- The records that are not later than `opIndex`, the oldest one first. -/
def upTo (log : Log) (opIndex : Nat) : List Record :=
  log.toList.filter (·.opIndex ≤ opIndex)

/-- Membership of a phrase, which is no member at first, after the records that are not later than
`opIndex` were applied to it one after the other. -/
def replayAt (log : Log) (opIndex : Nat) : Bool :=
  (log.upTo opIndex).foldl (fun member record => record.kind.apply member) false

/-- What the newest record that is not later than `opIndex` says, which is looked for among all
records, also when the newest one of all is not later. -/
def scanAt (log : Log) (opIndex : Nat) : Bool :=
  (log.toList.reverse.find? (·.opIndex ≤ opIndex)).any (·.kind == .add)

/-! ## Appended records -/

theorem toList_foldl_append (log : Log) (records : List Record) :
    (records.foldl append log).toList = log.toList ++ records := by
  induction records generalizing log with
  | nil => exact (List.append_nil _).symm
  | cons record records ih =>
      rw [List.foldl_cons, ih, toList_append, List.append_assoc, List.singleton_append]

/-- A log holds what was appended, in the same order. -/
@[simp] theorem toList_ofRecords (records : List Record) : (ofRecords records).toList = records :=
  toList_foldl_append empty records

/-- A new record counts if it is not later than the operation index. -/
theorem upTo_append (log : Log) (record : Record) (opIndex : Nat) :
    (log.append record).upTo opIndex =
      if record.opIndex ≤ opIndex then log.upTo opIndex ++ [record] else log.upTo opIndex := by
  rw [upTo, toList_append, List.filter_append]
  by_cases hle : record.opIndex ≤ opIndex
  · rw [if_pos hle, List.filter_cons_of_pos (by simpa using hle), List.filter_nil, upTo]
  · rw [if_neg hle, List.filter_cons_of_neg (by simpa using hle), List.filter_nil,
      List.append_nil, upTo]

/-- Records that are later than the operation index do not matter. -/
theorem visibleAt_foldl_append (log : Log) {later : List Record} {opIndex : Nat}
    (hlater : ∀ record ∈ later, opIndex < record.opIndex) :
    (later.foldl append log).visibleAt opIndex = log.visibleAt opIndex := by
  induction later generalizing log with
  | nil => rfl
  | cons record later ih =>
      have hrecord := Nat.not_le.mpr (hlater record List.mem_cons_self)
      rw [List.foldl_cons, ih _ fun other hother => hlater other (List.mem_cons_of_mem _ hother),
        visibleAt_append, if_neg hrecord]

/-! ## Search and replay -/

/-- A record changes the replay as it changes what the log shows. -/
theorem replayAt_append (log : Log) (record : Record) (opIndex : Nat) :
    (log.append record).replayAt opIndex =
      if record.opIndex ≤ opIndex then record.kind == .add else log.replayAt opIndex := by
  rw [replayAt, upTo_append]
  split
  · rw [List.foldl_append, List.foldl_cons, List.foldl_nil, Mutation.apply_eq]
  · rfl

/-- The search from the newest record backward finds what the replay from the oldest record
forward ends with. -/
theorem visibleAt_eq_replayAt (log : Log) (opIndex : Nat) :
    log.visibleAt opIndex = log.replayAt opIndex := by
  rcases log with ⟨records⟩
  induction records with
  | nil => rfl
  | cons newest older ih =>
      have hnewest : Log.mk (newest :: older) = (Log.mk older).append newest := rfl
      rw [hnewest, visibleAt_append, replayAt_append, ih]

/-- The newest record is looked at first only to save the search. -/
theorem visibleAt_eq_scanAt (log : Log) (opIndex : Nat) :
    log.visibleAt opIndex = log.scanAt opIndex := by
  rw [visibleAt_eq_find?, scanAt, toList, List.reverse_reverse]

/-- The last record that is not later than the operation index decides, whatever is in front of
it. -/
theorem visibleAt_of_last (earlier : List Record) {last : Record} {later : List Record}
    {opIndex : Nat} (hlast : last.opIndex ≤ opIndex)
    (hlater : ∀ record ∈ later, opIndex < record.opIndex) :
    (ofRecords (earlier ++ last :: later)).visibleAt opIndex = (last.kind == .add) := by
  rw [ofRecords, List.foldl_append, List.foldl_cons, visibleAt_foldl_append _ hlater,
    visibleAt_append, if_pos hlast]

/-- The newest record decides if it is not later than the operation index. -/
theorem visibleAt_of_latest? {log : Log} {newest : Record} {opIndex : Nat}
    (hnewest : log.latest? = some newest) (hle : newest.opIndex ≤ opIndex) :
    log.visibleAt opIndex = (newest.kind == .add) := by
  rcases log with ⟨records⟩
  rw [latest?, List.head?_eq_some_iff] at hnewest
  rcases hnewest with ⟨older, rfl⟩
  exact if_pos hle

/-! ## Logs in the order of their indexes -/

/-- The records that are not later than an operation index come first. -/
theorem filter_append_filter {records : List Record}
    (hsorted : records.Pairwise fun earlier later => earlier.opIndex ≤ later.opIndex)
    (opIndex : Nat) :
    records.filter (·.opIndex ≤ opIndex) ++ records.filter (opIndex < ·.opIndex) = records := by
  induction hsorted with
  | nil => rfl
  | @cons first rest hfirst _ ih =>
      by_cases hle : first.opIndex ≤ opIndex
      · rw [List.filter_cons_of_pos (by simpa using hle),
          List.filter_cons_of_neg (by simpa using hle), List.cons_append, ih]
      · -- The first record is already too late, and so are all others.
        have hlate : ∀ record ∈ first :: rest, opIndex < record.opIndex := by
          intro record hrecord
          rcases List.mem_cons.mp hrecord with rfl | hrest
          · exact Nat.not_le.mp hle
          · exact Nat.lt_of_lt_of_le (Nat.not_le.mp hle) (hfirst record hrest)
        rw [List.filter_eq_nil_iff.mpr (by simpa using hlate), List.nil_append,
          List.filter_eq_self.mpr (by simpa using hlate)]

/-- Whatever records were appended to a log, their indexes never going backward: what it shows as of
an operation index, by way of its newest record or of a search, is the replay of the records that
are not later.  These are a prefix of the log, so that records that are later change nothing.  The
last one of them decides, also among several of the same index. -/
theorem replays_of_sorted (records : List Record)
    (hsorted : records.Pairwise fun earlier later => earlier.opIndex ≤ later.opIndex)
    (opIndex : Nat) :
    (ofRecords records).toList = records ∧
      (ofRecords records).visibleAt opIndex = (ofRecords records).replayAt opIndex ∧
      (ofRecords records).scanAt opIndex = (ofRecords records).replayAt opIndex ∧
      (∀ newest, (ofRecords records).latest? = some newest → newest.opIndex ≤ opIndex →
        (ofRecords records).replayAt opIndex = (newest.kind == .add)) ∧
      (ofRecords records).upTo opIndex <+: records ∧
      (∀ later, (∀ record ∈ later, opIndex < record.opIndex) →
        (ofRecords (records ++ later)).visibleAt opIndex =
          (ofRecords records).visibleAt opIndex) ∧
      ∀ earlier last later, records = earlier ++ last :: later → last.opIndex ≤ opIndex →
        (∀ record ∈ later, opIndex < record.opIndex) →
        (ofRecords records).visibleAt opIndex = (last.kind == .add) := by
  have hreplay := visibleAt_eq_replayAt (ofRecords records) opIndex
  refine ⟨toList_ofRecords records, hreplay, ?_, ?_, ?_, ?_, ?_⟩
  · rw [← hreplay, visibleAt_eq_scanAt]
  · intro newest hnewest hle
    rw [← hreplay, visibleAt_of_latest? hnewest hle]
  · rw [upTo, toList_ofRecords]
    exact ⟨_, filter_append_filter hsorted opIndex⟩
  · intro later hlater
    rw [ofRecords, List.foldl_append, visibleAt_foldl_append _ hlater, ofRecords]
  · rintro earlier last later rfl hlast hlater
    exact visibleAt_of_last earlier hlast hlater

/-- Three records have the same index.  The last of them takes the phrase out, and two later ones
have no say. -/
theorem replays_of_sorted_three_ties :
    let records : List Record := [⟨.add, 1⟩, ⟨.remove, 4⟩, ⟨.add, 4⟩, ⟨.remove, 4⟩, ⟨.add, 9⟩]
    records.Pairwise (fun earlier later => earlier.opIndex ≤ later.opIndex) ∧
      (ofRecords records).visibleAt 5 = false ∧
      (ofRecords (records ++ [⟨.add, 12⟩])).visibleAt 5 = false := by
  intro records
  have hsorted : records.Pairwise fun earlier later => earlier.opIndex ≤ later.opIndex := by
    decide
  rcases replays_of_sorted records hsorted 5 with ⟨-, -, -, -, -, hlater, hlast⟩
  have hsees : (ofRecords records).visibleAt 5 = false :=
    hlast [⟨.add, 1⟩, ⟨.remove, 4⟩, ⟨.add, 4⟩] ⟨.remove, 4⟩ [⟨.add, 9⟩] rfl (by decide) (by decide)
  exact ⟨hsorted, hsees, (hlater [⟨.add, 12⟩] (by decide)).trans hsees⟩

end Log

end PhraseLedger
