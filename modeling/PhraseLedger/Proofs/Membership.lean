import PhraseLedger.Index.Basic
import PhraseLedger.Proofs.Trie
import PhraseLedger.Proofs.Words
import Mathlib.Data.List.Induction

/-!
# Membership over time

Whether a phrase is a member as of an operation index depends on the additions and
removals of this phrase up to that index only, and among these on the last one.

Main results:

- Theorem {lit}`Log.visibleAt_append`: what a new record changes.
- Theorems {lit}`Trie.memberAt_record` and {lit}`Trie.memberAt_recordAt?`: what a record
  changes in a trie.
- Theorem {lit}`Index.memberAt_apply`: what an addition or a removal changes in an index.
- Theorem {lit}`Index.memberAt_replay`: the last addition or removal of a phrase
  decides.
- Theorem {lit}`Index.contains_replay`: the same for the texts that name a phrase.
-/

namespace PhraseLedger

/-! ## Logs -/

namespace Log

/-- The newest record that is not later than the operation index decides. -/
theorem visibleAt_eq_find? (log : Log) (opIndex : Nat) :
    log.visibleAt opIndex =
      (log.newestFirst.find? (·.opIndex ≤ opIndex)).any (·.kind == .add) := by
  rcases log with ⟨records⟩
  cases records with
  | nil => rfl
  | cons newest older =>
      by_cases hnewest : newest.opIndex ≤ opIndex
      · simp [visibleAt, hnewest]
      · simp only [visibleAt, hnewest, if_false, decide_false, List.find?_cons]
        cases older.find? (·.opIndex ≤ opIndex) <;> rfl

/-- A record decides from its operation index on, and changes nothing before it. -/
theorem visibleAt_append (log : Log) (record : Record) (opIndex : Nat) :
    (log.append record).visibleAt opIndex =
      if record.opIndex ≤ opIndex then record.kind == .add else log.visibleAt opIndex := by
  rw [visibleAt_eq_find?, append, List.find?_cons]
  by_cases hle : record.opIndex ≤ opIndex
  · simp [hle]
  · simp [hle, visibleAt_eq_find?]

end Log

/-! ## Tries -/

namespace Trie

/-- Whether the path of a phrase is a member as of `opIndex`. -/
def memberAt (trie : Trie) (path : List UInt8) (opIndex : Nat) : Bool :=
  (trie.log? path).any (·.visibleAt opIndex)

@[simp] theorem memberAt_empty (path : List UInt8) (opIndex : Nat) :
    empty.memberAt path opIndex = false := by
  rw [memberAt, log?, empty, Node.log?_empty]
  split <;> rfl

/-- A missing log counts as one without records. -/
theorem memberAt_eq_getD (trie : Trie) (path : List UInt8) (opIndex : Nat) :
    trie.memberAt path opIndex = ((trie.log? path).getD .empty).visibleAt opIndex := by
  rw [memberAt]
  cases trie.log? path <;> rfl

/-- A record on a planted path decides on this path from its operation index on. -/
theorem memberAt_record {trie : Trie} (hvalid : trie.Valid) (path : List UInt8)
    (record : Record) (other : List UInt8) (opIndex : Nat) :
    (trie.record path record).memberAt other opIndex =
      if other = path ∧ record.opIndex ≤ opIndex then record.kind == .add
      else trie.memberAt other opIndex := by
  rw [memberAt_eq_getD, memberAt_eq_getD, log?_record hvalid]
  by_cases hother : other = path
  · rw [if_pos hother, Option.getD_some, Log.visibleAt_append, hother]
    simp
  · have hneg : ¬(other = path ∧ record.opIndex ≤ opIndex) := fun h => hother h.1
    rw [if_neg hother, if_neg hneg]
    split <;> rfl

/-- A record on a path that has a node decides on this path from its operation index
on. -/
theorem memberAt_recordAt? {trie after : Trie} {path : List UInt8} {record : Record}
    (hvalid : trie.Valid) (hrecord : trie.recordAt? path record = some after)
    (other : List UInt8) (opIndex : Nat) :
    after.memberAt other opIndex =
      if other = path ∧ record.opIndex ≤ opIndex then record.kind == .add
      else trie.memberAt other opIndex := by
  rcases exists_log?_of_recordAt? hrecord with ⟨log, hlog⟩
  rw [memberAt, memberAt, log?_recordAt? hvalid hrecord]
  by_cases hother : other = path
  · rw [if_pos hother, hother, hlog, Option.map_some, Option.any_some,
      Log.visibleAt_append]
    simp
  · rw [if_neg hother, if_neg (fun h => hother h.1)]

end Trie

/-! ## Indexes -/

/-- An addition or a removal of the phrase that a text names. -/
structure Revision where
  kind : Mutation
  text : Text
  opIndex : Nat
deriving DecidableEq, Repr

namespace Revision

/-- Whether a revision has a say in whether `phrase` is a member as of `asOf`. -/
def concerns (phrase : List Text) (asOf : Nat) (revision : Revision) : Bool :=
  revision.text.phrase = phrase ∧ revision.opIndex ≤ asOf

/-- Whether the last revision that has a say is an addition. -/
def endsInAdd (revisions : List Revision) (phrase : List Text) (asOf : Nat) : Bool :=
  (revisions.filter (concerns phrase asOf)).getLast?.any (·.kind == .add)

/-- The last revision that has a say is an addition if there is such a revision and it
adds. -/
theorem endsInAdd_iff (revisions : List Revision) (phrase : List Text) (asOf : Nat) :
    endsInAdd revisions phrase asOf = true ↔
      ∃ last, (revisions.filter fun revision =>
          revision.text.phrase = phrase ∧ revision.opIndex ≤ asOf).getLast? = some last ∧
        last.kind = .add := by
  rw [endsInAdd, Option.any_eq_true]
  constructor
  · rintro ⟨last, hlast, hkind⟩
    exact ⟨last, hlast, beq_iff_eq.mp hkind⟩
  · rintro ⟨last, hlast, hkind⟩
    exact ⟨last, hlast, beq_iff_eq.mpr hkind⟩

/-- The last revision decides if it has a say. -/
theorem endsInAdd_concat (revisions : List Revision) (revision : Revision)
    (phrase : List Text) (asOf : Nat) :
    endsInAdd (revisions ++ [revision]) phrase asOf =
      if revision.text.phrase = phrase ∧ revision.opIndex ≤ asOf
      then revision.kind == .add else endsInAdd revisions phrase asOf := by
  rw [endsInAdd, List.filter_append]
  by_cases hconcerns : revision.text.phrase = phrase ∧ revision.opIndex ≤ asOf
  · rw [List.filter_cons_of_pos (by simpa [concerns] using hconcerns), List.filter_nil,
      List.getLast?_concat, if_pos hconcerns, Option.any_some]
  · rw [List.filter_cons_of_neg (by simpa [concerns] using hconcerns), List.filter_nil,
      List.append_nil, if_neg hconcerns, endsInAdd]

/-- Revisions that have no say do not count. -/
theorem endsInAdd_skip (front skipped back : List Revision) {phrase : List Text}
    {asOf : Nat} (hskipped : ∀ revision ∈ skipped, concerns phrase asOf revision = false) :
    endsInAdd (front ++ skipped ++ back) phrase asOf =
      endsInAdd (front ++ back) phrase asOf := by
  have hnone : skipped.filter (concerns phrase asOf) = [] := by
    rw [List.filter_eq_nil_iff]
    intro revision hrevision
    rw [hskipped revision hrevision]
    exact Bool.false_ne_true
  rw [endsInAdd, endsInAdd, List.filter_append, List.filter_append, List.filter_append,
    hnone, List.append_nil]

/-- A removal of a phrase that was never added before does not count. -/
theorem endsInAdd_skip_remove (front back : List Revision) (removed : Revision)
    (hremove : removed.kind = .remove)
    (hnever : ∀ revision ∈ front, revision.kind = .add →
      revision.text.phrase ≠ removed.text.phrase)
    (phrase : List Text) (asOf : Nat) :
    endsInAdd (front ++ [removed] ++ back) phrase asOf =
      endsInAdd (front ++ back) phrase asOf := by
  induction back using List.reverseRecOn with
  | nil =>
      rw [List.append_nil, List.append_nil, endsInAdd_concat]
      split
      · rename_i hconcerns
        have hnoAdd : endsInAdd front phrase asOf = false := by
          rw [endsInAdd, Option.any_eq_false]
          intro last hlast
          have hmem := List.mem_filter.mp (List.mem_of_getLast? hlast)
          rw [concerns, decide_eq_true_eq] at hmem
          have hkind : last.kind ≠ .add := by
            intro hadd
            exact hnever last hmem.1 hadd (hmem.2.1.trans hconcerns.1.symm)
          simpa using hkind
        rw [hnoAdd, hremove]
        rfl
      · rfl
  | append_singleton back last ih =>
      rw [← List.append_assoc, ← List.append_assoc, endsInAdd_concat, endsInAdd_concat, ih]

end Revision

namespace Index

/-- Carries out an addition or a removal. -/
def apply (index : Index) (revision : Revision) : Index :=
  match revision.kind with
  | .add => index.add revision.text revision.opIndex
  | .remove => index.remove revision.text revision.opIndex

/-- The index after additions and removals, one after the other. -/
def replay (revisions : List Revision) : Index :=
  revisions.foldl apply empty

/-- Whether the trie behind an index is held as it should be. -/
def Valid (index : Index) : Prop :=
  index.trie.Valid

/-- Whether a phrase is a member as of `opIndex`. -/
def memberAt (index : Index) (phrase : List Text) (opIndex : Nat) : Bool :=
  index.trie.memberAt (Text.spell phrase) opIndex

theorem valid_empty : empty.Valid :=
  Trie.valid_empty

@[simp] theorem memberAt_empty (phrase : List Text) (opIndex : Nat) :
    empty.memberAt phrase opIndex = false :=
  Trie.memberAt_empty _ opIndex

/-- A text names a member if it has a word and its phrase is a member. -/
theorem contains_eq (index : Index) (text : Text) (opIndex : Nat) :
    index.contains text opIndex = (text.hasWord && index.memberAt text.phrase opIndex) := by
  rw [contains, memberAt, Trie.memberAt, Trie.log?, Node.log?, path, Trie.find?]
  cases index.trie.root.find? (Text.spell text.phrase) <;> rfl

/-- An addition is refused exactly if the text has no words. -/
theorem add?_eq_none_iff (index : Index) (text : Text) (opIndex : Nat) :
    index.add? text opIndex = none ↔ text.phrase = [] := by
  have hword := Text.hasWord_iff text
  rw [add?]
  split
  · rename_i hpresent
    simp [hword.mp hpresent]
  · rename_i habsent
    simpa [hword] using habsent

theorem valid_add {index : Index} (hvalid : index.Valid) (text : Text) (opIndex : Nat) :
    (index.add text opIndex).Valid := by
  rw [add, add?]
  split
  · exact Trie.valid_record hvalid _ _
  · exact hvalid

theorem valid_remove {index : Index} (hvalid : index.Valid) (text : Text)
    (opIndex : Nat) : (index.remove text opIndex).Valid := by
  rw [remove, remove?]
  split
  · cases hrecord : index.trie.recordAt? (path text) ⟨.remove, opIndex⟩ with
    | none => exact hvalid
    | some after => exact Trie.valid_recordAt? hvalid hrecord
  · exact hvalid

/-- An addition decides on its phrase from its operation index on. -/
theorem memberAt_add {index : Index} (hvalid : index.Valid) (text : Text)
    (opIndex : Nat) {phrase : List Text} (hphrase : Text.IsPhrase phrase)
    (hnonempty : phrase ≠ []) (asOf : Nat) :
    (index.add text opIndex).memberAt phrase asOf =
      if phrase = text.phrase ∧ opIndex ≤ asOf then true
      else index.memberAt phrase asOf := by
  rw [add, add?]
  by_cases hword : text.hasWord
  · rw [if_pos hword, Option.getD_some, memberAt, memberAt, Trie.memberAt_record hvalid,
      path]
    simp only [Text.spell_inj hphrase (Text.isPhrase_phrase text)]
    rfl
  · have hother : phrase ≠ text.phrase := by
      intro heq
      exact hword ((Text.hasWord_iff text).mpr (heq ▸ hnonempty))
    rw [if_neg hword, Option.getD_none, if_neg (fun h => hother h.1)]

/-- A removal decides on its phrase from its operation index on.  If the path of the
phrase was never planted, nothing is recorded, but then the phrase was no member
anyway. -/
theorem memberAt_remove {index : Index} (hvalid : index.Valid) (text : Text)
    (opIndex : Nat) {phrase : List Text} (hphrase : Text.IsPhrase phrase)
    (hnonempty : phrase ≠ []) (asOf : Nat) :
    (index.remove text opIndex).memberAt phrase asOf =
      if phrase = text.phrase ∧ opIndex ≤ asOf then false
      else index.memberAt phrase asOf := by
  rw [remove, remove?]
  by_cases hword : text.hasWord
  · rw [if_pos hword]
    cases hrecord : index.trie.recordAt? (path text) ⟨.remove, opIndex⟩ with
    | none =>
        rw [Option.map_none, Option.getD_none]
        by_cases hother : phrase = text.phrase
        · have hlog : index.trie.log? (Text.spell text.phrase) = none :=
            (Trie.recordAt?_eq_none_iff _ _ _).mp hrecord
          have habsent : index.memberAt phrase asOf = false := by
            rw [memberAt, Trie.memberAt, hother, hlog]
            rfl
          rw [habsent, ite_self]
        · rw [if_neg (fun h => hother h.1)]
    | some after =>
        rw [Option.map_some, Option.getD_some, memberAt, memberAt,
          Trie.memberAt_recordAt? hvalid hrecord, path]
        simp only [Text.spell_inj hphrase (Text.isPhrase_phrase text)]
        rfl
  · have hother : phrase ≠ text.phrase := by
      intro heq
      exact hword ((Text.hasWord_iff text).mpr (heq ▸ hnonempty))
    rw [if_neg hword, Option.getD_none, if_neg (fun h => hother h.1)]

theorem valid_apply {index : Index} (hvalid : index.Valid) (revision : Revision) :
    (index.apply revision).Valid := by
  rw [apply]
  split
  · exact valid_add hvalid _ _
  · exact valid_remove hvalid _ _

/-- An addition or a removal decides on its phrase from its operation index on. -/
theorem memberAt_apply {index : Index} (hvalid : index.Valid) (revision : Revision)
    {phrase : List Text} (hphrase : Text.IsPhrase phrase) (hnonempty : phrase ≠ [])
    (asOf : Nat) :
    (index.apply revision).memberAt phrase asOf =
      if phrase = revision.text.phrase ∧ revision.opIndex ≤ asOf
      then revision.kind == .add else index.memberAt phrase asOf := by
  rcases revision with ⟨kind, text, opIndex⟩
  cases kind with
  | add => exact memberAt_add hvalid text opIndex hphrase hnonempty asOf
  | remove => exact memberAt_remove hvalid text opIndex hphrase hnonempty asOf

theorem valid_replay (revisions : List Revision) : (replay revisions).Valid := by
  induction revisions using List.reverseRecOn with
  | nil => exact valid_empty
  | append_singleton revisions revision ih =>
      rw [replay, List.foldl_append]
      exact valid_apply ih revision

/-- The last addition or removal of a phrase up to an operation index decides whether the
phrase is a member as of that index. -/
theorem memberAt_replay (revisions : List Revision) {phrase : List Text}
    (hphrase : Text.IsPhrase phrase) (hnonempty : phrase ≠ []) (asOf : Nat) :
    (replay revisions).memberAt phrase asOf = Revision.endsInAdd revisions phrase asOf := by
  induction revisions using List.reverseRecOn with
  | nil => exact memberAt_empty phrase asOf
  | append_singleton revisions revision ih =>
      have hstep : replay (revisions ++ [revision]) = (replay revisions).apply revision := by
        rw [replay, List.foldl_append]
        rfl
      rw [hstep, memberAt_apply (valid_replay revisions) revision hphrase hnonempty,
        Revision.endsInAdd_concat, ih]
      simp only [eq_comm (a := phrase)]

/-- The last addition or removal of the phrase that a text names decides whether the
text names a member. -/
theorem contains_replay_eq (revisions : List Revision) (text : Text) (asOf : Nat) :
    (replay revisions).contains text asOf =
      (text.hasWord && Revision.endsInAdd revisions text.phrase asOf) := by
  rw [contains_eq]
  by_cases hword : text.hasWord
  · rw [memberAt_replay revisions (Text.isPhrase_phrase text)
      ((Text.hasWord_iff text).mp hword)]
  · rw [Bool.not_eq_true] at hword
    rw [hword, Bool.false_and, Bool.false_and]

/-- A text names a member as of an operation index exactly if it has a word and, among
the additions and removals of texts with the same word list up to that index, the last
one exists and is an addition.  So later revisions, revisions of other word lists and
removals of a phrase that was never added change no answer. -/
theorem contains_replay (revisions : List Revision) (text : Text) (asOf : Nat) :
    ((replay revisions).contains text asOf = true ↔
      text.wordList ≠ [] ∧
        ∃ last, (revisions.filter fun revision =>
            revision.text.wordList = text.wordList ∧
              revision.opIndex ≤ asOf).getLast? = some last ∧
          last.kind = .add) ∧
    (∀ later : List Revision, (∀ revision ∈ later, asOf < revision.opIndex) →
      (replay (revisions ++ later)).contains text asOf =
        (replay revisions).contains text asOf) ∧
    (∀ front revision back, revisions = front ++ [revision] ++ back →
      revision.text.wordList ≠ text.wordList →
      (replay revisions).contains text asOf =
        (replay (front ++ back)).contains text asOf) ∧
    (∀ front removed back, revisions = front ++ [removed] ++ back →
      removed.kind = .remove →
      (∀ revision ∈ front, revision.kind = .add →
        revision.text.wordList ≠ removed.text.wordList) →
      (replay revisions).contains text asOf =
        (replay (front ++ back)).contains text asOf) := by
  simp only [← Text.phrase_eq_wordList, contains_replay_eq]
  refine ⟨?_, ?_, ?_, ?_⟩
  · rw [Bool.and_eq_true, Text.hasWord_iff, Revision.endsInAdd_iff]
  · intro later hlater
    have hskipped : ∀ revision ∈ later,
        Revision.concerns text.phrase asOf revision = false := by
      intro revision hrevision
      have := hlater revision hrevision
      simp only [Revision.concerns, decide_eq_false_iff_not]
      omega
    have hskip := Revision.endsInAdd_skip revisions later [] hskipped
    rw [List.append_nil, List.append_nil] at hskip
    rw [hskip]
  · rintro front revision back rfl hother
    have hskipped : ∀ skipped ∈ [revision],
        Revision.concerns text.phrase asOf skipped = false := by
      intro skipped hmem
      rw [List.mem_singleton.mp hmem, Revision.concerns, decide_eq_false_iff_not]
      exact fun h => hother h.1
    rw [Revision.endsInAdd_skip front [revision] back hskipped]
  · rintro front removed back rfl hremove hnever
    rw [Revision.endsInAdd_skip_remove front back removed hremove hnever]

end Index

end PhraseLedger
