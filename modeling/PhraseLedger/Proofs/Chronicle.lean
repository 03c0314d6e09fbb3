import PhraseLedger.Proofs.Fanouts
import PhraseLedger.Proofs.History
import PhraseLedger.Proofs.Membership

/-!
# The records of a session

Every addition and every removal of a session writes one record at most, and it writes it
under the operation index of its line.  So the records of every path come in the order of their
operation indexes, and no command of the workload has two records.

Main definitions:

- Definition {lit}`Trie.Gains`: what one addition or removal does to all paths.
- Definition {lit}`Trie.Chronicles`: records that are in line with a clock.

Main results:

- Theorem {lit}`Trie.Chronicles.gains`: a record under the current operation index keeps the
  records in line.
- Theorem {lit}`Session.book_gains`: the record that a deed writes.
- Theorem {lit}`Session.chronicles_of_start`: the records of every reachable session are in
  line with its operation index.
-/

namespace PhraseLedger

namespace Text

/-- The spelling of a phrase with a word is not empty. -/
theorem spell_ne_nil {phrase : List Text} (hphrase : IsPhrase phrase) (hnonempty : phrase ≠ []) :
    spell phrase ≠ [] := by
  intro hspell
  have hwords := phrase_spell hphrase
  rw [hspell] at hwords
  exact hnonempty hwords.symm

end Text

/-! ## Nodes by path -/

namespace Node

/-- Whether a path of bytes leads from a node to another one, child by child. -/
inductive Leads : Node → List UInt8 → Node → Prop
  | refl (node : Node) : Leads node [] node
  | step {node child last : Node} {byte : UInt8} {path : List UInt8}
      (hchild : (byte, child) ∈ node.fanout.toList) (hpath : Leads child path last) :
      Leads node (byte :: path) last

/-- Every node is found at the end of its path. -/
theorem find?_of_leads {node last : Node} (hvalid : node.Valid) {path : List UInt8}
    (hleads : node.Leads path last) : node.find? path = some last := by
  induction hleads with
  | refl node => rfl
  | @step node child last byte path hchild hpath ih =>
      have hfound : node.child? byte = some child :=
        (Fanout.mem_toList_iff hvalid.fanout byte child).mp hchild
      rw [find?_cons, hfound, Option.bind_some]
      exact ih (hvalid.child hfound)

end Node

namespace Trie

/-- The records of a node are those of its path. -/
theorem recordsAt_of_leads {trie : Trie} (hvalid : trie.Valid) {path : List UInt8} {node : Node}
    (hleads : trie.root.Leads path node) : trie.recordsAt path = node.log.toList := by
  rw [recordsAt, log?, Node.log?, Node.find?_of_leads hvalid hleads]
  rfl

/-- Whether a trie has the records that `before` has, and perhaps one more, behind those of the
spelling of a phrase. -/
def Gains (record : Record) (before after : Trie) : Prop :=
  (∀ path, after.recordsAt path = before.recordsAt path) ∨
    ∃ phrase, phrase ≠ [] ∧ Text.IsPhrase phrase ∧ ∀ path, after.recordsAt path =
      if path = Text.spell phrase then before.recordsAt path ++ [record]
      else before.recordsAt path

section

variable {before after : Trie} {record : Record} {target : List UInt8}

/-- A record that is there after a gain was there before or is the new one. -/
theorem mem_of_gain (hrecords : ∀ path, after.recordsAt path =
      if path = target then before.recordsAt path ++ [record] else before.recordsAt path)
    {path : List UInt8} {found : Record} (hfound : found ∈ after.recordsAt path) :
    found ∈ before.recordsAt path ∨ found = record := by
  rw [hrecords] at hfound
  split at hfound
  · simpa using hfound
  · exact .inl hfound

/-- A record that is there after a gain stands where it stood before or is the new one, which is
the last one of the path that gained it. -/
theorem place_of_gain (hrecords : ∀ path, after.recordsAt path =
      if path = target then before.recordsAt path ++ [record] else before.recordsAt path)
    {path : List UInt8} {i : Nat} {found : Record}
    (hfound : (after.recordsAt path)[i]? = some found) :
    (before.recordsAt path)[i]? = some found ∨
      path = target ∧ i = (before.recordsAt path).length ∧ found = record := by
  rw [hrecords] at hfound
  split at hfound
  · rename_i hpath
    rw [List.getElem?_append] at hfound
    split at hfound
    · exact .inl hfound
    · rw [List.getElem?_singleton] at hfound
      split at hfound
      · exact .inr ⟨hpath, by omega, (Option.some.inj hfound).symm⟩
      · cases hfound
  · exact .inl hfound

end

/-! ## Clocks -/

/-- Whether the records of a trie are in line with a clock that shows `now`. -/
structure Chronicles (now : Nat) (trie : Trie) : Prop where
  /-- The records of a path come in the order of their operation indexes. -/
  sorted : ∀ path, (trie.recordsAt path).Pairwise fun older newer => older.opIndex ≤ newer.opIndex
  /-- No record is from later than now. -/
  past : ∀ path, ∀ record ∈ trie.recordsAt path, record.opIndex ≤ now
  /-- In the beginning, phrases are only added. -/
  bulk : ∀ path, ∀ record ∈ trie.recordsAt path, record.opIndex = 0 → record.kind = .add
  /-- A later operation index stands in one record at most. -/
  once : ∀ path other : List UInt8, ∀ i j : Nat, ∀ first second : Record,
    (trie.recordsAt path)[i]? = some first → (trie.recordsAt other)[j]? = some second →
    first.opIndex = second.opIndex → 0 < first.opIndex → path = other ∧ i = j
  /-- Only phrases have records. -/
  spelled : ∀ path, trie.recordsAt path ≠ [] →
    ∃ phrase, phrase ≠ [] ∧ (∀ word ∈ phrase, word ≠ [] ∧ Text.space ∉ word) ∧
      path = Text.spell phrase

theorem chronicles_empty (now : Nat) : empty.Chronicles now := by
  constructor <;> simp

/-- Whether a record can be written when the clock has been put from `now` to `later`: it has
the new time, or it is an addition in the beginning. -/
def Timely (now later : Nat) (record : Record) : Prop :=
  record.opIndex = later ∧
    (now < later ∨ now = 0 ∧ later = 0 ∧ record.kind = .add)

namespace Chronicles

variable {now later : Nat} {before after : Trie} {record : Record}

/-- Time passes without changing records. -/
theorem mono (h : before.Chronicles now) (hle : now ≤ later) : before.Chronicles later :=
  { h with past := fun path record hrecord => (h.past path record hrecord).trans hle }

/-- No record is newer than a timely one. -/
theorem le_of_timely (h : before.Chronicles now) (htimely : Timely now later record)
    {path : List UInt8} {older : Record} (holder : older ∈ before.recordsAt path) :
    older.opIndex ≤ record.opIndex := by
  have hpast := h.past path older holder
  rcases htimely with ⟨hindex, hlater⟩
  omega

/-- A record with the index of a timely one is from the bulk load, if it was there before. -/
theorem fresh (h : before.Chronicles now) (htimely : Timely now later record)
    {path : List UInt8} {older : Record} (holder : older ∈ before.recordsAt path)
    (hindex : older.opIndex = record.opIndex) : ¬0 < older.opIndex := by
  have hpast := h.past path older holder
  rcases htimely with ⟨hrecord, hlater⟩
  omega

/-- A timely record keeps the records in line. -/
theorem gains (h : before.Chronicles now) (htimely : Timely now later record)
    (hgains : Gains record before after) : after.Chronicles later := by
  have hle : now ≤ later := by
    rcases htimely with ⟨-, hlater⟩
    omega
  rcases hgains with hsame | ⟨phrase, hnonempty, hphrase, hrecords⟩
  · have hlater := h.mono hle
    constructor <;> simp only [hsame]
    exacts [hlater.sorted, hlater.past, hlater.bulk, hlater.once, hlater.spelled]
  · constructor
    · intro path
      rw [hrecords]
      split
      · rw [List.pairwise_append]
        refine ⟨h.sorted path, List.pairwise_singleton _ _, ?_⟩
        intro older holder newer hnewer
        rw [List.mem_singleton.mp hnewer]
        exact h.le_of_timely htimely holder
      · exact h.sorted path
    · intro path found hfound
      rcases mem_of_gain hrecords hfound with hold | rfl
      · exact (h.past path found hold).trans hle
      · exact Nat.le_of_eq htimely.1
    · intro path found hfound hzero
      rcases mem_of_gain hrecords hfound with hold | rfl
      · exact h.bulk path found hold hzero
      · rcases htimely with ⟨hindex, hlater | ⟨-, -, hadd⟩⟩
        · omega
        · exact hadd
    · intro path other i j first second hfirst hsecond hindex hpositive
      -- A record that was there before is older, so it has another operation index.
      rcases place_of_gain hrecords hfirst with hfirstOld | ⟨hpath, hi, rfl⟩
      · rcases place_of_gain hrecords hsecond with hsecondOld | ⟨-, -, rfl⟩
        · exact h.once path other i j first second hfirstOld hsecondOld hindex hpositive
        · exact absurd hpositive
            (h.fresh htimely (List.mem_of_getElem? hfirstOld) hindex)
      · rcases place_of_gain hrecords hsecond with hsecondOld | ⟨hother, hj, rfl⟩
        · exact absurd (hindex ▸ hpositive)
            (h.fresh htimely (List.mem_of_getElem? hsecondOld) hindex.symm)
        · rw [hi, hj, hpath, hother]
          exact ⟨rfl, rfl⟩
    · intro path hfound
      rw [hrecords] at hfound
      split at hfound
      · rename_i hpath
        exact ⟨phrase, hnonempty, hphrase, hpath⟩
      · exact h.spelled path hfound

/-- The root has no records. -/
theorem root_log (h : before.Chronicles now) : before.root.log = .empty := by
  by_contra hlog
  have hrecords : before.recordsAt [] ≠ [] := by
    intro hnone
    apply hlog
    rcases hroot : before.root.log with ⟨newestFirst⟩
    have hlist : newestFirst.reverse = [] := by
      simpa [recordsAt, log?, Log.toList, hroot] using hnone
    rw [List.reverse_eq_nil_iff.mp hlist]
    rfl
  rcases h.spelled [] hrecords with ⟨phrase, hnonempty, hphrase, hpath⟩
  exact Text.spell_ne_nil hphrase hnonempty hpath.symm

end Chronicles

end Trie

namespace Index

/-! ## Additions and removals -/

/-- An addition writes its record under the spelling of its phrase, if it has one. -/
theorem add_gains {index : Index} (hvalid : index.Valid) (text : Text) (opIndex : Nat) :
    Trie.Gains ⟨.add, opIndex⟩ index.trie (index.add text opIndex).trie := by
  rw [add, add?]
  by_cases hword : text.hasWord
  · refine .inr ⟨text.phrase, (Text.hasWord_iff text).mp hword, Text.isPhrase_phrase text, ?_⟩
    intro other
    rw [if_pos hword, Option.getD_some, Trie.recordsAt_record hvalid, path]
    split
    · rename_i hother
      rw [hother]
    · rfl
  · rw [if_neg hword]
    exact .inl fun _ => rfl

/-- A removal writes its record under the spelling of its phrase, if there is a node. -/
theorem remove_gains {index : Index} (hvalid : index.Valid) (text : Text) (opIndex : Nat) :
    Trie.Gains ⟨.remove, opIndex⟩ index.trie (index.remove text opIndex).trie := by
  rw [remove, remove?]
  by_cases hword : text.hasWord
  · rw [if_pos hword]
    cases hrecord : index.trie.recordAt? (path text) ⟨.remove, opIndex⟩ with
    | none => exact .inl fun _ => rfl
    | some after =>
        refine .inr ⟨text.phrase, (Text.hasWord_iff text).mp hword, Text.isPhrase_phrase text, ?_⟩
        intro other
        rw [Option.map_some, Option.getD_some, Trie.recordsAt_recordAt? hvalid hrecord, path]
        split
        · rename_i hother
          rw [hother]
        · rfl
  · rw [if_neg hword]
    exact .inl fun _ => rfl

end Index

namespace Deed

/-- The record that a deed writes, if it writes one; `opIndex` is the number of commands in
front of it. -/
def record? (opIndex : Nat) : Deed → Option Record
  | .load _ => some ⟨.add, Session.bulkOpIndex⟩
  | .command (.add _) => some ⟨.add, opIndex + 1⟩
  | .command (.remove _) => some ⟨.remove, opIndex + 1⟩
  | _ => none

end Deed

namespace Session

variable {σ : Type}

/-! ## Sessions -/

theorem valid_book {session : Session σ} (hvalid : session.index.Valid) (deed : Deed) :
    (session.book deed).index.Valid := by
  cases deed with
  | load text => exact Index.valid_add hvalid text bulkOpIndex
  | command command =>
      cases command with
      | add phrase => exact Index.valid_add hvalid phrase (session.opIndex + 1)
      | remove phrase => exact Index.valid_remove hvalid phrase (session.opIndex + 1)
      | _ => exact hvalid
  | _ => exact hvalid

/-- A deed writes its record, or none. -/
theorem book_gains {session : Session σ} (hvalid : session.index.Valid) (deed : Deed) :
    (session.book deed).index = session.index ∨
      ∃ record ∈ deed.record? session.opIndex,
        Trie.Gains record session.index.trie (session.book deed).index.trie := by
  cases deed with
  | load text => exact .inr ⟨_, rfl, Index.add_gains hvalid text bulkOpIndex⟩
  | command command =>
      cases command with
      | add phrase => exact .inr ⟨_, rfl, Index.add_gains hvalid phrase (session.opIndex + 1)⟩
      | remove phrase =>
          exact .inr ⟨_, rfl, Index.remove_gains hvalid phrase (session.opIndex + 1)⟩
      | _ => exact .inl rfl
  | _ => exact .inl rfl

/-- The record of a call is timely, since the bulk load counts no commands. -/
theorem timely_of_record? {session : Session σ}
    (hbulk : session.phase = .bulkLoad → session.opIndex = 0) (call : Call) {record : Record}
    (hrecord : record ∈ (call.deed session.phase).record? session.opIndex) :
    Trie.Timely session.opIndex ((call.deed session.phase).opIndexAfter session.opIndex)
      record := by
  cases hdeed : call.deed session.phase with
  | load text =>
      have hphase : session.phase = .bulkLoad := by
        cases hphase : session.phase with
        | bulkLoad => rfl
        | workload =>
            rw [hphase] at hdeed
            cases call <;> simp [Call.deed, Deed.ofLine] at hdeed <;> split at hdeed <;> cases hdeed
      rw [hdeed] at hrecord
      obtain rfl := Option.some.inj hrecord
      exact ⟨(hbulk hphase).symm, .inr ⟨hbulk hphase, hbulk hphase, rfl⟩⟩
  | command command =>
      rw [hdeed] at hrecord
      cases command with
      | add phrase =>
          obtain rfl := Option.some.inj hrecord
          exact ⟨rfl, .inl (Nat.lt_succ_self _)⟩
      | remove phrase =>
          obtain rfl := Option.some.inj hrecord
          exact ⟨rfl, .inl (Nat.lt_succ_self _)⟩
      | _ => cases hrecord
  | _ =>
      rw [hdeed] at hrecord
      cases hrecord

/-- Whether the records of a session are in line with its operation index. -/
structure InLine (session : Session σ) : Prop where
  valid : session.index.Valid
  chronicles : session.index.trie.Chronicles session.opIndex

/-- The record of an event comes behind all records that there are. -/
theorem InLine.meet {session : Session σ} (h : session.InLine) (hready : session.Ready)
    {taken : Text} (hunopened : session.Unopened taken) (crew : Crew σ) (event : Event) :
    (session.meet crew event).InLine := by
  cases event with
  | limits room flushes => exact ⟨h.valid, h.chronicles⟩
  | call call =>
      rcases perform_keeps hready crew call with ⟨pool, sink, tally, timing, hafter, -⟩
      rw [Session.meet, hafter]
      refine ⟨valid_book h.valid _, ?_⟩
      change (session.book _).index.trie.Chronicles (session.book _).opIndex
      rw [book_opIndex]
      rcases book_gains h.valid (call.deed session.phase) with hsame | ⟨record, hrecord, hgains⟩
      · rw [hsame]
        refine h.chronicles.mono ?_
        rw [Deed.opIndexAfter]
        split <;> omega
      · have hbulk : session.phase = .bulkLoad → session.opIndex = 0 :=
          fun hphase => (hunopened hphase).1
        exact h.chronicles.gains (timely_of_record? hbulk call hrecord) hgains

theorem InLine.meetAll {session : Session σ} (h : session.InLine) (hready : session.Ready)
    {taken : Text} (hunopened : session.Unopened taken) (crew : Crew σ) (events : List Event) :
    (session.meetAll crew events).InLine := by
  induction events generalizing session with
  | nil => exact h
  | cons event rest ih =>
      exact ih (h.meet hready hunopened crew event) (hready.meet crew event)
        (hunopened.meet hready crew event)

/-- Whatever happens to a session from its beginning on, the records of every node come in the
order of their operation indexes, none is from later than the operation index of the session,
those of the bulk load are additions, no command has two, and only phrases have any.  What the
next call writes comes behind records that are no newer. -/
theorem chronicles_of_start {settings : Settings} {workers : σ} {sink : Sink}
    {session : Session σ}
    (hstart : Session.start settings (.start workers) sink = .ok session) (crew : Crew σ)
    (events : List Event) :
    let now := session.meetAll crew events
    (∀ path node, now.index.trie.root.Leads path node →
      now.index.trie.recordsAt path = node.log.toList) ∧
    now.index.trie.Chronicles now.opIndex ∧
    now.index.trie.root.log = .empty ∧
    ∀ call path, let next := (now.perform crew call).2
      next.index.trie.recordsAt path = now.index.trie.recordsAt path ∨
        ∃ record, next.index.trie.recordsAt path = now.index.trie.recordsAt path ++ [record] ∧
          ∀ older ∈ now.index.trie.recordsAt path, older.opIndex ≤ record.opIndex := by
  intro now
  have hready := ready_start hstart
  have hunopened : session.Unopened session.sink.taken :=
    fun _ => ⟨(recounts_start hstart).commands, (recounts_start hstart).pending, rfl⟩
  have hfirst : session.InLine := by
    rw [(start_eq_ok hstart).2]
    exact ⟨Index.valid_empty, Trie.chronicles_empty _⟩
  have hnow : now.InLine := hfirst.meetAll hready hunopened crew events
  refine ⟨fun path node => Trie.recordsAt_of_leads hnow.valid, hnow.chronicles,
    hnow.chronicles.root_log, ?_⟩
  intro call path next
  have hbulk : now.phase = .bulkLoad → now.opIndex = 0 :=
    fun hphase => (hunopened.meetAll hready crew events hphase).1
  have hindex : next.index = (now.book (call.deed now.phase)).index := by
    rcases perform_keeps (hready.meetAll crew events) crew call with
      ⟨pool, sink, tally, timing, hafter, -⟩
    rw [show next = _ from hafter]
  rw [hindex]
  rcases book_gains hnow.valid (call.deed now.phase) with hsame | ⟨record, hrecord, hgains⟩
  · exact .inl (by rw [hsame])
  · rcases hgains with hkept | ⟨phrase, -, -, hrecords⟩
    · exact .inl (hkept path)
    · rw [hrecords path]
      split
      · refine .inr ⟨record, rfl, fun older holder => ?_⟩
        exact hnow.chronicles.le_of_timely (timely_of_record? hbulk call hrecord) holder
      · exact .inl rfl

/-- The first word of a phrase has a node, so it can be removed although it was never added.  The
last of the lines is a removal without a node. -/
theorem chronicles_of_start_ten_lines :
    let text := Text.ofString
    let lines := ["a b", " b  ", "", "S", "D a", "D  a b", "Q a", "A a  b", "D", "D c"]
    let events := lines.map fun line => Event.call (.consumeLine (text line))
    ∃ session,
      Session.start ⟨2, 2, 2, 1⟩ (.start (Workers.idle 2 Workers.prompt)) Sink.unlimited =
          .ok session ∧
        let now := session.meetAll Workers.crew events
        now.index.trie.Chronicles now.opIndex ∧ now.opIndex = 5 ∧
        now.index.trie.recordsAt (text "a b") = [⟨.add, 0⟩, ⟨.remove, 2⟩, ⟨.add, 4⟩] ∧
        now.index.trie.recordsAt (text "a") = [⟨.remove, 1⟩] ∧
        now.index.trie.recordsAt (text "a ") = [] ∧
        now.index.trie.recordsAt (text "b") = [⟨.add, 0⟩] ∧
        now.index.trie.recordsAt (text "c") = [] ∧
        (now.perform Workers.crew (.applyLine (text "D a b"))).2.index.trie.recordsAt
            (text "a b") =
          [⟨.add, 0⟩, ⟨.remove, 2⟩, ⟨.add, 4⟩, ⟨.remove, 6⟩] := by
  intro text lines events
  let session : Session Workers :=
    ⟨⟨2, 2, 2, 1⟩, .empty, .start (Workers.idle 2 Workers.prompt), Sink.unlimited, #[], 0, 0,
      .bulkLoad, .zero, .new⟩
  have hstart : Session.start ⟨2, 2, 2, 1⟩ (.start (Workers.idle 2 Workers.prompt))
      Sink.unlimited = .ok session := rfl
  refine ⟨session, hstart, (chronicles_of_start hstart Workers.crew events).2.1, ?_⟩
  decide +kernel

end Session

end PhraseLedger
