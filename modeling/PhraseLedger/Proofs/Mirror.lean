import PhraseLedger.Dispatch.Workers
import PhraseLedger.Proofs.Commands
import PhraseLedger.Proofs.Feeding
import PhraseLedger.Proofs.Ledger

/-!
# Sessions against the plain ledger

A session answers its queries late, from an index that holds the additions and removals
after them as well.  Still its output is that of the plain ledger, which answers them at
once and keeps no history.  Every line keeps the two in step.

Main results:

- Theorem {lit}`Session.Mirrors.revise`: additions and removals leave the queue alone.
- Theorem {lit}`Session.Mirrors.flush`: a flush writes what the ledger queued.
- Theorem {lit}`Session.Mirrors.applyLine`: a line of the workload.
- Theorem {lit}`Session.Mirrors.loadPhrase`: a line of the bulk load.
- Theorem {lit}`Session.Mirrors.consumeAll`: the lines of an input.
- Theorem {lit}`Session.run_eq_ledger`: the output of a session is that of the ledger.
-/

namespace PhraseLedger

namespace Session

variable {σ : Type}

/-! ## The relation -/

/-- Whether a session and a plain ledger are in step.  Both have the same members now,
that is, as of the current operation index and of later ones, and the queue of the
session will be answered as the ledger answered it already. -/
structure Mirrors (session : Session σ) (ledger : Ledger) : Prop where
  slices : 1 ≤ session.settings.parallelism
  valid : session.index.Valid
  members : ∀ phrase, Text.IsPhrase phrase → phrase ≠ [] → ∀ asOf,
    session.opIndex ≤ asOf →
      session.index.memberAt phrase asOf = decide (phrase ∈ ledger.members)
  captured : ∀ query ∈ session.pending.toList, query.opIndex ≤ session.opIndex
  queue : session.pending.toList.map (Query.line session.index) = ledger.queue
  output : session.sink = { Sink.unlimited with taken := ledger.output }

/-- A session at its beginning is in step with the empty ledger. -/
theorem mirrors_start {settings : Settings} {pool : Pool σ} {session : Session σ}
    (hstart : Session.start settings pool Sink.unlimited = .ok session) :
    session.phase = .bulkLoad ∧ session.pending = #[] ∧ session.Mirrors .empty := by
  rcases start_eq_ok hstart with ⟨hvalidate, rfl⟩
  refine ⟨rfl, rfl, ?_⟩
  constructor
  · exact Settings.parallelism_of_validate hvalidate
  · exact Index.valid_empty
  · intro phrase _ _ asOf _
    simp [Ledger.empty]
  · intro query hquery
    simp at hquery
  · rfl
  · rfl

namespace Mirrors

variable {session after : Session σ} {ledger : Ledger}

/-- Counting a line changes nothing else. -/
theorem nextLine (h : session.Mirrors ledger) : session.nextLine.Mirrors ledger :=
  ⟨h.slices, h.valid, h.members, h.captured, h.queue, h.output⟩

/-- A command that does nothing else advances the operation index only. -/
theorem advance (h : session.Mirrors ledger) :
    Mirrors { session with opIndex := session.opIndex + 1 } ledger := by
  constructor
  · exact h.slices
  · exact h.valid
  · intro phrase hphrase hnonempty asOf hlater
    exact h.members phrase hphrase hnonempty asOf (Nat.le_of_succ_le hlater)
  · intro query hquery
    exact Nat.le_succ_of_le (h.captured query hquery)
  · exact h.queue
  · exact h.output

/-! ## Commands -/

/-- An addition or a removal changes the members from its operation index on.  The queued
queries have lower operation indexes, so their answers stay what they are. -/
theorem revise (h : session.Mirrors ledger) (kind : Mutation) (text : Text)
    {members : Finset (List Text)}
    (hmembers : ∀ phrase, phrase ∈ members ↔
      if phrase = text.wordList then kind = .add else phrase ∈ ledger.members)
    (tally : Tally) (timing : Timing) :
    Mirrors
      { session with
        opIndex := session.opIndex + 1
        index := session.index.apply ⟨kind, text, session.opIndex + 1⟩
        tally := tally
        timing := timing }
      { ledger with members := members } := by
  constructor
  · exact h.slices
  · exact Index.valid_apply h.valid _
  · intro phrase hphrase hnonempty asOf hlater
    have hasOf : session.opIndex + 1 ≤ asOf := hlater
    rw [Index.memberAt_apply h.valid _ hphrase hnonempty,
      h.members phrase hphrase hnonempty asOf (Nat.le_of_succ_le hasOf)]
    simp only [hmembers, ← Text.phrase_eq_wordList, hasOf, and_true]
    split
    · rfl
    · rfl
  · intro query hquery
    exact Nat.le_succ_of_le (h.captured query hquery)
  · rw [← h.queue]
    apply List.map_congr_left
    intro query hquery
    apply Query.line_congr
    intro phrase hphrase hnonempty
    -- The query was captured before the revision, which decides from its own index on.
    have hearlier := h.captured query hquery
    have hnot : ¬(phrase = text.phrase ∧ session.opIndex + 1 ≤ query.opIndex) := by
      omega
    rw [Index.memberAt_apply h.valid _ hphrase hnonempty, if_neg hnot]
  · exact h.output

/-- A query is queued with its operation index and answered by the ledger at once. -/
theorem enqueue (h : session.Mirrors ledger) (document : Text) (tally : Tally) :
    Mirrors
      { session with
        opIndex := session.opIndex + 1
        pending := session.pending.push ⟨document, session.opIndex + 1⟩
        tally := tally }
      { ledger with
        queue := ledger.queue ++ [Ledger.answerLine ledger.members document] } := by
  have hline : Query.line session.index ⟨document, session.opIndex + 1⟩ =
      Ledger.answerLine ledger.members document := by
    apply Ledger.resultLine_eq_answerLine
    intro phrase hphrase hnonempty
    exact h.members phrase hphrase hnonempty _ (Nat.le_succ _)
  constructor
  · exact h.slices
  · exact h.valid
  · intro phrase hphrase hnonempty asOf hlater
    exact h.members phrase hphrase hnonempty asOf (Nat.le_of_succ_le hlater)
  · intro query hquery
    rw [Array.toList_push, List.mem_append, List.mem_singleton] at hquery
    rcases hquery with hquery | rfl
    · exact Nat.le_succ_of_le (h.captured query hquery)
    · exact Nat.le_refl _
  · rw [Array.toList_push, List.map_append, List.map_singleton, h.queue, hline]
  · exact h.output

/-- A flush that succeeds writes the answers that the ledger queued. -/
theorem flush (h : session.Mirrors ledger) {crew : Crew σ}
    (hrun : session.flush crew = (.ok (), after)) :
    after.phase = session.phase ∧
      after.Mirrors
        { ledger with queue := [], output := ledger.output ++ ledger.queue.flatten } := by
  rcases hanswer : Batch.answerTo crew session.index session.settings session.pending.toList
    session.pool session.sink with ⟨(error | _) | _, pool, sink⟩
  · rw [flush_eq_book hanswer (by simp)] at hrun
    cases (Prod.mk.inj hrun).1
  · rw [Session.flush, hanswer] at hrun
    cases (Prod.mk.inj hrun).1
  · have hfits := Batch.fits_of_answerTo_eq_ok h.slices (congrArg Prod.fst hanswer)
    rcases Batch.exists_answerTo crew session.index h.slices hfits session.pool ledger.output with
      ⟨later, hwritten⟩
    rw [← h.output, hanswer, List.flatMap_def, h.queue] at hwritten
    have hsink : sink =
        { Sink.unlimited with taken := ledger.output ++ ledger.queue.flatten } :=
      congrArg (·.2.2) hwritten
    rw [flush_eq_book hanswer (by simp)] at hrun
    rw [← (Prod.mk.inj hrun).2]
    refine ⟨rfl, ?_⟩
    constructor
    · exact h.slices
    · exact h.valid
    · exact h.members
    · intro query hquery
      simp [book] at hquery
    · rfl
    · exact hsink

/-- A change to the index that is carried out succeeds. -/
theorem of_mutate_eq_ok {change : Index → Index} {count : Tally → Tally}
    (hrun : session.mutate change count = (.ok (), after)) :
    after =
      { session with
        index := change session.index
        tally := count session.tally
        timing := session.timing.measure .mutations } := by
  cases hsettled : session.pool.isSettled with
  | true =>
      rw [mutate_of_isSettled hsettled] at hrun
      exact (Prod.mk.inj hrun).2.symm
  | false =>
      have hshared : (!(session.startWatch .mutations).pool.isSettled) = true := by
        rw [show (session.startWatch .mutations).pool = session.pool from rfl, hsettled]
        rfl
      rw [mutate, if_pos hshared] at hrun
      cases (Prod.mk.inj hrun).1

/-- A command that is carried out does what it does to the ledger. -/
theorem execute (h : session.Mirrors ledger) {crew : Crew σ} {command : Command}
    (hrun : { session with opIndex := session.opIndex + 1 }.execute crew command =
      (.ok (), after)) :
    ∃ next, ledger.step command.spelling = some next ∧ after.phase = session.phase ∧
      after.Mirrors next := by
  cases command with
  | add phrase =>
      have hmembers : ∀ other, other ∈ insert (Text.wordList phrase) ledger.members ↔
          if other = Text.wordList phrase then Mutation.add = .add
          else other ∈ ledger.members := by
        intro other
        by_cases hother : other = Text.wordList phrase <;> simp [hother]
      rw [Session.execute] at hrun
      rw [of_mutate_eq_ok hrun]
      exact ⟨_, rfl, rfl, h.revise .add phrase hmembers _ _⟩
  | remove phrase =>
      have hmembers : ∀ other, other ∈ ledger.members.erase (Text.wordList phrase) ↔
          if other = Text.wordList phrase then Mutation.remove = .add
          else other ∈ ledger.members := by
        intro other
        by_cases hother : other = Text.wordList phrase <;> simp [hother]
      rw [Session.execute] at hrun
      rw [of_mutate_eq_ok hrun]
      exact ⟨_, rfl, rfl, h.revise .remove phrase hmembers _ _⟩
  | query document =>
      rw [Session.execute] at hrun
      rw [← (Prod.mk.inj hrun).2]
      exact ⟨_, rfl, rfl, h.enqueue document _⟩
  | flush =>
      rcases h.advance.flush hrun with ⟨hphase, hfinal⟩
      exact ⟨_, rfl, hphase, hfinal⟩

/-- A line of the workload that is carried out does what it does to the ledger. -/
theorem applyLine (h : session.Mirrors ledger) (hphase : session.phase = .workload)
    {crew : Crew σ} {line : Text}
    (hrun : session.applyLine crew line = (.ok (), after)) :
    ∃ next, ledger.step line = some next ∧ after.phase = .workload ∧
      after.Mirrors next := by
  have hopen : ¬session.nextLine.phase ≠ .workload := not_not.mpr hphase
  rw [Session.applyLine, if_neg hopen] at hrun
  cases hparse : Command.parse line with
  | error fault =>
      rw [hparse] at hrun
      cases (Prod.mk.inj hrun).1
  | ok command =>
      rw [hparse] at hrun
      rcases h.nextLine.execute hrun with ⟨next, hstep, hkept, hnext⟩
      rw [← (Command.parse_eq_ok_iff line command).mp hparse] at hstep
      exact ⟨next, hstep, hkept.trans hphase, hnext⟩

/-! ## Bulk load -/

/-- A phrase that is added under the operation index of the bulk load is a member from the
beginning on.  No query is queued yet, so there are no answers to keep. -/
theorem preload (h : session.Mirrors ledger) (hpending : session.pending = #[])
    (line : Text) (tally : Tally) (timing : Timing) :
    Mirrors
      { session with
        index := session.index.add line bulkOpIndex, tally := tally, timing := timing }
      { ledger with members := insert line.wordList ledger.members } := by
  constructor
  · exact h.slices
  · exact Index.valid_add h.valid line bulkOpIndex
  · intro phrase hphrase hnonempty asOf hlater
    rw [Index.memberAt_add h.valid line bulkOpIndex hphrase hnonempty,
      h.members phrase hphrase hnonempty asOf hlater]
    simp only [bulkOpIndex, Nat.zero_le, and_true, Finset.mem_insert,
      Text.phrase_eq_wordList]
    by_cases hline : phrase = line.wordList <;> simp [hline]
  · exact h.captured
  · have hqueue := h.queue
    rw [hpending] at hqueue ⊢
    exact hqueue
  · exact h.output

/-- A line of the bulk load does what it does to the ledger. -/
theorem loadPhrase (h : session.Mirrors ledger) (hphase : session.phase = .bulkLoad)
    (hpending : session.pending = #[]) {line : Text}
    (hrun : session.loadPhrase line = (.ok (), after)) :
    after.phase = .bulkLoad ∧ after.pending = #[] ∧ after.Mirrors (ledger.load line) := by
  have hopen : ¬session.nextLine.phase ≠ .bulkLoad := not_not.mpr hphase
  rw [Session.loadPhrase, if_neg hopen] at hrun
  simp only at hrun
  split_ifs at hrun with hshared
  · cases (Prod.mk.inj hrun).1
  · have hindex : (session.nextLine.startWatch .bulkLoad).index = session.index := rfl
    have hrefused := Index.add?_eq_none_iff session.index line bulkOpIndex
    rw [Text.phrase_eq_wordList] at hrefused
    rw [hindex] at hrun
    cases hadd : session.index.add? line bulkOpIndex with
    | none =>
        rw [hadd] at hrun
        rw [← (Prod.mk.inj hrun).2, Ledger.load, if_pos (hrefused.mp hadd)]
        exact ⟨hphase, hpending, h.slices, h.valid, h.members, h.captured, h.queue, h.output⟩
    | some index =>
        have hwords : line.wordList ≠ [] := by
          rw [Ne, ← hrefused, hadd]
          exact Option.some_ne_none index
        have hadded : session.index.add line bulkOpIndex = index := by
          rw [Index.add, hadd, Option.getD_some]
        rw [hadd] at hrun
        rw [← (Prod.mk.inj hrun).2, Ledger.load, if_neg hwords, ← hadded]
        exact ⟨hphase, hpending, h.nextLine.preload hpending line _ _⟩

/-- The end of the bulk load is announced. -/
theorem openWorkload (h : session.Mirrors ledger)
    (hrun : session.openWorkload = (.ok (), after)) :
    after.phase = .workload ∧ after.Mirrors ledger.ready := by
  rw [Session.openWorkload] at hrun
  split_ifs at hrun with hclosed
  · cases (Prod.mk.inj hrun).1
  · have hsink : (session.nextLine.stopWatch .bulkLoad).sink =
        { Sink.unlimited with taken := ledger.output } := h.output
    simp only [hsink] at hrun
    rw [← (Prod.mk.inj hrun).2]
    exact ⟨rfl, h.slices, h.valid, h.members, h.captured, h.queue, rfl⟩

end Mirrors

/-! ## Runs -/

namespace Mirrors

variable {session after : Session σ} {ledger : Ledger}

/-- A run of lines of the workload does what the lines do to the ledger. -/
theorem consumeCommands (h : session.Mirrors ledger) (hphase : session.phase = .workload)
    {crew : Crew σ} {lines : List Text}
    (hrun : session.consumeAll crew lines = (.ok (), after)) :
    ∃ final, (lines.map Text.trimLineEnd).foldlM Ledger.step ledger = some final ∧
      after.phase = .workload ∧ after.Mirrors final := by
  induction lines generalizing session ledger with
  | nil =>
      rw [← (Prod.mk.inj hrun).2]
      exact ⟨ledger, rfl, hphase, h⟩
  | cons line rest ih =>
      rcases consumeAll_cons_eq_ok hrun with ⟨next, -, hline, hrest⟩
      rw [consumeLine, hphase] at hline
      rcases h.applyLine hphase hline with ⟨stepped, hstep, hopen, hnext⟩
      rcases ih hnext hopen hrest with ⟨final, hfold, hend, hfinal⟩
      refine ⟨final, ?_, hend, hfinal⟩
      rw [List.map_cons, List.foldlM_cons, hstep]
      exact hfold

/-- A run of lines that ends the bulk load does what the lines do to the ledger. -/
theorem consumeAll (h : session.Mirrors ledger) (hphase : session.phase = .bulkLoad)
    (hpending : session.pending = #[]) {crew : Crew σ} {lines : List Text}
    (hrun : session.consumeAll crew lines = (.ok (), after))
    (hend : after.phase = .workload) :
    ∃ final, Ledger.runLines ledger (lines.map Text.trimLineEnd) = some final ∧
      after.Mirrors final := by
  induction lines generalizing session ledger with
  | nil =>
      rw [← (Prod.mk.inj hrun).2, hphase] at hend
      cases hend
  | cons line rest ih =>
      rcases consumeAll_cons_eq_ok hrun with ⟨next, -, hline, hrest⟩
      rw [consumeLine, hphase] at hline
      by_cases hmarker : line.trimLineEnd = Ledger.marker
      · have hstart : line.trimLineEnd = startMarker := hmarker
        simp only [if_pos hstart] at hline
        -- The marker ends this induction; the lines behind it are commands.
        rcases h.openWorkload hline with ⟨hopen, hnext⟩
        rcases hnext.consumeCommands hopen hrest with ⟨final, hfold, -, hfinal⟩
        refine ⟨final, ?_, hfinal⟩
        rw [List.map_cons, hmarker, Ledger.runLines_marker, hfold]
      · have hload : ¬line.trimLineEnd = startMarker := hmarker
        simp only [if_neg hload] at hline
        rcases h.loadPhrase hphase hpending hline with ⟨hkept, hqueue, hnext⟩
        rcases ih hnext hkept hqueue hrest with ⟨final, hfold, hfinal⟩
        refine ⟨final, ?_, hfinal⟩
        rw [List.map_cons, Ledger.runLines_cons hmarker, hfold]

end Mirrors

/-- Whatever the settings are and whoever runs the jobs, the output for an input that a
new session accepts is that of the plain ledger. -/
theorem run_eq_ledger {settings : Settings} {workers : σ} {session : Session σ}
    (hstart : Session.start settings (.start workers) Sink.unlimited = .ok session)
    {crew : Crew σ} {input : Text} {summary : Summary}
    (haccepted : (session.run crew input).result = .ok summary) :
    Ledger.run input = some (session.run crew input).sink.taken := by
  rcases mirrors_start hstart with ⟨hphase, hpending, hmirrors⟩
  unfold Session.run at haccepted ⊢
  rcases hrun : session.consumeAll crew input.lines with ⟨_ | _, after⟩
  · rw [hrun] at haccepted
    cases haccepted
  · rw [hrun] at haccepted
    simp only [close] at haccepted ⊢
    cases hend : after.phase with
    | bulkLoad =>
        rw [hend] at haccepted
        cases haccepted
    | workload =>
        obtain ⟨final, hfold, hfinal⟩ :=
          hmirrors.consumeAll hphase hpending hrun hend
        rw [Text.map_trimLineEnd_lines] at hfold
        rw [Ledger.run, hfold, Option.map_some]
        simp only [finish, hfinal.output]
        rfl

/-- Two workers, two slices and two fragments of every document: the first query sees a
phrase that is removed behind it, the second one sees a phrase that is added in front of
it, the third one comes after a flush, and the last one is never answered. -/
theorem run_eq_ledger_two_workers :
    let pool := Pool.start (Workers.idle 2 Workers.prompt)
    let input := Text.ofString
      "a\na  b\nS\nQ x a  b a b\nD a b\nA b\nQ a b b\nF\nD b\nQ a b\nF\nQ a\n"
    ∃ session summary,
      Session.start ⟨2, 2, 2, 1⟩ pool Sink.unlimited = .ok session ∧
      (session.run Workers.crew input).result = .ok summary ∧
      Ledger.run input = some (session.run Workers.crew input).sink.taken ∧
      (session.run Workers.crew input).sink.taken =
        Text.ofString "R\na|a  b|a b\na|b\na\n" := by
  intro pool input
  let session : Session Workers :=
    ⟨⟨2, 2, 2, 1⟩, .empty, pool, Sink.unlimited, #[], 0, 0, .bulkLoad, .zero, .new⟩
  have hstart : Session.start ⟨2, 2, 2, 1⟩ pool Sink.unlimited = .ok session := rfl
  obtain ⟨summary, haccepted⟩ : ∃ summary, (session.run Workers.crew input).result =
      .ok summary := exists_of_isOk (by decide +kernel)
  refine ⟨session, summary, hstart, haccepted, run_eq_ledger hstart haccepted, ?_⟩
  decide +kernel

end Session

end PhraseLedger
