import PhraseLedger.Dispatch.Workers
import PhraseLedger.Proofs.Effects
import PhraseLedger.Proofs.Feeding
import PhraseLedger.Proofs.Sinks

/-!
# Failures of the output

An output with limits takes the first bytes of what it is given and refuses the rest.  The
session in front of it goes on as if nothing had been refused, so it stays in step with a
session whose output takes everything.

Main definitions:

- Definition {lit}`Session.Shadows`: a session with a limited output in step with one whose
  output has no limits.

Main results:

- Theorem {lit}`Session.Shadows.perform`: a call keeps both in step, however it ends.
- Theorem {lit}`Session.Shadows.performAll`: so do calls one after the other.
- Theorem {lit}`Session.Shadows.consumeAll`: lines that succeed on a limited output succeed
  on the other one and are written as a whole.
- Theorem {lit}`Session.exists_last_send`: the last bytes that lines wrote were flushed.
- Theorem {lit}`Session.limits_disturb_nothing`: what the limits of an output change.
-/

namespace PhraseLedger

namespace Session

variable {σ : Type}

/-- Neither the pool nor the sink matters for the books. -/
theorem book_with (session : Session σ) (pool : Pool σ) (sink : Sink) (deed : Deed) :
    book { session with pool := pool, sink := sink } deed =
      { session.book deed with pool := pool, sink := sink } := by
  cases deed with
  | command command => cases command <;> rfl
  | _ => rfl

/-! ## The relation -/

/-- Whether a session is in step with one whose output has no limits: they differ in the
pool and the sink only, as many jobs were run, and the sink with room for `limit` bytes
holds what it can of what the other one took. -/
structure Shadows (limit : Nat) (session ideal : Session σ) : Prop where
  ready : session.Ready
  idealReady : ideal.Ready
  same : session = { ideal with pool := session.pool, sink := session.sink }
  jobs : session.pool.jobs = ideal.pool.jobs
  perfect : ideal.sink = { Sink.unlimited with taken := ideal.sink.taken }
  held : session.sink.Holds limit ideal.sink.taken

/-- Two sessions at their beginning are in step. -/
theorem shadows_start {settings : Settings} {workers others : σ} {limit : Nat}
    {flushes : Option Nat} {session ideal : Session σ}
    (hstart : Session.start settings (.start workers) (.limited (some limit) flushes) =
      .ok session)
    (hideal : Session.start settings (.start others) .unlimited = .ok ideal) :
    Shadows limit session ideal := by
  have hready := ready_start hstart
  have hidealReady := ready_start hideal
  rcases start_eq_ok hstart with ⟨-, rfl⟩
  rcases start_eq_ok hideal with ⟨-, rfl⟩
  exact ⟨hready, hidealReady, rfl, rfl, rfl, Sink.holds_limited limit flushes⟩

namespace Shadows

variable {limit : Nat} {session ideal : Session σ}

theorem phase (h : Shadows limit session ideal) : session.phase = ideal.phase := by
  rw [h.same]

theorem lineNumber (h : Shadows limit session ideal) :
    session.lineNumber = ideal.lineNumber := by
  rw [h.same]

theorem sends (h : Shadows limit session ideal) (deed : Deed) :
    session.sends deed = ideal.sends deed := by
  rw [h.same]
  rfl

theorem jobCount (h : Shadows limit session ideal) (deed : Deed) :
    session.jobCount deed = ideal.jobCount deed := by
  rw [h.same]
  rfl

theorem book (h : Shadows limit session ideal) (deed : Deed) :
    session.book deed = { ideal.book deed with pool := session.pool, sink := session.sink } :=
  (congrArg (Session.book · deed) h.same).trans
    (book_with ideal session.pool session.sink deed)

/-! ## Calls -/

/-- There is room on the one side if there is on the other. -/
theorem idealFits (h : Shadows limit session ideal)
    (hfits : ∀ query ∈ session.pending.toList, query.fits session.settings = true) :
    ∀ query ∈ ideal.pending.toList, query.fits ideal.settings = true := by
  rw [h.same] at hfits
  exact hfits

/-- A call keeps both in step, however it ends, if it is no flush or there is room for the queries
in the queue. -/
theorem perform (h : Shadows limit session ideal) (crew other : Crew σ) {call : Call}
    (hfits : (call.deed session.phase).isFlush = true →
      ∀ query ∈ session.pending.toList, query.fits session.settings = true) :
    Shadows limit (session.perform crew call).2 (ideal.perform other call).2 := by
  have hready := h.ready.perform crew call
  have hidealReady := h.idealReady.perform other call
  have hideal := perform_does_of_fits h.idealReady other call
    fun hflush => h.idealFits (hfits (h.phase ▸ hflush))
  rw [(perform_does_of_fits h.ready crew call hfits).snd] at hready ⊢
  rw [hideal.snd, ← h.phase] at hidealReady ⊢
  generalize call.deed session.phase = deed at hfits hready hidealReady ⊢
  have hsink := sinkAfter_of_eq_unlimited h.perfect deed
  refine ⟨hready, hidealReady, ?_, ?_, ?_, ?_⟩
  · simp only [Session.after, h.book]
  · rw [(after_advances crew session hfits).jobs,
      (after_advances other ideal fun hflush => h.idealFits (hfits hflush)).jobs, h.jobs,
      h.jobCount]
  · simp only [Session.after, hsink]
  · simp only [Session.after, hsink]
    rw [sinkAfter, h.sends]
    cases ideal.sends deed with
    | none => simpa using h.held
    | some text => exact h.held.send text

/-- Calls keep both in step, however they end, if there is room for the fragments of all
documents. -/
theorem performAll (h : Shadows limit session ideal) (hroomy : session.Roomy)
    (crew other : Crew σ) (calls : List Call) :
    Shadows limit (session.performAll crew calls).2 (ideal.performAll other calls).2 := by
  induction calls using List.reverseRecOn with
  | nil => exact h
  | append_singleton calls call ih =>
      rw [performAll_concat, performAll_concat]
      exact ih.perform crew other fun _ => (hroomy.performAll crew calls).fits

/-- If the same crew starts from the same pool, it leaves the same pool. -/
theorem pool_performAll (h : Shadows limit session ideal) (hroomy : session.Roomy)
    (hpool : session.pool = ideal.pool) (crew : Crew σ) (calls : List Call) :
    (session.performAll crew calls).2.pool = (ideal.performAll crew calls).2.pool := by
  induction calls using List.reverseRecOn with
  | nil => exact hpool
  | append_singleton calls call ih =>
      have hbefore := h.performAll hroomy crew crew calls
      have hfits := (hroomy.performAll crew calls).fits
      rw [performAll_concat, performAll_concat,
        (perform_does_of_fits hbefore.ready crew call fun _ => hfits).snd,
        (perform_does_of_fits hbefore.idealReady crew call fun _ => hbefore.idealFits hfits).snd,
        hbefore.phase]
      simp only [Session.after]
      rw [hbefore.same, ih]
      rfl

/-! ## Calls that succeed -/

/-- A call that succeeds on the limited output succeeds on the other one and is written as a
whole. -/
theorem perform_eq_ok (h : Shadows limit session ideal)
    (htaken : session.sink.taken = ideal.sink.taken) {crew : Crew σ} (other : Crew σ)
    {call : Call} {after : Session σ} (hcall : session.perform crew call = (.ok (), after)) :
    ∃ next, ideal.perform other call = (.ok (), next) ∧ Shadows limit after next ∧
      after.sink.taken = next.sink.taken := by
  have hfits := fits_of_perform_eq_ok h.ready (congrArg Prod.fst hcall)
  have hshadows := h.perform crew other hfits
  have hdoes := perform_does_of_fits h.ready crew call hfits
  have hidealDoes := perform_does_of_fits h.idealReady other call
    fun hflush => h.idealFits (hfits (h.phase ▸ hflush))
  have hafter := hdoes.snd
  have hnext := hidealDoes.snd
  have hok := hdoes.result_eq_ok_iff.mp (congrArg Prod.fst hcall)
  rw [hcall] at hshadows hafter
  rw [h.phase, h.lineNumber] at hok
  rw [h.phase] at hafter
  simp only at hafter
  have hideal : (ideal.perform other call).1 = .ok () := by
    rw [hidealDoes.result_of_eq_unlimited h.perfect]
    exact hok.1
  refine ⟨(ideal.perform other call).2, Prod.ext hideal rfl, hshadows, ?_⟩
  rw [hafter, hnext]
  simp only [Session.after, sinkAfter_of_eq_unlimited h.perfect]
  rw [sinkAfter, h.sends]
  cases hsends : ideal.sends (call.deed ideal.phase) with
  | none => simpa using htaken
  | some text =>
      have hsend := hok.2 text ((h.sends _).trans hsends)
      rw [Sink.taken_of_send_eq_ok (Prod.ext hsend rfl), htaken]
      rfl

/-- Lines that succeed on the limited output succeed on the other one and are written as a
whole. -/
theorem consumeAll (h : Shadows limit session ideal)
    (htaken : session.sink.taken = ideal.sink.taken) {crew : Crew σ} (other : Crew σ)
    {lines : List Text} {after : Session σ}
    (hrun : session.consumeAll crew lines = (.ok (), after)) :
    ∃ last, ideal.consumeAll other lines = (.ok (), last) ∧ Shadows limit after last ∧
      after.sink.taken = last.sink.taken := by
  induction lines generalizing session ideal with
  | nil =>
      rw [← (Prod.mk.inj hrun).2]
      exact ⟨ideal, rfl, h, htaken⟩
  | cons line rest ih =>
      rcases consumeAll_cons_eq_ok hrun with ⟨next, hutf8, hline, hrest⟩
      have hcall : session.perform crew (.ofLine line) = (.ok (), next) := hline
      rcases h.perform_eq_ok htaken other hcall with
        ⟨idealNext, hidealLine, hnext, hnextTaken⟩
      rcases ih hnext hnextTaken hrest with ⟨last, hlast, hshadows, hlastTaken⟩
      refine ⟨last, ?_, hshadows, hlastTaken⟩
      rw [Session.consumeAll, consumeRaw_of_isUtf8 hutf8, hidealLine]
      exact hlast

end Shadows

/-! ## Runs -/

/-- A call that succeeds either wrote and flushed, or left the output and the phase as they
were. -/
theorem exists_write_or_silent {crew : Crew σ} {session after : Session σ} {call : Call}
    (h : session.Ready) (hcall : session.perform crew call = (.ok (), after)) :
    (∃ text written, session.sink.write text = (.ok (), written) ∧
        written.flush = (.ok (), after.sink)) ∨
      after.sink = session.sink ∧ after.phase = session.phase := by
  have hdoes := perform_does_of_ok h (congrArg Prod.fst hcall)
  have hafter := hdoes.snd
  have hok := hdoes.result_eq_ok_iff.mp (congrArg Prod.fst hcall)
  rw [hcall] at hafter
  simp only at hafter
  rw [hafter]
  simp only [Session.after, sinkAfter, book_phase]
  cases hsends : session.sends (call.deed session.phase) with
  | some text => exact .inl ⟨text, Sink.exists_of_send_eq_ok (Prod.ext (hok.2 text hsends) rfl)⟩
  | none =>
      -- The end of the bulk load sends the ready line.
      have hopen : call.deed session.phase ≠ .openWorkload := by
        intro hdeed
        rw [hdeed] at hsends
        cases hsends
      exact .inr ⟨rfl, Deed.phaseAfter_of_ne hopen session.phase⟩

/-- A run that has come to the workload has sent something, the last bytes of which were
written and then flushed. -/
theorem exists_last_send {crew : Crew σ} {session after : Session σ} (h : session.Ready)
    (hphase : session.phase = .bulkLoad) {lines : List Text}
    (hrun : session.consumeAll crew lines = (.ok (), after)) (hend : after.phase = .workload) :
    ∃ front line back before between text written,
      lines = front ++ line :: back ∧
        session.consumeAll crew front = (.ok (), before) ∧
        before.consumeRaw crew line = (.ok (), between) ∧
        before.sink.write text = (.ok (), written) ∧
        written.flush = (.ok (), between.sink) ∧
        written.taken = after.sink.taken := by
  induction lines using List.reverseRecOn generalizing after with
  | nil =>
      rw [← (Prod.mk.inj hrun).2, hphase] at hend
      cases hend
  | append_singleton lines line ih =>
      rcases consumeAll_concat_eq_ok hrun with ⟨before, hbefore, hline⟩
      have hready : before.Ready := by
        rw [← performAll_of_consumeAll hbefore]
        exact h.performAll crew _
      have hcall := hline
      rw [consumeRaw_of_isUtf8 (consumeRaw_eq_ok hline).1] at hcall
      rcases exists_write_or_silent hready hcall with
        ⟨text, written, hwrite, hflush⟩ | ⟨hsink, hkept⟩
      · have htaken := Sink.taken_flush written
        rw [hflush] at htaken
        exact ⟨lines, line, [], before, after, text, written, rfl, hbefore, hline, hwrite,
          hflush, htaken.symm⟩
      · rcases ih hbefore (hkept.symm.trans hend) with ⟨front, middle, back, first, between,
          text, written, hlines, hfront, hmiddle, hwrite, hflush, htaken⟩
        refine ⟨front, middle, back ++ [line], first, between, text, written, ?_, hfront,
          hmiddle, hwrite, hflush, ?_⟩
        · rw [hlines, List.append_assoc]
          rfl
        · rw [htaken, hsink]

/-- A run that succeeds on the limited output succeeds on the other one and is written as a
whole. -/
theorem Shadows.run_eq_ok {limit : Nat} {session ideal : Session σ}
    (h : Shadows limit session ideal) (htaken : session.sink.taken = ideal.sink.taken)
    {crew : Crew σ} (other : Crew σ) {input : Text} {summary : Summary}
    (haccepted : (session.run crew input).result = .ok summary) :
    (∃ whole, (ideal.run other input).result = .ok whole) ∧
      (session.run crew input).sink.taken = (ideal.run other input).sink.taken := by
  rcases exists_of_run_eq_ok haccepted with ⟨after, hrun, hend⟩
  rcases h.consumeAll htaken other hrun with ⟨last, hlast, hafter, hwhole⟩
  have hlastEnd : last.phase = .workload := hafter.phase.symm.trans hend
  rw [run_of_consumeAll hrun hend, run_of_consumeAll hlast hlastEnd]
  simp only [taken_finish]
  exact ⟨⟨_, rfl⟩, hwhole⟩

/-- The last bytes of a run that succeeds were written and then flushed. -/
theorem exists_last_send_of_run {crew : Crew σ} {session : Session σ} (h : session.Ready)
    (hphase : session.phase = .bulkLoad) {input : Text} {summary : Summary}
    (haccepted : (session.run crew input).result = .ok summary) :
    ∃ front line back before after text written,
      input.lines = front ++ line :: back ∧
        session.consumeAll crew front = (.ok (), before) ∧
        before.consumeRaw crew line = (.ok (), after) ∧
        before.sink.write text = (.ok (), written) ∧
        written.flush = (.ok (), after.sink) ∧
        written.taken = (session.run crew input).sink.taken := by
  rcases exists_of_run_eq_ok haccepted with ⟨after, hrun, hend⟩
  rw [run_of_consumeAll hrun hend]
  simp only [taken_finish]
  exact exists_last_send h hphase hrun hend

/-- The limits of an output do not disturb a session in front of it.  After any calls, and
however they ended, it is where it would be without the limits, its stopwatches were pressed
alike, and the output holds as many bytes as fit of those that it would have without them, if
there is room for the fragments of all documents.  A run that succeeds was written as a
whole, and its last bytes were flushed. -/
theorem limits_disturb_nothing {settings : Settings} {workers others : σ} {limit : Nat}
    {flushes : Option Nat} {session ideal : Session σ}
    (hstart : Session.start settings (.start workers) (.limited (some limit) flushes) =
      .ok session)
    (hideal : Session.start settings (.start others) .unlimited = .ok ideal)
    (crew other : Crew σ) :
    (Text.hasRoom settings.fragmentWorkers = true → ∀ calls,
      let after := (session.performAll crew calls).2
      let perfect := (ideal.performAll other calls).2
      after.phase = perfect.phase ∧ after.opIndex = perfect.opIndex ∧
        after.lineNumber = perfect.lineNumber ∧ after.pending = perfect.pending ∧
        after.index = perfect.index ∧ after.tally = perfect.tally ∧
        after.timing = perfect.timing ∧ after.pool.jobs = perfect.pool.jobs ∧
        (crew = other → workers = others → after.pool = perfect.pool) ∧
        after.sink.taken =
          perfect.sink.taken.take (min limit perfect.sink.taken.length)) ∧
    ∀ input summary, (session.run crew input).result = .ok summary →
      (∃ whole, (ideal.run other input).result = .ok whole) ∧
        (session.run crew input).sink.taken = (ideal.run other input).sink.taken ∧
        ∃ front line back before after text written,
          input.lines = front ++ line :: back ∧
            session.consumeAll crew front = (.ok (), before) ∧
            before.consumeRaw crew line = (.ok (), after) ∧
            before.sink.write text = (.ok (), written) ∧
            written.flush = (.ok (), after.sink) ∧
            written.taken = (session.run crew input).sink.taken := by
  have hshadows := shadows_start hstart hideal
  constructor
  · intro hroom calls after perfect
    have hroomy := roomy_start hstart hroom
    have hafter : Shadows limit after perfect := hshadows.performAll hroomy crew other calls
    refine ⟨hafter.phase, ?_, hafter.lineNumber, ?_, ?_, ?_, ?_, hafter.jobs, ?_, ?_⟩
    · rw [hafter.same]
    · rw [hafter.same]
    · rw [hafter.same]
    · rw [hafter.same]
    · rw [hafter.same]
    · rintro rfl rfl
      have hpool : session.pool = ideal.pool := by
        rw [(start_eq_ok hstart).2, (start_eq_ok hideal).2]
      exact hshadows.pool_performAll hroomy hpool crew calls
    · rw [hafter.held.taken]
      exact List.take_eq_take_min
  · intro input summary haccepted
    rcases start_eq_ok hstart with ⟨-, hsession⟩
    have hphase : session.phase = .bulkLoad := by rw [hsession]
    have htaken : session.sink.taken = ideal.sink.taken := by
      rw [hsession, (start_eq_ok hideal).2]
      rfl
    rcases hshadows.run_eq_ok htaken other haccepted with ⟨hidealRun, hwhole⟩
    exact ⟨hidealRun, hwhole, exists_last_send_of_run (ready_start hstart) hphase haccepted⟩

/-- The output has room for seven bytes and can be flushed twice.  That is enough for a run
with one flush.  Of two more flushes, the first one is refused behind its last byte and the
second one in the middle of its line. -/
theorem limits_disturb_nothing_seven_bytes :
    let text := Text.ofString
    let pool := Pool.start (Workers.idle 2 Workers.prompt)
    let input := text "a\nS\nQ a\nF\n"
    let calls : List Call :=
      [.consumeLine (text "a"), .consumeLine (text "S"), .consumeLine (text "Q a"), .flush,
        .applyLine (text "A b"), .applyLine (text "Q a"), .applyLine (text "F"),
        .loadPhrase (text "c"), .consumeLine (text "Q b"), .consumeLine (text "F"),
        .consumeLine (text "Q a b")]
    ∃ session ideal summary,
      Session.start ⟨2, 2, 2, 1⟩ pool (.limited (some 7) (some 2)) = .ok session ∧
        Session.start ⟨2, 2, 2, 1⟩ pool .unlimited = .ok ideal ∧ Text.hasRoom 2 = true ∧
        (session.performAll Workers.crew calls).2.pending =
          (ideal.performAll Workers.crew calls).2.pending ∧
        (session.performAll Workers.crew calls).2.tally =
          (ideal.performAll Workers.crew calls).2.tally ∧
        (session.performAll Workers.crew calls).2.sink.taken =
          (ideal.performAll Workers.crew calls).2.sink.taken.take 7 ∧
        (ideal.performAll Workers.crew calls).2.sink.taken = text "R\na\na\nb\n" ∧
        (session.run Workers.crew input).result = .ok summary ∧
        (session.run Workers.crew input).sink.taken =
          (ideal.run Workers.crew input).sink.taken ∧
        (session.run Workers.crew input).sink.taken = text "R\na\n" := by
  intro text pool input calls
  let session : Session Workers :=
    ⟨⟨2, 2, 2, 1⟩, .empty, pool, .limited (some 7) (some 2), #[], 0, 0, .bulkLoad, .zero, .new⟩
  let ideal : Session Workers := { session with sink := .unlimited }
  have hstart : Session.start ⟨2, 2, 2, 1⟩ pool (.limited (some 7) (some 2)) = .ok session :=
    rfl
  have hideal : Session.start ⟨2, 2, 2, 1⟩ pool .unlimited = .ok ideal := rfl
  have hroom : Text.hasRoom 2 = true := by decide
  obtain ⟨summary, haccepted⟩ : ∃ summary, (session.run Workers.crew input).result =
      .ok summary := exists_of_isOk (by decide +kernel)
  obtain ⟨hcalls, hrun⟩ := limits_disturb_nothing hstart hideal Workers.crew Workers.crew
  obtain ⟨-, -, -, hpending, -, htally, -, -, -, htaken⟩ := hcalls hroom calls
  have hwhole : (ideal.performAll Workers.crew calls).2.sink.taken = text "R\na\na\nb\n" := by
    decide +kernel
  refine ⟨session, ideal, summary, hstart, hideal, hroom, hpending, htally, ?_, hwhole, haccepted,
    (hrun input summary haccepted).2.1, ?_⟩
  · rw [htaken, hwhole]
    rfl
  · decide +kernel

end Session

end PhraseLedger
