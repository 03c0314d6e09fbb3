import PhraseLedger.Session.Call
import PhraseLedger.Proofs.Accounts
import Mathlib.Tactic.SplitIfs

/-!
# What a call comes to

Calls come in five kinds, but what a call comes to is a deed, and which deed that is depends
on the phase only.  A deed has a verdict and changes the books of the session.  A call enters
its deed into the books and leaves no job behind, also if it is a flush that aborts its thread.
Then the flush is not counted.

Main definitions:

- Definition {lit}`Call.deed`: what a call comes to in a phase.
- Definition {lit}`Session.carryOut`: carries out a deed.
- Definition {lit}`Session.book`: what a deed changes besides the pool and the sink.

Main results:

- Theorem {lit}`Session.perform_eq_carryOut`: a call is carried out as what it comes to.
- Theorem {lit}`Session.perform_keeps`: what a call leaves in the books, however it ends.
- Theorem {lit}`Session.Ready.performAll`: no sequence of calls leaves a job behind.
-/

namespace PhraseLedger

/-- Valid settings ask for at least one slice. -/
theorem Settings.parallelism_of_validate {settings : Settings}
    (hvalidate : settings.validate = .ok ()) : 1 ≤ settings.parallelism := by
  unfold validate at hvalidate
  split_ifs at hvalidate with hpool hparallelism
  omega

/-- What a call comes to. -/
inductive Deed where
  /-- An operation that is not allowed now. -/
  | misuse (name : String)
  /-- A line of the workload that is no command. -/
  | malformed (fault : LineFault)
  /-- A phrase of the bulk load. -/
  | load (text : Text)
  /-- The end of the bulk load. -/
  | openWorkload
  /-- A command of the workload. -/
  | command (command : Command)
  /-- A flush that no line asked for. -/
  | flush
deriving DecidableEq, Repr

namespace Deed

/-- What a line of the workload comes to. -/
def ofLine (line : Text) : Deed :=
  match Command.parse line with
  | .error fault => .malformed fault
  | .ok parsed => .command parsed

/-- Whether a deed is a command of the workload. -/
def isCommand : Deed → Bool
  | .command _ => true
  | _ => false

/-- Whether a deed answers the queries in the queue. -/
def isFlush : Deed → Bool
  | .command .flush => true
  | .flush => true
  | _ => false

/-- A flush is a command of a line or a call of its own. -/
theorem isFlush_iff {deed : Deed} :
    deed.isFlush = true ↔ deed = .command .flush ∨ deed = .flush := by
  constructor
  · intro hflush
    cases deed with
    | command command =>
        cases command with
        | flush => exact .inl rfl
        | _ => cases hflush
    | flush => exact .inr rfl
    | _ => cases hflush
  · rintro (rfl | rfl) <;> rfl

/-- Whether a deed is one of the bulk load. -/
def isBulk : Deed → Bool
  | .load _ => true
  | .openWorkload => true
  | _ => false

/-- The phase after a deed. -/
def phaseAfter (phase : Phase) : Deed → Phase
  | .openWorkload => .workload
  | _ => phase

/-- Only the end of the bulk load changes the phase. -/
theorem phaseAfter_of_ne {deed : Deed} (hopen : deed ≠ .openWorkload) (phase : Phase) :
    deed.phaseAfter phase = phase := by
  cases deed with
  | openWorkload => exact absurd rfl hopen
  | _ => rfl

/-- How a deed ends if the output does not fail; `lineNumber` is the number of lines before
it. -/
def verdict (lineNumber : Nat) : Deed → Except Failure Unit
  | .misuse name => .error (Session.misuse name)
  | .malformed fault => .error (.error (.malformedLine (lineNumber + 1) fault.reason))
  | _ => .ok ()

end Deed

/-- The stopwatches after an activity, from its beginning to its end. -/
def Timing.measure (timing : Timing) (activity : Activity) : Timing :=
  (timing.start activity).stop activity

namespace Call

/-- What a call comes to in a phase. -/
def deed (phase : Phase) : Call → Deed
  | .consumeLine line =>
    match phase with
    | .bulkLoad => if line = Session.startMarker then .openWorkload else .load line
    | .workload => .ofLine line
  | .loadPhrase text =>
    match phase with
    | .bulkLoad => .load text
    | .workload => .misuse "load_ngram after the bulk load"
  | .openWorkload =>
    match phase with
    | .bulkLoad => .openWorkload
    | .workload => .misuse "finish_bulk_load called twice"
  | .applyLine line =>
    match phase with
    | .bulkLoad => .misuse "apply_line before the bulk load finished"
    | .workload => .ofLine line
  | .flush => .flush

/-- Deeds of the bulk load are done in the bulk load only. -/
theorem phase_of_isBulk (phase : Phase) (call : Call)
    (hbulk : (call.deed phase).isBulk = true) : phase = .bulkLoad := by
  cases phase with
  | bulkLoad => rfl
  | workload =>
      cases call with
      | consumeLine line =>
          rw [deed, Deed.ofLine] at hbulk
          split at hbulk <;> cases hbulk
      | applyLine line =>
          rw [deed, Deed.ofLine] at hbulk
          split at hbulk <;> cases hbulk
      | _ => cases hbulk

/-- What calls come to, the first of which is made in the given phase. -/
def deeds (phase : Phase) : List Call → List Deed
  | [] => []
  | call :: rest => call.deed phase :: deeds ((call.deed phase).phaseAfter phase) rest

/-- A last call is made in the phase that the deeds before it lead to. -/
theorem deeds_concat (phase : Phase) (calls : List Call) (call : Call) :
    deeds phase (calls ++ [call]) =
      deeds phase calls ++ [call.deed ((deeds phase calls).foldl Deed.phaseAfter phase)] := by
  induction calls generalizing phase with
  | nil => rfl
  | cons first rest ih =>
      rw [List.cons_append, deeds, ih, deeds, List.foldl_cons, List.cons_append]

end Call

namespace Session

variable {σ : Type}

/-- What a deed changes besides the pool and the sink. -/
def book (session : Session σ) : Deed → Session σ
  | .misuse _ => session.nextLine
  | .malformed _ => session.nextLine
  | .load text =>
    { session.nextLine with
      index := session.index.add text bulkOpIndex
      tally := { session.tally with
        loaded := session.tally.loaded + if text.hasWord then 1 else 0 }
      timing := session.timing.start .bulkLoad }
  | .openWorkload =>
    { session.nextLine with
      phase := .workload
      timing := session.timing.stop .bulkLoad }
  | .command (.add phrase) =>
    { session.nextLine with
      opIndex := session.opIndex + 1
      index := session.index.add phrase (session.opIndex + 1)
      tally := { session.tally with adds := session.tally.adds + 1 }
      timing := session.timing.measure .mutations }
  | .command (.remove phrase) =>
    { session.nextLine with
      opIndex := session.opIndex + 1
      index := session.index.remove phrase (session.opIndex + 1)
      tally := { session.tally with removes := session.tally.removes + 1 }
      timing := session.timing.measure .mutations }
  | .command (.query document) =>
    { session.nextLine with
      opIndex := session.opIndex + 1
      pending := session.pending.push ⟨document, session.opIndex + 1⟩
      tally := { session.tally with queries := session.tally.queries + 1 } }
  | .command .flush =>
    { session.nextLine with
      opIndex := session.opIndex + 1
      pending := #[]
      tally := { session.tally with flushes := session.tally.flushes + 1 }
      timing := session.timing.measure .flushes }
  | .flush =>
    { session with
      pending := #[]
      tally := { session.tally with flushes := session.tally.flushes + 1 }
      timing := session.timing.measure .flushes }

@[simp] theorem book_settings (session : Session σ) (deed : Deed) :
    (session.book deed).settings = session.settings := by
  cases deed with
  | command command => cases command <;> rfl
  | _ => rfl

@[simp] theorem book_pool (session : Session σ) (deed : Deed) :
    (session.book deed).pool = session.pool := by
  cases deed with
  | command command => cases command <;> rfl
  | _ => rfl

@[simp] theorem book_sink (session : Session σ) (deed : Deed) :
    (session.book deed).sink = session.sink := by
  cases deed with
  | command command => cases command <;> rfl
  | _ => rfl

@[simp] theorem book_phase (session : Session σ) (deed : Deed) :
    (session.book deed).phase = deed.phaseAfter session.phase := by
  cases deed with
  | command command => cases command <;> rfl
  | _ => rfl

/-- Every deed but a flush that no line asked for has a line. -/
theorem book_lineNumber (session : Session σ) {deed : Deed} (hline : deed ≠ .flush) :
    (session.book deed).lineNumber = session.lineNumber + 1 := by
  cases deed with
  | command command => cases command <;> rfl
  | flush => exact absurd rfl hline
  | _ => rfl

/-! ## Calls one by one -/

/-- Carries out a deed. -/
def carryOut (crew : Crew σ) (session : Session σ) : Deed → Except Failure Unit × Session σ
  | .misuse name => (.error (misuse name), session.nextLine)
  | .malformed fault =>
    (.error (.error (.malformedLine (session.lineNumber + 1) fault.reason)), session.nextLine)
  | .load text => session.loadPhrase text
  | .openWorkload => session.openWorkload
  | .command command =>
    { session.nextLine with opIndex := session.opIndex + 1 }.execute crew command
  | .flush => session.flush crew

/-- A line of the workload is carried out as what it comes to. -/
theorem applyLine_eq_carryOut {session : Session σ} (hphase : session.phase = .workload)
    (crew : Crew σ) (line : Text) :
    session.applyLine crew line = session.carryOut crew (.ofLine line) := by
  have hopen : ¬session.nextLine.phase ≠ .workload := not_not.mpr hphase
  rw [applyLine, if_neg hopen, Deed.ofLine]
  cases Command.parse line <;> rfl

/-- A call is carried out as what it comes to in the phase of the session. -/
theorem perform_eq_carryOut (crew : Crew σ) (session : Session σ) (call : Call) :
    session.perform crew call = session.carryOut crew (call.deed session.phase) := by
  cases hphase : session.phase with
  | bulkLoad =>
      cases call with
      | consumeLine line =>
          rw [perform, consumeLine, hphase, Call.deed]
          by_cases hmarker : line = startMarker
          · simp only [if_pos hmarker, carryOut]
          · simp only [if_neg hmarker, carryOut]
      | applyLine line =>
          have hclosed : session.nextLine.phase ≠ .workload := by
            rw [show session.nextLine.phase = session.phase from rfl, hphase]
            simp
          rw [perform, applyLine, if_pos hclosed]
          rfl
      | _ => rfl
  | workload =>
      have hclosed : session.nextLine.phase ≠ .bulkLoad := by
        rw [show session.nextLine.phase = session.phase from rfl, hphase]
        simp
      cases call with
      | consumeLine line =>
          rw [perform, consumeLine, hphase]
          exact applyLine_eq_carryOut hphase crew line
      | loadPhrase text =>
          rw [perform, loadPhrase, if_pos hclosed]
          rfl
      | openWorkload =>
          rw [perform, openWorkload, if_pos hclosed]
          rfl
      | applyLine line => exact applyLine_eq_carryOut hphase crew line
      | flush => rfl

/-- A phrase of the bulk load is booked and nothing else. -/
theorem loadPhrase_eq_book {session : Session σ} (hsettled : session.pool.isSettled = true)
    (hphase : session.phase = .bulkLoad) (text : Text) :
    session.loadPhrase text = (.ok (), session.book (.load text)) := by
  have hopen : ¬session.nextLine.phase ≠ .bulkLoad := not_not.mpr hphase
  have hfree : ¬(!(session.nextLine.startWatch .bulkLoad).pool.isSettled) = true := by
    rw [show (session.nextLine.startWatch .bulkLoad).pool = session.pool from rfl, hsettled]
    simp
  have hindex : (session.nextLine.startWatch .bulkLoad).index = session.index := rfl
  rw [loadPhrase, if_neg hopen, if_neg hfree, book, Index.add, hindex, Index.add?]
  by_cases hword : text.hasWord <;> simp [hword, nextLine, startWatch]

/-- A change to the index is carried out and counted, and the time that it takes is measured. -/
theorem mutate_of_isSettled {session : Session σ} (hsettled : session.pool.isSettled = true)
    (change : Index → Index) (count : Tally → Tally) :
    session.mutate change count =
      (.ok (), { session with
        index := change session.index
        tally := count session.tally
        timing := session.timing.measure .mutations }) := by
  have hfree : ¬(!(session.startWatch .mutations).pool.isSettled) = true := by
    rw [show (session.startWatch .mutations).pool = session.pool from rfl, hsettled]
    simp
  rw [mutate, if_neg hfree]
  rfl

/-- A flush that does not abort its thread is booked, however it ends. -/
theorem flush_eq_book {crew : Crew σ} {session : Session σ} {result : Except Failure Unit}
    {pool : Pool σ} {sink : Sink}
    (hanswer : Batch.answerTo crew session.index session.settings session.pending.toList
      session.pool session.sink = (result, pool, sink))
    (hreturns : result ≠ .error .abort) :
    session.flush crew = (result, { session.book .flush with pool := pool, sink := sink }) := by
  rw [flush, hanswer]
  rcases result with (error | _) | _
  · rfl
  · exact absurd rfl hreturns
  · rfl

/-- A flush empties the queue and leaves no job behind, whatever else it comes to. -/
theorem flush_keeps (crew : Crew σ) (session : Session σ) :
    ∃ pool sink tally timing, (session.flush crew).2 =
        { session with
          pool := pool, sink := sink, pending := #[], tally := tally, timing := timing } ∧
      pool.borrowed = session.pool.borrowed := by
  have hborrowed := Batch.borrowed_answerTo crew session.index session.settings
    session.pending.toList session.pool session.sink
  rcases hanswer : Batch.answerTo crew session.index session.settings session.pending.toList
    session.pool session.sink with ⟨(error | _) | _, pool, sink⟩ <;>
    rw [hanswer] at hborrowed <;> rw [flush, hanswer] <;>
    exact ⟨pool, sink, _, _, rfl, hborrowed⟩

/-! ## Calls in any order -/

/-- Whether no job of an earlier call borrows the index, and the settings ask for at least
one slice. -/
structure Ready (session : Session σ) : Prop where
  slices : 1 ≤ session.settings.parallelism
  settled : session.pool.isSettled = true

/-- Only the settings and the pool decide whether a session is ready. -/
theorem Ready.congr {session other : Session σ} (h : session.Ready)
    (hsettings : other.settings = session.settings) (hpool : other.pool = session.pool) :
    other.Ready :=
  ⟨hsettings ▸ h.slices, hpool ▸ h.settled⟩

/-- However a call ends, its deed is in the books but for the counters and the stopwatches, and
no job is left behind. -/
theorem perform_keeps {session : Session σ} (h : session.Ready) (crew : Crew σ) (call : Call) :
    ∃ pool sink tally timing, (session.perform crew call).2 =
        { session.book (call.deed session.phase) with
          pool := pool, sink := sink, tally := tally, timing := timing } ∧
      pool.borrowed = session.pool.borrowed := by
  have hbulk := call.phase_of_isBulk session.phase
  rw [perform_eq_carryOut]
  cases hdeed : call.deed session.phase with
  | misuse name => exact ⟨_, _, _, _, rfl, rfl⟩
  | malformed fault => exact ⟨_, _, _, _, rfl, rfl⟩
  | load text =>
      rw [carryOut, loadPhrase_eq_book h.settled (hbulk (hdeed ▸ rfl))]
      exact ⟨_, _, _, _, rfl, rfl⟩
  | openWorkload =>
      have hopen : ¬session.nextLine.phase ≠ .bulkLoad := not_not.mpr (hbulk (hdeed ▸ rfl))
      rw [carryOut, openWorkload, if_neg hopen]
      simp only
      rcases (session.nextLine.stopWatch .bulkLoad).sink.write readyLine with ⟨_ | _, written⟩
      · exact ⟨_, _, _, _, rfl, rfl⟩
      · simp only
        rcases written.flush with ⟨_ | _, after⟩ <;> exact ⟨_, _, _, _, rfl, rfl⟩
  | command command =>
      have hsettled : Pool.isSettled
          { session.nextLine with opIndex := session.opIndex + 1 }.pool = true := h.settled
      cases command with
      | add phrase =>
          rw [carryOut, execute, mutate_of_isSettled hsettled]
          exact ⟨_, _, _, _, rfl, rfl⟩
      | remove phrase =>
          rw [carryOut, execute, mutate_of_isSettled hsettled]
          exact ⟨_, _, _, _, rfl, rfl⟩
      | query document => exact ⟨_, _, _, _, rfl, rfl⟩
      | flush => exact flush_keeps crew _
  | flush => exact flush_keeps crew session

/-- A call leaves a session that is ready for the next one. -/
theorem Ready.perform {session : Session σ} (h : session.Ready) (crew : Crew σ)
    (call : Call) : (session.perform crew call).2.Ready := by
  rcases perform_keeps h crew call with ⟨pool, sink, tally, timing, hafter, hborrowed⟩
  rw [hafter]
  constructor
  · simpa using h.slices
  · have hsettled := h.settled
    rw [Pool.isSettled] at hsettled ⊢
    rw [hborrowed]
    exact hsettled

/-- A session starts on valid settings and is at its beginning then. -/
theorem start_eq_ok {settings : Settings} {pool : Pool σ} {sink : Sink}
    {session : Session σ} (hstart : Session.start settings pool sink = .ok session) :
    settings.validate = .ok () ∧
      session =
        { settings := settings
          index := .empty
          pool := pool
          sink := sink
          pending := #[]
          opIndex := bulkOpIndex
          lineNumber := 0
          phase := .bulkLoad
          tally := .zero
          timing := .new } := by
  unfold Session.start at hstart
  cases hvalidate : settings.validate with
  | error error =>
      rw [hvalidate] at hstart
      cases hstart
  | ok _ =>
      rw [hvalidate] at hstart
      exact ⟨rfl, (Except.ok.inj hstart).symm⟩

/-- A session at its beginning is ready for any call. -/
theorem ready_start {settings : Settings} {workers : σ} {sink : Sink} {session : Session σ}
    (hstart : Session.start settings (.start workers) sink = .ok session) :
    session.Ready := by
  rcases start_eq_ok hstart with ⟨hvalidate, rfl⟩
  exact ⟨Settings.parallelism_of_validate hvalidate, rfl⟩

/-- A last call is made by the session that the calls before it leave. -/
theorem performAll_concat (crew : Crew σ) (session : Session σ) (calls : List Call)
    (call : Call) :
    (session.performAll crew (calls ++ [call])).2 =
      ((session.performAll crew calls).2.perform crew call).2 := by
  induction calls generalizing session with
  | nil => rfl
  | cons first rest ih =>
      rw [List.cons_append, performAll, performAll]
      exact ih (session.perform crew first).2

/-- No sequence of calls leaves a job behind that borrows the index. -/
theorem Ready.performAll {session : Session σ} (h : session.Ready) (crew : Crew σ)
    (calls : List Call) : (session.performAll crew calls).2.Ready := by
  induction calls using List.reverseRecOn with
  | nil => exact h
  | append_singleton calls call ih =>
      rw [performAll_concat]
      exact ih.perform crew call

end Session

end PhraseLedger
