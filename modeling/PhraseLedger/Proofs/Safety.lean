import PhraseLedger.Proofs.Barrier
import PhraseLedger.Proofs.Chronicle
import PhraseLedger.Proofs.Feeding
import PhraseLedger.Proofs.Slices
import PhraseLedger.Proofs.Slots

/-!
# Jobs that come to an end

A job could abort its thread where it slices a document, follows a child of a node or takes a
slot of the pool.  On UTF-8 texts every such place exists, so if there is room for the fragments
of the documents, no job aborts, no result is lost, and a run fails at a line, at the end of its
input or at its input or output only.

Main definitions:

- Definition {lit}`Batch.Safe`: whether no job of a batch can abort.
- Definition {lit}`Session.Safe`: whether no job of the next flush can abort.
- Definition {lit}`Failure.OfRun`: the failures of runs.
- Definition {lit}`Session.LosesNothing`: whether no result is lost in what begins with a session.

Main results:

- Theorem {lit}`Batch.safe_of_isUtf8`: no job of a batch of UTF-8 documents with room for their
  fragments aborts.
- Theorem {lit}`Session.Intact.meetAll`: what keeps sessions safe holds whatever happens to them.
- Theorem {lit}`Session.nothing_is_lost`: no session loses a result.
-/

namespace PhraseLedger

variable {σ : Type}

namespace Failure

/-- Whether a thread was aborted or the result of a job was lost. -/
def isLoss : Failure → Bool
  | .abort => true
  | .error (.workerLost _) => true
  | .error _ => false

/-- Whether a failure is that of a line, of the end of an input, or of reading or writing. -/
inductive OfRun : Failure → Prop
  | malformedLine (lineNumber : Nat) (reason : String) :
      OfRun (.error (.malformedLine lineNumber reason))
  | unexpectedEnd (context : String) : OfRun (.error (.unexpectedEnd context))
  | io (context source : String) : OfRun (.error (.io context source))

end Failure

/-! ## Children -/

/-- Whether everything that a byte leads to exists: a child at the position of every key in
compact lists, and a slot for every byte in a direct table. -/
def Fanout.HasSlots {α : Type} : Fanout α → Prop
  | .compact keys children =>
      ∀ byte, ∀ position ∈ keys.idxOf? byte, position < children.length
  | .direct slots => ∀ byte : UInt8, byte.toNat < slots.size

theorem Fanout.Valid.hasSlots {α : Type} {fanout : Fanout α} (hvalid : fanout.Valid) :
    fanout.HasSlots := by
  cases fanout with
  | compact keys children =>
      intro byte position hposition
      rw [hvalid.2.1]
      exact (List.idxOf?_eq_some_iff.mp hposition).1
  | direct slots =>
      intro byte
      rw [hvalid]
      exact byte.toNat_lt

/-- All nodes below one that is held as it should be are held as they should be. -/
theorem Node.Valid.of_leads {node last : Node} (hvalid : node.Valid) {path : List UInt8}
    (hleads : node.Leads path last) : last.Valid := by
  induction hleads with
  | refl node => exact hvalid
  | step hchild hpath ih =>
      exact ih (hvalid.child ((Fanout.mem_toList_iff hvalid.fanout _ _).mp hchild))

/-! ## Batches -/

/-- Whether no job of a batch can abort its thread: everything that is sliced can be sliced, and
whatever steps the threads take, no job that they come to aborts. -/
structure Batch.Safe (index : Index) (settings : Settings) (queries : List Query) : Prop where
  slices : ∀ query ∈ queries, query.Slices index settings
  jobs : ∀ pool : Pool (List (Desk Product)), pool.AtRest →
    ∀ (moves : List Move) (shop : Workshop Product),
      (opened index settings queries pool).run moves = some shop →
        ∀ task : Task Product, .job task ∈ shop.pieces → task.plan ≠ .abort

/-- No job of a batch of UTF-8 documents aborts its thread, if there is room for the fragments of
the documents. -/
theorem Batch.safe_of_isUtf8 (index : Index) {settings : Settings} {queries : List Query}
    (hutf8 : ∀ query ∈ queries, query.document.isUtf8 = true)
    (hfits : ∀ query ∈ queries, query.fits settings = true) :
    Safe index settings queries := by
  refine ⟨fun query hquery => Query.slices_of_isUtf8 index settings (hutf8 query hquery), ?_⟩
  intro pool hpool moves shop hrun task htask habort
  rcases sound_of_run hfits hpool hrun with ⟨expected, hsound⟩
  rcases hsound.keeps (.job task) htask with ⟨result, -, hyields⟩
  rw [habort] at hyields
  exact Plan.not_yields_abort result hyields

/-! ## Calls and their texts -/

/-- The text that a call is made with, if any. -/
def Call.text? : Call → Option Text
  | .consumeLine line => some line
  | .loadPhrase text => some text
  | .applyLine line => some line
  | .openWorkload => none
  | .flush => none

/-- A command comes from the line of its call. -/
theorem Call.exists_line_of_deed {phase : Phase} {call : Call} {command : Command}
    (hdeed : call.deed phase = .command command) :
    ∃ line, call.text? = some line ∧ Command.parse line = .ok command := by
  have hline : ∀ line, Deed.ofLine line = .command command →
      Command.parse line = .ok command := by
    intro line hline
    rw [Deed.ofLine] at hline
    split at hline
    · cases hline
    · rename_i parsed hparse
      rw [hparse, Deed.command.inj hline]
  cases call with
  | consumeLine line =>
      refine ⟨line, rfl, hline line ?_⟩
      cases phase with
      | bulkLoad =>
          rw [deed] at hdeed
          split at hdeed <;> cases hdeed
      | workload => exact hdeed
  | applyLine line =>
      refine ⟨line, rfl, hline line ?_⟩
      cases phase with
      | bulkLoad => cases hdeed
      | workload => exact hdeed
  | _ => cases phase <;> cases hdeed

/-- Whether the text of an event, if it has one, is UTF-8. -/
def Event.IsUtf8 (event : Event) : Prop :=
  ∀ call ∈ event.call?, ∀ text ∈ call.text?, text.isUtf8 = true

instance (event : Event) : Decidable event.IsUtf8 :=
  inferInstanceAs (Decidable (∀ call ∈ event.call?, ∀ text ∈ call.text?, text.isUtf8 = true))

/-- The document of a query in a UTF-8 text is UTF-8. -/
theorem Call.isUtf8_of_query? {phase : Phase} {call : Call}
    (hutf8 : ∀ text ∈ call.text?, text.isUtf8 = true) {opIndex : Nat} {query : Query}
    (hquery : (call.deed phase).query? opIndex = some query) :
    query.document.isUtf8 = true := by
  cases hdeed : call.deed phase with
  | command command =>
      rw [hdeed] at hquery
      cases command with
      | query document =>
          rcases exists_line_of_deed hdeed with ⟨line, htext, hparse⟩
          obtain rfl := Option.some.inj hquery
          exact (Command.canSlice_payload (hutf8 line htext) hparse rfl).2.2
      | _ => cases hquery
  | _ =>
      rw [hdeed] at hquery
      cases hquery

namespace Session

/-! ## How calls fail -/

/-- No call fails because a thread was aborted or a result was lost. -/
theorem isLoss_of_perform {session : Session σ} (h : session.Roomy) (crew : Crew σ)
    {call : Call} {failure : Failure}
    (hfails : (session.perform crew call).1 = .error failure) : failure.isLoss = false := by
  rcases verdict_or_io_of_perform h crew hfails with hverdict | ⟨context, source, rfl⟩
  · cases hdeed : call.deed session.phase with
    | misuse name =>
        rw [hdeed] at hverdict
        rw [← Except.error.inj hverdict]
        rfl
    | malformed fault =>
        rw [hdeed] at hverdict
        rw [← Except.error.inj hverdict]
        rfl
    | _ =>
        rw [hdeed] at hverdict
        cases hverdict
  · rfl

/-- A line of an input fails for its own sake, or because the input or the output fails. -/
theorem ofRun_of_consumeRaw {session : Session σ} (h : session.Roomy) (crew : Crew σ)
    {line : Text} {failure : Failure}
    (hfails : (session.consumeRaw crew line).1 = .error failure) : failure.OfRun := by
  cases hutf8 : line.isUtf8 with
  | false =>
      rw [consumeRaw, if_neg (by simp [hutf8])] at hfails
      rw [← Except.error.inj hfails]
      exact .io _ _
  | true =>
      rw [consumeRaw_of_isUtf8 hutf8] at hfails
      rcases verdict_or_io_of_perform h crew hfails with hverdict | ⟨context, source, rfl⟩
      · -- A line is never an operation that is not allowed.
        cases hphase : session.phase with
        | bulkLoad =>
            rw [hphase, Call.ofLine, Call.deed] at hverdict
            split at hverdict <;> cases hverdict
        | workload =>
            rw [hphase, Call.ofLine, Call.deed, Deed.ofLine] at hverdict
            split at hverdict
            · rw [← Except.error.inj hverdict]
              exact .malformedLine _ _
            · cases hverdict
      · exact .io context source

/-- Lines of an input fail for their own sake, or because the input or the output fails. -/
theorem ofRun_of_consumeAll {session : Session σ} (h : session.Roomy) (crew : Crew σ)
    {lines : List Text} {failure : Failure}
    (hfails : (session.consumeAll crew lines).1 = .error failure) : failure.OfRun := by
  induction lines generalizing session with
  | nil => cases hfails
  | cons line rest ih =>
      rw [consumeAll] at hfails
      rcases hline : session.consumeRaw crew line with ⟨first | _, next⟩
      · rw [hline] at hfails
        have hfirst : (session.consumeRaw crew line).1 = .error failure := by
          rw [hline]
          exact hfails
        exact ofRun_of_consumeRaw h crew hfirst
      · rw [hline] at hfails
        have hnext : next.Roomy := by
          have hroomy := h.perform crew (.ofLine line)
          rw [← consumeRaw_of_isUtf8 (consumeRaw_eq_ok hline).1, hline] at hroomy
          exact hroomy
        exact ih hnext hfails

/-- A run fails at a line, at the end of its input, or at its input or output. -/
theorem ofRun_of_run {session : Session σ} (h : session.Roomy) (crew : Crew σ) {input : Text}
    {failure : Failure} (hfails : (session.run crew input).result = .error failure) :
    failure.OfRun := by
  rw [run] at hfails
  rcases hlines : session.consumeAll crew input.lines with ⟨first | _, last⟩
  · rw [hlines] at hfails
    have hfirst : (session.consumeAll crew input.lines).1 = .error failure := by
      rw [hlines]
      exact congrArg Except.error (Except.error.inj hfails)
    exact ofRun_of_consumeAll h crew hfirst
  · rw [hlines] at hfails
    cases hphase : last.phase with
    | bulkLoad =>
        simp only [close, hphase, Except.error.injEq] at hfails
        rw [← hfails]
        exact .unexpectedEnd _
    | workload =>
        simp only [close, hphase] at hfails
        cases hfails

/-! ## Sessions -/

/-- Whether no job of the next flush can abort its thread. -/
structure Safe (session : Session σ) : Prop where
  batch : Batch.Safe session.index session.settings session.pending.toList
  children : ∀ path node, session.index.trie.root.Leads path node → node.fanout.HasSlots

/-- Whether the trie is held as it should be and the documents in the queue are UTF-8. -/
structure Intact (session : Session σ) : Prop where
  valid : session.index.Valid
  documents : ∀ query ∈ session.pending.toList, query.document.isUtf8 = true

theorem intact_start {settings : Settings} {pool : Pool σ} {sink : Sink} {session : Session σ}
    (hstart : Session.start settings pool sink = .ok session) : session.Intact := by
  rw [(start_eq_ok hstart).2]
  exact ⟨Index.valid_empty, by simp⟩

theorem Intact.safe {session : Session σ} (h : session.Intact) (hroomy : session.Roomy) :
    session.Safe :=
  ⟨Batch.safe_of_isUtf8 _ h.documents hroomy.fits,
    fun _ _ hleads => (Node.Valid.of_leads h.valid hleads).fanout.hasSlots⟩

/-- A call with a UTF-8 text puts a UTF-8 document into the queue, if any. -/
theorem Intact.perform {session : Session σ} (h : session.Intact) (hready : session.Ready)
    (crew : Crew σ) {call : Call} (hutf8 : ∀ text ∈ call.text?, text.isUtf8 = true) :
    (session.perform crew call).2.Intact := by
  rcases perform_keeps hready crew call with ⟨pool, sink, tally, timing, hafter, -⟩
  rw [hafter]
  refine ⟨valid_book h.valid _, fun query hquery => ?_⟩
  have hbooked : query ∈ (session.book (call.deed session.phase)).pending.toList := hquery
  rw [book_pending] at hbooked
  split at hbooked
  · cases hbooked
  · rcases List.mem_append.mp hbooked with hold | hnew
    · exact h.documents query hold
    · rw [Deed.queries, Deed.queries, List.append_nil, Option.mem_toList] at hnew
      exact Call.isUtf8_of_query? hutf8 hnew

/-- Whatever happens to a session with UTF-8 texts, it stays intact. -/
theorem Intact.meetAll {session : Session σ} (h : session.Intact) (hready : session.Ready)
    (crew : Crew σ) {events : List Event} (hutf8 : ∀ event ∈ events, event.IsUtf8) :
    (session.meetAll crew events).Intact := by
  induction events generalizing session with
  | nil => exact h
  | cons event rest ih =>
      refine ih ?_ (hready.meet crew event)
        fun later hlater => hutf8 later (List.mem_cons_of_mem event hlater)
      cases event with
      | limits room flushes => exact ⟨h.valid, h.documents⟩
      | call call =>
          exact h.perform hready crew (hutf8 (.call call) List.mem_cons_self call rfl)

/-- Whatever steps the threads take, a session with UTF-8 texts stays intact. -/
theorem Intact.meetAllIn {session now : Session (List (Desk Product))} (h : session.Intact)
    (hsettled : session.Settled) {events : List (Event × List Move)}
    (hutf8 : ∀ event ∈ events, event.1.IsUtf8)
    (hevents : session.meetAllIn events = some now) : now.Intact := by
  induction events generalizing session with
  | nil =>
      obtain rfl := Option.some.inj hevents
      exact h
  | cons event rest ih =>
      rw [Session.meetAllIn, List.foldlM_cons] at hevents
      rcases Option.bind_eq_some_iff.mp hevents with ⟨next, hnext, hrest⟩
      have hfirst : session.meetAllIn [event] = some next := by
        rw [Session.meetAllIn, List.foldlM_cons]
        exact Option.bind_eq_some_iff.mpr ⟨next, hnext, rfl⟩
      refine ih ?_ (hsettled.meetAllIn hfirst)
        (fun later hlater => hutf8 later (List.mem_cons_of_mem event hlater)) hrest
      rcases event with ⟨call | ⟨room, flushes⟩, moves⟩
      · rcases Option.map_eq_some_iff.mp hnext with ⟨⟨result, after⟩, hperform, rfl⟩
        have hcall := h.perform hsettled.roomy.toReady .absent
          (hutf8 (.call call, moves) List.mem_cons_self call rfl)
        rw [(performIn_eq_perform hsettled hperform .absent).2.1]
        exact ⟨hcall.valid, hcall.documents⟩
      · obtain rfl := Option.some.inj hnext
        exact ⟨h.valid, h.documents⟩

/-- The lines of an input that were taken are calls with UTF-8 texts, so they keep a session
intact. -/
theorem Intact.consumeAll {session after : Session σ} (h : session.Intact)
    (hready : session.Ready) (crew : Crew σ) {lines : List Text}
    (hlines : session.consumeAll crew lines = (.ok (), after)) : after.Intact := by
  have hutf8 : ∀ event ∈ (lines.map Call.ofLine).map Event.call, event.IsUtf8 := by
    intro event hevent
    rw [List.map_map] at hevent
    rcases List.mem_map.mp hevent with ⟨line, hline, rfl⟩
    rintro call ⟨⟩ text ⟨⟩
    rw [Text.isUtf8_trimLineEnd]
    exact isUtf8_of_consumeAll hlines line hline
  rw [← performAll_of_consumeAll hlines, ← meetAll_map_call]
  exact h.meetAll hready crew hutf8

/-- What a crew keeps true of its workers holds whatever happens to a session. -/
theorem workers_meetAll {crew : Crew σ} {holds : σ → Prop} {allowed : Nat → Prop}
    (hcrew : crew.Maintains holds allowed) {session : Session σ} (hready : session.Ready)
    (hpool : holds session.pool.workers) (events : List Event) :
    holds (session.meetAll crew events).pool.workers := by
  induction events generalizing session with
  | nil => exact hpool
  | cons event rest ih =>
      refine ih (hready.meet crew event) ?_
      cases event with
      | limits room flushes => exact hpool
      | call call => exact workers_perform hcrew hready hpool call

/-! ## Nothing is lost -/

/-- Whether no result is lost in what begins with a session: calls with UTF-8 texts, and runs. -/
structure LosesNothing (crew : Crew σ) (session : Session σ) : Prop where
  /-- No job of a later flush aborts its thread. -/
  safe : ∀ events : List Event, (∀ event ∈ events, event.IsUtf8) →
    (session.meetAll crew events).Safe
  /-- No later call fails because a thread was aborted or a result was lost. -/
  calls : ∀ (events : List Event) (call : Call) (failure : Failure),
    ((session.meetAll crew events).perform crew call).1 = .error failure →
      failure.isLoss = false
  /-- No job of a flush in a run aborts its thread, whatever the input is. -/
  lines : ∀ (input : Text) (front : List Text) (after : Session σ), front <+: input.lines →
    session.consumeAll crew front = (.ok (), after) → after.Safe
  /-- A run fails at a line, at the end of its input, or at its input or output. -/
  run : ∀ (input : Text) (failure : Failure),
    (session.run crew input).result = .error failure → failure.OfRun

theorem Intact.losesNothing {session : Session σ} (h : session.Intact) (hroomy : session.Roomy)
    (crew : Crew σ) : session.LosesNothing crew := by
  constructor
  · intro events hutf8
    exact (h.meetAll hroomy.toReady crew hutf8).safe (hroomy.meetAll crew events)
  · exact fun events call failure => isLoss_of_perform (hroomy.meetAll crew events) crew
  · intro input front after _ hlines
    have hafter := hroomy.performAll crew (front.map Call.ofLine)
    rw [performAll_of_consumeAll hlines] at hafter
    exact (h.consumeAll hroomy.toReady crew hlines).safe hafter
  · exact fun input failure => ofRun_of_run hroomy crew

/-- No job aborts its thread and no result is lost.  What stands behind the letter of a UTF-8
line can be sliced off, and so can all that is sliced while a batch of UTF-8 documents is
answered for whose fragments there is room, in whatever order the threads take their steps.  The
crew of a pool takes slots only that exist.  So if the settings ask for as many fragments as there
is room for, no call of a session with UTF-8 texts fails because of a job, whatever the crew is or
whatever steps the threads take, and a run fails at a line, at the end of its input, or at its
input or output. -/
theorem nothing_is_lost :
    (∀ (line text : Text) (command : Command), line.isUtf8 = true →
      Command.parse line = .ok command → command.text? = some text →
        line.CanSlice ⟨2, line.length⟩ ∧ text = line.slice 2 line.length) ∧
    (∀ (index : Index) (settings : Settings) (queries : List Query),
      (∀ query ∈ queries, query.document.isUtf8 = true) →
      (∀ query ∈ queries, query.fits settings = true) →
        Batch.Safe index settings queries) ∧
    (∀ size : Nat, Workers.crew.Maintains (Workers.InBounds size) fun slot => slot < size) ∧
    (∀ (settings : Settings) (schedule : Schedule) (pool : Pool Workers) (sink : Sink)
        (session : Session Workers), Pool.ofSize settings.poolSize schedule = .ok pool →
      Session.start settings pool sink = .ok session → ∀ events : List Event,
        (session.meetAll Workers.crew events).pool.workers.InBounds settings.poolSize) ∧
    (∀ {τ : Type} (crew : Crew τ) (settings : Settings) (workers : τ) (sink : Sink)
        (session : Session τ), Session.start settings (.start workers) sink = .ok session →
      Text.hasRoom settings.fragmentWorkers = true → session.LosesNothing crew) ∧
    ∀ (settings : Settings) (desks : List (Desk Product)) (sink : Sink)
        (session now : Session (List (Desk Product))) (events : List (Event × List Move)),
      Session.start settings (.start desks) sink = .ok session →
      Text.hasRoom settings.fragmentWorkers = true →
      (∀ desk ∈ desks, desk.queue = []) → (∀ event ∈ events, event.1.IsUtf8) →
      session.meetAllIn events = some now →
        now.Safe ∧ ∀ moves call failure after,
          now.performIn moves call = some (.error failure, after) →
            failure.isLoss = false := by
  refine ⟨?_, ?_, Workers.crew_maintains, ?_, ?_, ?_⟩
  · intro line text command hutf8 hparse htext
    rcases Command.canSlice_payload hutf8 hparse htext with ⟨hslice, hpayload, -⟩
    exact ⟨hslice, hpayload⟩
  · exact fun index settings queries => Batch.safe_of_isUtf8 index
  · intro settings schedule pool sink session hpool hstart events
    have hworkers : pool = .start (Workers.idle settings.poolSize schedule) := by
      rw [Pool.ofSize] at hpool
      split at hpool
      · cases hpool
      · exact (Except.ok.inj hpool).symm
    rw [hworkers] at hstart
    refine workers_meetAll (Workers.crew_maintains _) (ready_start hstart) ?_ events
    rw [(start_eq_ok hstart).2]
    exact Workers.inBounds_idle settings.poolSize schedule
  · exact fun crew settings workers sink session hstart hroom =>
      (intact_start hstart).losesNothing (roomy_start hstart hroom) crew
  · intro settings desks sink session now events hstart hroom hdesks hutf8 hevents
    have hsettled := settled_start hstart hroom hdesks
    have hnow := hsettled.meetAllIn hevents
    refine ⟨((intact_start hstart).meetAllIn hsettled hutf8 hevents).safe hnow.roomy, ?_⟩
    intro moves call failure after hperform
    have hresult := (performIn_eq_perform hnow hperform .absent).1
    exact isLoss_of_perform hnow.roomy .absent hresult.symm

/-- A document with characters of two bytes is cut into three fragments, and a member reaches from
the second one into the third one.  A run fails at a line that is no command, and the bulk load
cannot be ended twice. -/
theorem nothing_is_lost_two_bytes :
    let text := Text.ofString
    let line := text "Q é ö  ß b"
    let document := text "é ö  ß b"
    let settings : Settings := ⟨2, 2, 3, 1⟩
    let events := ["ö ß", "S", "A é", "Q é ö  ß b", "Q ß"].map fun line =>
      Event.call (.consumeLine (text line))
    let input := text "ö\nS\nQ ö\nZ\n"
    ∃ (pool : Pool Workers) (session : Session Workers)
        (opened now after : Session (List (Desk Product))) (failure late : Failure),
      Pool.ofSize 2 Workers.prompt = .ok pool ∧
        Session.start settings pool .unlimited = .ok session ∧
        Text.hasRoom settings.fragmentWorkers = true ∧
        (∀ event ∈ events, event.IsUtf8) ∧ line.CanSlice ⟨2, 13⟩ ∧
        Batch.Safe .empty settings [⟨document, 0⟩] ∧
        (session.meetAll Workers.crew events).Safe ∧
        (session.meetAll Workers.crew events).pool.workers.InBounds 2 ∧
        (session.meetAll Workers.crew events).pending.toList =
          [⟨document, 2⟩, ⟨text "ß", 3⟩] ∧
        Query.pieces settings ⟨document, 2⟩ = [⟨0, 5⟩, ⟨5, 9⟩, ⟨9, 11⟩] ∧
        ((session.meetAll Workers.crew events).perform Workers.crew .flush).2.sink.taken =
          text "R\né|ö  ß\n-1\n" ∧
        (session.run Workers.crew input).result = .error failure ∧ failure.OfRun ∧
        Session.start settings (.start [.idle, .idle]) .unlimited = .ok opened ∧
        opened.meetAllIn (events.map fun event => (event, [])) = some now ∧ now.Safe ∧
        now.performIn [] .openWorkload = some (.error late, after) ∧ late.isLoss = false := by
  intro text line document settings events input
  let pool : Pool Workers := .start (Workers.idle 2 Workers.prompt)
  let session : Session Workers :=
    ⟨settings, .empty, pool, .unlimited, #[], 0, 0, .bulkLoad, .zero, .new⟩
  let opened : Session (List (Desk Product)) :=
    ⟨settings, .empty, .start [.idle, .idle], .unlimited, #[], 0, 0, .bulkLoad, .zero, .new⟩
  have hpool : Pool.ofSize settings.poolSize Workers.prompt = .ok pool := rfl
  have hstart : Session.start settings pool .unlimited = .ok session := rfl
  have hopened : Session.start settings (.start [.idle, .idle]) .unlimited = .ok opened := rfl
  have hdesks : ∀ desk ∈ [Desk.idle, Desk.idle], desk.queue = ([] : List (Task Product)) := by
    simp [Desk.idle]
  have hutf8 : ∀ event ∈ events, event.IsUtf8 := by decide +kernel
  have hfails : (session.run Workers.crew input).result =
      .error (.error (.malformedLine 4 (LineFault.unknownCommand 'Z').reason)) := by
    decide +kernel
  have hnow : (opened.meetAllIn (events.map fun event => (event, []))).map (fun now =>
      (now.performIn [] .openWorkload).map (·.1)) =
        some (some (.error (misuse "finish_bulk_load called twice"))) := by
    decide +kernel
  rcases Option.map_eq_some_iff.mp hnow with ⟨now, hevents, hlast⟩
  rcases Option.map_eq_some_iff.mp hlast with ⟨⟨result, after⟩, hperform, hresult⟩
  obtain rfl : result = .error (misuse "finish_bulk_load called twice") := hresult
  obtain ⟨hlines, hbatches, -, hbounds, hsessions, hsteps⟩ := nothing_is_lost
  have hroom : Text.hasRoom settings.fragmentWorkers = true := by decide
  have hsession := hsessions Workers.crew settings _ _ session hstart hroom
  rcases hsteps settings _ _ opened now (events.map fun event => (event, [])) hopened hroom hdesks
    (by decide +kernel) hevents with ⟨hsafe, hcalls⟩
  exact ⟨pool, session, opened, now, after, _, _, hpool, hstart, hroom, hutf8,
    (hlines line document (.query document) (by decide +kernel) (by decide +kernel) rfl).1,
    hbatches .empty settings [⟨document, 0⟩] (by decide +kernel) (by decide +kernel),
    hsession.safe events hutf8,
    hbounds settings Workers.prompt pool .unlimited session hpool hstart events,
    by decide +kernel, by decide +kernel, by decide +kernel, hfails,
    hsession.run input _ hfails, hopened, hevents, hsafe, hperform,
    hcalls [] .openWorkload _ after hperform⟩

end Session

end PhraseLedger
