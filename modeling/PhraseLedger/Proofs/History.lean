import PhraseLedger.Dispatch.Workers
import PhraseLedger.Proofs.Effects
import Mathlib.Data.List.DropRight

/-!
# Sessions and their history

What a session counts and what it has in its queue can be read off the calls that were made,
whatever they were, however they ended and whatever the output did meanwhile.

Main definitions:

- Definition {lit}`Deed.queries`: the queries among deeds, with their operation indexes.
- Definition {lit}`Deed.sinceFlush`: those that came after the last flush.
- Definition {lit}`Session.meetAll`: a session after calls and changes of its output.
- Definition {lit}`Session.handedOver`: the queries that flushes were given.
- Definition {lit}`Session.Balances`: what the books of a session show.

Main results:

- Theorem {lit}`Session.Recounts.book`: a deed keeps a session in line with its history.
- Theorem {lit}`Session.Recounts.meetAll`: so does all that happens to it.
- Theorem {lit}`Session.handedOver_append_pending`: every query was given to one flush or is
  still in the queue.
- Theorem {lit}`Session.balances_of_start`: the books of a session balance.
-/

namespace PhraseLedger

namespace Deed

/-! ## Queries among deeds -/

/-- The operation index after a deed. -/
def opIndexAfter (opIndex : Nat) (deed : Deed) : Nat :=
  if deed.isCommand then opIndex + 1 else opIndex

/-- The query that a deed puts into the queue under an operation index, if it does. -/
def query? (opIndex : Nat) : Deed → Option Query
  | .command (.query document) => some ⟨document, opIndex⟩
  | _ => none

/-- The queries among deeds in front of which `opIndex` commands were given, each with the
number of commands up to its own. -/
def queries (opIndex : Nat) : List Deed → List Query
  | [] => []
  | deed :: rest =>
    (deed.query? (deed.opIndexAfter opIndex)).toList ++ queries (deed.opIndexAfter opIndex) rest

/-- The queries among deeds behind the last flush, each with the number of commands up to its
own. -/
def sinceFlush (deeds : List Deed) : List Query :=
  queries ((deeds.rdropWhile fun deed => !deed.isFlush).countP isCommand)
    (deeds.rtakeWhile fun deed => !deed.isFlush)

theorem opIndexAfter_add (opIndex : Nat) (deed : Deed) (rest : List Deed) :
    deed.opIndexAfter opIndex + rest.countP isCommand =
      opIndex + (deed :: rest).countP isCommand := by
  rw [List.countP_cons, opIndexAfter]
  split <;> omega

/-- The queries among more deeds are those among the first ones and those behind them. -/
theorem queries_append (opIndex : Nat) (front back : List Deed) :
    queries opIndex (front ++ back) =
      queries opIndex front ++ queries (opIndex + front.countP isCommand) back := by
  induction front generalizing opIndex with
  | nil => rfl
  | cons deed front ih =>
      rw [List.cons_append, queries, ih, queries, List.append_assoc, opIndexAfter_add]

/-- A flush empties the queue. -/
theorem sinceFlush_concat_flush (deeds : List Deed) {deed : Deed}
    (hflush : deed.isFlush = true) : sinceFlush (deeds ++ [deed]) = [] := by
  rw [sinceFlush, List.rtakeWhile_concat_neg _ _ _ (by simp [hflush])]
  rfl

/-- Any other deed leaves the queue as it is or puts a query behind it. -/
theorem sinceFlush_concat (deeds : List Deed) {deed : Deed} (hflush : deed.isFlush = false) :
    sinceFlush (deeds ++ [deed]) =
      sinceFlush deeds ++ queries (deeds.countP isCommand) [deed] := by
  have hkept : (!deed.isFlush) = true := by simp [hflush]
  have hcount : (deeds.rdropWhile fun deed => !deed.isFlush).countP isCommand +
      (deeds.rtakeWhile fun deed => !deed.isFlush).countP isCommand =
        deeds.countP isCommand := by
    rw [← List.countP_append, List.rdropWhile_append_rtakeWhile]
  rw [sinceFlush, List.rdropWhile_concat_pos (fun deed : Deed => !deed.isFlush) _ _ hkept,
    List.rtakeWhile_concat_pos (fun deed : Deed => !deed.isFlush) _ _ hkept, queries_append,
    hcount, sinceFlush]

/-- The query of a deed has the operation index of the deed, which is a command. -/
theorem query?_eq_some {opIndex : Nat} {deed : Deed} {query : Query}
    (hquery : deed.query? opIndex = some query) :
    deed.isCommand = true ∧ query.opIndex = opIndex := by
  cases deed with
  | command command =>
      cases command with
      | query document =>
          rw [← Option.some.inj hquery]
          exact ⟨rfl, rfl⟩
      | _ => cases hquery
  | _ => cases hquery

/-- Only commands and only those that ask for no flush put a query into the queue. -/
theorem queries_of_not_isCommand {opIndex : Nat} {deed : Deed}
    (hcommand : deed.isCommand = false) : queries opIndex [deed] = [] := by
  cases deed with
  | command command => cases hcommand
  | _ => rfl

theorem queries_of_isFlush {opIndex : Nat} {deed : Deed} (hflush : deed.isFlush = true) :
    queries opIndex [deed] = [] := by
  rcases isFlush_iff.mp hflush with rfl | rfl <;> rfl

/-- The operation index of a query lies above the number of commands in front of all deeds
and not above the number of all commands. -/
theorem bounds_of_mem_queries {opIndex : Nat} {deeds : List Deed} {query : Query}
    (hquery : query ∈ queries opIndex deeds) :
    opIndex < query.opIndex ∧ query.opIndex ≤ opIndex + deeds.countP isCommand := by
  induction deeds generalizing opIndex with
  | nil => simp [queries] at hquery
  | cons deed rest ih =>
      rw [← opIndexAfter_add]
      rw [queries, List.mem_append, Option.mem_toList] at hquery
      rcases hquery with hfirst | hlater
      · rcases query?_eq_some hfirst with ⟨hcommand, hindex⟩
        rw [hindex, opIndexAfter, if_pos hcommand]
        omega
      · have hbounds := ih hlater
        have hle : opIndex ≤ deed.opIndexAfter opIndex := by
          rw [opIndexAfter]
          split <;> omega
        omega

/-- The operation indexes of queries increase. -/
theorem pairwise_queries (opIndex : Nat) (deeds : List Deed) :
    (queries opIndex deeds).Pairwise fun first second => first.opIndex < second.opIndex := by
  induction deeds generalizing opIndex with
  | nil => exact List.Pairwise.nil
  | cons deed rest ih =>
      rw [queries, List.pairwise_append]
      refine ⟨?_, ih _, ?_⟩
      · cases deed.query? (deed.opIndexAfter opIndex) <;> simp
      · intro first hfirst second hsecond
        rw [(query?_eq_some (Option.mem_toList.mp hfirst)).2]
        exact (bounds_of_mem_queries hsecond).1

end Deed

/-- There are no commands in the bulk load. -/
theorem Call.isCommand_deed_bulkLoad (call : Call) : (call.deed .bulkLoad).isCommand = false := by
  cases call with
  | consumeLine line =>
      rw [deed]
      by_cases hmarker : line = Session.startMarker <;> simp [hmarker, Deed.isCommand]
  | _ => rfl

namespace Session

variable {σ : Type}

/-! ## Books and history -/

/-- Whether what a session counts and has in its queue is what its history tells. -/
structure Recounts (session : Session σ) (deeds : List Deed) : Prop where
  phase : session.phase = deeds.foldl Deed.phaseAfter .bulkLoad
  commands : session.opIndex = deeds.countP Deed.isCommand
  parts : session.opIndex = session.tally.adds + session.tally.removes +
    session.tally.queries + deeds.count (.command .flush)
  pending : session.pending.toList = Deed.sinceFlush deeds
  queries : session.tally.queries = (Deed.queries 0 deeds).length
  flushes : session.tally.flushes = deeds.count (.command .flush) + deeds.count .flush

theorem book_opIndex (session : Session σ) (deed : Deed) :
    (session.book deed).opIndex = deed.opIndexAfter session.opIndex := by
  cases deed with
  | command command => cases command <;> rfl
  | _ => rfl

/-- A deed puts its query behind the queue, and a flush empties the queue. -/
theorem book_pending (session : Session σ) (deed : Deed) :
    (session.book deed).pending.toList =
      if deed.isFlush then []
      else session.pending.toList ++ Deed.queries session.opIndex [deed] := by
  cases deed with
  | command command =>
      cases command <;>
        simp [book, nextLine, Deed.isFlush, Deed.queries, Deed.query?, Deed.opIndexAfter,
          Deed.isCommand]
  | _ => simp [book, nextLine, Deed.isFlush, Deed.queries, Deed.query?]

/-- A deed keeps a session in line with its history. -/
theorem Recounts.book {session : Session σ} {deeds : List Deed} (h : session.Recounts deeds)
    (deed : Deed) : (session.book deed).Recounts (deeds ++ [deed]) := by
  have hparts := h.parts
  have hflushes := h.flushes
  constructor
  · rw [book_phase, h.phase, List.foldl_append]
    rfl
  · rw [book_opIndex, h.commands, List.countP_append, Deed.opIndexAfter]
    cases hcommand : deed.isCommand <;> simp [hcommand]
  · cases deed with
    | command command =>
        cases command <;> simp [Session.book, List.count_append] <;> omega
    | _ => simp [Session.book, nextLine, List.count_append, hparts]
  · rw [book_pending, h.pending, h.commands]
    cases hflush : deed.isFlush with
    | true => simp [Deed.sinceFlush_concat_flush deeds hflush]
    | false => simp [Deed.sinceFlush_concat deeds hflush]
  · rw [Deed.queries_append, List.length_append, ← h.queries]
    cases deed with
    | command command => cases command <;> rfl
    | _ => rfl
  · cases deed with
    | command command =>
        cases command <;> simp [Session.book, nextLine, List.count_append, hflushes]
        omega
    | _ => simp [Session.book, nextLine, List.count_append, hflushes] <;> omega

/-- Neither the pool nor the sink matters for the books. -/
theorem Recounts.after {session : Session σ} {deeds : List Deed} (h : session.Recounts deeds)
    (crew : Crew σ) (deed : Deed) : (session.after crew deed).Recounts (deeds ++ [deed]) := by
  rcases h.book deed with ⟨hphase, hcommands, hparts, hpending, hqueries, hflushes⟩
  exact ⟨hphase, hcommands, hparts, hpending, hqueries, hflushes⟩

/-- A session at its beginning has no history. -/
theorem recounts_start {settings : Settings} {pool : Pool σ} {sink : Sink}
    {session : Session σ} (hstart : Session.start settings pool sink = .ok session) :
    session.Recounts [] := by
  rw [(start_eq_ok hstart).2]
  exact ⟨rfl, rfl, rfl, rfl, rfl, rfl⟩

end Session

/-! ## What happens to a session -/

/-- Something that happens to a session.  An output that fails now and works later is one
that changes its limits between two calls. -/
inductive Event where
  /-- A call is made. -/
  | call (call : Call)
  /-- The output has these limits from now on. -/
  | limits (room flushes : Option Nat)
deriving DecidableEq, Repr

namespace Event

/-- The call that is made, if any. -/
def call? : Event → Option Call
  | .call made => some made
  | .limits _ _ => none

/-- What the calls among the events come to in a new session. -/
def deeds (events : List Event) : List Deed :=
  Call.deeds .bulkLoad (events.filterMap call?)

theorem deeds_concat_limits (events : List Event) (room flushes : Option Nat) :
    deeds (events ++ [.limits room flushes]) = deeds events := by
  rw [deeds, List.filterMap_append]
  exact congrArg (Call.deeds .bulkLoad) (List.append_nil _)

theorem deeds_concat_call (events : List Event) (made : Call) :
    deeds (events ++ [.call made]) =
      deeds events ++ [made.deed ((deeds events).foldl Deed.phaseAfter .bulkLoad)] := by
  rw [deeds, List.filterMap_append]
  exact Call.deeds_concat .bulkLoad (events.filterMap call?) made

end Event

namespace Session

variable {σ : Type}

/-- The session after an event. -/
def meet (crew : Crew σ) (session : Session σ) : Event → Session σ
  | .call call => (session.perform crew call).2
  | .limits room flushes =>
    { session with sink := { session.sink with room := room, flushesLeft := flushes } }

/-- The session after events. -/
def meetAll (crew : Crew σ) (session : Session σ) (events : List Event) : Session σ :=
  events.foldl (meet crew) session

/-- The queries that an event gives to a flush. -/
def handsOver (session : Session σ) : Event → List Query
  | .call call =>
    if (call.deed session.phase).isFlush then session.pending.toList else []
  | .limits _ _ => []

/-- The queries that events give to flushes. -/
def handedOver (crew : Crew σ) : Session σ → List Event → List Query
  | _, [] => []
  | session, event :: rest =>
    session.handsOver event ++ handedOver crew (session.meet crew event) rest

theorem meetAll_append (crew : Crew σ) (session : Session σ) (front back : List Event) :
    session.meetAll crew (front ++ back) = (session.meetAll crew front).meetAll crew back :=
  List.foldl_append

theorem meetAll_concat (crew : Crew σ) (session : Session σ) (events : List Event)
    (event : Event) :
    session.meetAll crew (events ++ [event]) = (session.meetAll crew events).meet crew event :=
  meetAll_append crew session events [event]

/-- Calls alone are events under which the output never changes its mind. -/
theorem meetAll_map_call (crew : Crew σ) (session : Session σ) (calls : List Call) :
    session.meetAll crew (calls.map .call) = (session.performAll crew calls).2 := by
  induction calls generalizing session with
  | nil => rfl
  | cons call rest ih => exact ih (session.perform crew call).2

theorem handedOver_concat (crew : Crew σ) (session : Session σ) (events : List Event)
    (event : Event) :
    session.handedOver crew (events ++ [event]) =
      session.handedOver crew events ++ (session.meetAll crew events).handsOver event := by
  induction events generalizing session with
  | nil => simp [handedOver, meetAll]
  | cons first rest ih =>
      rw [List.cons_append, handedOver, ih, handedOver, List.append_assoc]
      rfl

/-- No event leaves a job behind that borrows the index. -/
theorem Ready.meet {session : Session σ} (h : session.Ready) (crew : Crew σ) (event : Event) :
    (session.meet crew event).Ready := by
  cases event with
  | call call => exact h.perform crew call
  | limits room flushes => exact h.congr rfl rfl

theorem Ready.meetAll {session : Session σ} (h : session.Ready) (crew : Crew σ)
    (events : List Event) : (session.meetAll crew events).Ready := by
  induction events generalizing session with
  | nil => exact h
  | cons event rest ih => exact ih (h.meet crew event)

/-- No event uses up the room. -/
theorem Roomy.meet {session : Session σ} (h : session.Roomy) (crew : Crew σ) (event : Event) :
    (session.meet crew event).Roomy := by
  cases event with
  | call call => exact h.perform crew call
  | limits room flushes => exact h.congr rfl rfl

theorem Roomy.meetAll {session : Session σ} (h : session.Roomy) (crew : Crew σ)
    (events : List Event) : (session.meetAll crew events).Roomy := by
  induction events generalizing session with
  | nil => exact h
  | cons event rest ih => exact ih (h.meet crew event)

/-! ### Phases -/

/-- The workload does not end. -/
theorem phase_meetAll {session : Session σ} (h : session.Ready)
    (hphase : session.phase = .workload) (crew : Crew σ) (events : List Event) :
    (session.meetAll crew events).phase = .workload := by
  induction events generalizing session with
  | nil => exact hphase
  | cons event rest ih =>
      refine ih (h.meet crew event) ?_
      cases event with
      | call call =>
          rcases perform_keeps h crew call with ⟨pool, sink, tally, timing, hafter, -⟩
          rw [meet, hafter]
          simp only [book_phase, hphase]
          cases call.deed .workload <;> rfl
      | limits room flushes => exact hphase

/-- Whether a session, if it is in the bulk load, has neither counted a command nor queued a
query nor written anything behind `taken`. -/
def Unopened (taken : Text) (session : Session σ) : Prop :=
  session.phase = .bulkLoad →
    session.opIndex = 0 ∧ session.pending.toList = [] ∧ session.sink.taken = taken

/-- A call that does not end the bulk load writes nothing and leaves the queue empty. -/
theorem Unopened.meet {session : Session σ} {taken : Text} (hunopened : session.Unopened taken)
    (h : session.Ready) (crew : Crew σ) (event : Event) :
    (session.meet crew event).Unopened taken := by
  cases event with
  | limits room flushes => exact hunopened
  | call call =>
      intro hphase
      have hlater : (call.deed session.phase).phaseAfter session.phase = .bulkLoad := by
        rcases perform_keeps h crew call with ⟨pool, sink, tally, timing, hafter, -⟩
        rw [Session.meet, hafter] at hphase
        simpa using hphase
      have hopen : call.deed session.phase ≠ .openWorkload := by
        intro hdeed
        rw [hdeed] at hlater
        cases hlater
      have hbefore : session.phase = .bulkLoad := by
        rw [Deed.phaseAfter_of_ne hopen] at hlater
        exact hlater
      have hcommand : (call.deed session.phase).isCommand = false := by
        rw [hbefore]
        exact call.isCommand_deed_bulkLoad
      rcases hunopened hbefore with ⟨hindex, hpending, htaken⟩
      have hfits : ∀ query ∈ session.pending.toList, query.fits session.settings = true := by
        simp [hpending]
      rw [Session.meet, (perform_does_of_fits h crew call fun _ => hfits).snd, after]
      refine ⟨?_, ?_, ?_⟩
      · simp [book_opIndex, Deed.opIndexAfter, hcommand, hindex]
      · simp only [book_pending, hpending, Deed.queries_of_not_isCommand hcommand]
        split <;> rfl
      · simp [sinkAfter, sends, hopen, hpending, htaken]

theorem Unopened.meetAll {session : Session σ} {taken : Text}
    (hunopened : session.Unopened taken) (h : session.Ready) (crew : Crew σ)
    (events : List Event) : (session.meetAll crew events).Unopened taken := by
  induction events generalizing session with
  | nil => exact hunopened
  | cons event rest ih => exact ih (hunopened.meet h crew event) (h.meet crew event)

/-! ### Books -/

/-- Whatever happens to a session, its books are in line with its history. -/
theorem Recounts.meetAll {session : Session σ} (hrecounts : session.Recounts [])
    (h : session.Roomy) (crew : Crew σ) (events : List Event) :
    (session.meetAll crew events).Recounts (Event.deeds events) := by
  induction events using List.reverseRecOn with
  | nil => exact hrecounts
  | append_singleton events event ih =>
      rw [meetAll_concat]
      cases event with
      | limits room flushes =>
          rw [Event.deeds_concat_limits]
          rcases ih with ⟨hphase, hcommands, hparts, hpending, hqueries, hflushes⟩
          exact ⟨hphase, hcommands, hparts, hpending, hqueries, hflushes⟩
      | call call =>
          rw [Event.deeds_concat_call, ← ih.phase, meet, perform_snd (h.meetAll crew events)]
          exact ih.after crew _

/-- Every query was given to one flush or is still in the queue. -/
theorem handedOver_append_pending {session : Session σ} (hrecounts : session.Recounts [])
    (h : session.Roomy) (crew : Crew σ) (events : List Event) :
    session.handedOver crew events ++ (session.meetAll crew events).pending.toList =
      Deed.queries 0 (Event.deeds events) := by
  induction events using List.reverseRecOn with
  | nil => exact hrecounts.pending
  | append_singleton events event ih =>
      rw [handedOver_concat, meetAll_concat]
      cases event with
      | limits room flushes =>
          rw [Event.deeds_concat_limits, ← ih]
          simp [handsOver, meet]
      | call call =>
          have hbefore := hrecounts.meetAll h crew events
          rw [Event.deeds_concat_call, ← hbefore.phase, Deed.queries_append, ← ih, Nat.zero_add,
            ← hbefore.commands, meet, perform_snd (h.meetAll crew events), after, handsOver]
          simp only [book_pending]
          cases hflush : (call.deed (session.meetAll crew events).phase).isFlush with
          | true => simp [Deed.queries_of_isFlush hflush]
          | false => simp

/-! ## Balance -/

/-- What the books of a session show after events, `first` being the session in front of
them. -/
structure Balances (crew : Crew σ) (first : Session σ) (events : List Event)
    (after : Session σ) : Prop where
  /-- The bulk load counts no commands, queues no queries and writes nothing. -/
  bulkLoad : after.phase = .bulkLoad →
    after.opIndex = 0 ∧ after.pending = #[] ∧ after.sink.taken = first.sink.taken
  /-- The workload does not end. -/
  workload : after.phase = .workload → ∀ more, (after.meetAll crew more).phase = .workload
  /-- The operation index counts the commands. -/
  opIndex : after.opIndex = after.tally.adds + after.tally.removes + after.tally.queries +
    (Event.deeds events).count (.command .flush)
  /-- The queue holds the queries behind the last flush. -/
  pending : after.pending.toList = Deed.sinceFlush (Event.deeds events)
  /-- The operation indexes in the queue increase. -/
  increasing : after.pending.toList.Pairwise fun first second => first.opIndex < second.opIndex
  /-- No operation index in the queue lies above that of the session. -/
  captured : ∀ query ∈ after.pending.toList, query.opIndex ≤ after.opIndex
  /-- Flushes are counted, whether a line asked for them or not. -/
  flushes : after.tally.flushes =
    (Event.deeds events).count (.command .flush) + (Event.deeds events).count .flush
  /-- In the end a query was given to a flush or is dropped. -/
  queries : after.finish.1.tally.queries =
    (first.handedOver crew events).length + after.finish.1.dropped
  /-- What is in the queue in the end is dropped. -/
  dropped : after.finish.1.dropped = after.pending.size

/-- Whatever happens to a session from its beginning on, its books balance, if its settings ask
for as many fragments of a document as there is room for. -/
theorem balances_of_start {settings : Settings} {workers : σ} {sink : Sink}
    {session : Session σ}
    (hstart : Session.start settings (.start workers) sink = .ok session)
    (hroom : Text.hasRoom settings.fragmentWorkers = true) (crew : Crew σ)
    (events : List Event) : session.Balances crew events (session.meetAll crew events) := by
  have hready := ready_start hstart
  have hroomy := roomy_start hstart hroom
  have hrecounts := recounts_start hstart
  have hbooks := hrecounts.meetAll hroomy crew events
  have hsplit := handedOver_append_pending hrecounts hroomy crew events
  have hqueue : ∀ query ∈ (session.meetAll crew events).pending.toList,
      query ∈ Deed.queries 0 (Event.deeds events) := by
    intro query hquery
    rw [← hsplit]
    exact List.mem_append_right _ hquery
  constructor
  · intro hphase
    have hunopened : session.Unopened session.sink.taken :=
      fun _ => ⟨hrecounts.commands, hrecounts.pending, rfl⟩
    rcases hunopened.meetAll hready crew events hphase with ⟨hindex, hpending, htaken⟩
    exact ⟨hindex, Array.toList_eq_nil_iff.mp hpending, htaken⟩
  · exact fun hphase more => phase_meetAll (hready.meetAll crew events) hphase crew more
  · exact hbooks.parts
  · exact hbooks.pending
  · have hincreasing := Deed.pairwise_queries 0 (Event.deeds events)
    rw [← hsplit] at hincreasing
    exact hincreasing.sublist (List.sublist_append_right _ _)
  · intro query hquery
    have hbounds := Deed.bounds_of_mem_queries (hqueue query hquery)
    rw [hbooks.commands]
    omega
  · exact hbooks.flushes
  · have hcount := congrArg List.length hsplit
    rw [List.length_append, Array.length_toList, ← hbooks.queries] at hcount
    exact hcount.symm
  · rfl

/-- The output has room for the ready line only, so the first flush fails after its query was
taken out of the queue.  Then the output works again, and its flushes fail at last.  Between
these calls are some that are not allowed and a line that is no command. -/
theorem balances_of_start_failing_output :
    let text := Text.ofString
    let events : List Event :=
      [.call (.applyLine (text "F")), .call (.consumeLine (text "a b")), .call .flush,
        .call (.consumeLine (text "S")), .call (.loadPhrase (text "a")),
        .call (.consumeLine (text "Q a b")), .call (.consumeLine (text "F")),
        .limits none none, .call (.applyLine (text "Z a")), .call (.applyLine (text "Q b")),
        .call (.consumeLine (text "D a b")), .call .flush, .call .openWorkload,
        .limits none (some 0), .call (.applyLine (text "Q a")), .call .flush,
        .call (.consumeLine (text "Q a b")), .call (.consumeLine (text "A b")),
        .call (.consumeLine (text "Q b"))]
    ∃ session,
      Session.start ⟨2, 2, 2, 1⟩ (.start (Workers.idle 2 Workers.prompt))
          (Sink.limited (some 2) none) = .ok session ∧
        Text.hasRoom 2 = true ∧
        session.Balances Workers.crew events (session.meetAll Workers.crew events) ∧
        (session.meetAll Workers.crew events).tally = ⟨1, 1, 1, 5, 4⟩ ∧
        (session.meetAll Workers.crew events).opIndex = 8 ∧
        (session.meetAll Workers.crew events).pending.toList =
          [⟨text "a b", 6⟩, ⟨text "b", 8⟩] ∧
        session.handedOver Workers.crew events =
          [⟨text "a b", 1⟩, ⟨text "b", 3⟩, ⟨text "a", 5⟩] ∧
        (session.meetAll Workers.crew events).sink.taken = text "R\n-1\n-1\n" := by
  intro text events
  let session : Session Workers :=
    ⟨⟨2, 2, 2, 1⟩, .empty, .start (Workers.idle 2 Workers.prompt),
      Sink.limited (some 2) none, #[], 0, 0, .bulkLoad, .zero, .new⟩
  have hstart : Session.start ⟨2, 2, 2, 1⟩ (.start (Workers.idle 2 Workers.prompt))
      (Sink.limited (some 2) none) = .ok session := rfl
  have hroom : Text.hasRoom 2 = true := by decide
  refine ⟨session, hstart, hroom, balances_of_start hstart hroom Workers.crew events, ?_⟩
  decide +kernel

end Session

end PhraseLedger
