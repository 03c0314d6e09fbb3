import PhraseLedger.Dispatch.Closing
import Mathlib.Data.List.Perm.Basic

/-!
# Workers that are told to stop

A worker takes what was sent to it before it was told to stop, and nothing after that.  Its slot
is claimed for each job that is sent to it, so there is one job at most that it has not taken or
has not completed.  Hence a worker that a job aborts has no other job in its inbox.

Main definitions:

- Definition {lit}`Post.waiting`: the jobs that a worker has not taken but will take.
- Definition {lit}`Post.placed`: all the jobs that were sent to a worker.
- Definition {lit}`Post.Orderly`: the invariant of a worker.

Main results:

- Theorems {lit}`Post.Turns.placed`, {lit}`Post.Turns.mem_late`: a worker loses no job but those
  that came late.
- Theorem {lit}`Post.Orderly.abort`: a worker that is aborted has lost no other job.
-/

namespace PhraseLedger

variable {α : Type}

/-! ## Messages -/

namespace Message

/-- Whether there is a message to stop. -/
def hasStop : List (Message α) → Bool
  | [] => false
  | .run _ :: rest => hasStop rest
  | .stop :: _ => true

/-- The cells of the jobs in front of the first message to stop. -/
def front : List (Message α) → List Nat
  | .run task :: rest => task.cell :: front rest
  | _ => []

/-- The cells of the jobs behind the first message to stop. -/
def behind : List (Message α) → List Nat
  | [] => []
  | .run _ :: rest => behind rest
  | .stop :: rest => jobs rest

section

variable (inbox : List (Message α)) (task : Task α)

theorem jobs_append_run : jobs (inbox ++ [.run task]) = jobs inbox ++ [task.cell] := by
  induction inbox with
  | nil => rfl
  | cons message rest ih => cases message <;> simp [jobs, ih]

theorem jobs_append_stop : jobs (inbox ++ [.stop]) = jobs inbox := by
  induction inbox with
  | nil => rfl
  | cons message rest ih => cases message <;> simp [jobs, ih]

theorem hasStop_append_run : hasStop (inbox ++ [.run task]) = hasStop inbox := by
  induction inbox with
  | nil => rfl
  | cons message rest ih => cases message <;> simp [hasStop, ih]

theorem hasStop_append_stop : hasStop (inbox ++ [.stop]) = true := by
  induction inbox with
  | nil => rfl
  | cons message rest ih => cases message <;> simp [hasStop, ih]

theorem front_eq_nil_of_jobs_eq_nil {inbox : List (Message α)} (h : jobs inbox = []) :
    front inbox = [] := by
  cases inbox with
  | nil => rfl
  | cons message rest =>
      cases message with
      | run task => cases h
      | stop => rfl

end

section

variable {inbox : List (Message α)}

/-- Without a message to stop a job is put behind those in front. -/
theorem front_append_run_of_not_hasStop (h : hasStop inbox = false) (task : Task α) :
    front (inbox ++ [.run task]) = front inbox ++ [task.cell] := by
  induction inbox with
  | nil => rfl
  | cons message rest ih =>
      cases message with
      | run first => simp [front, ih h]
      | stop => cases h

/-- What is sent after a message to stop is not in front of it. -/
theorem front_append_of_hasStop (h : hasStop inbox = true) (more : List (Message α)) :
    front (inbox ++ more) = front inbox := by
  induction inbox with
  | nil => cases h
  | cons message rest ih =>
      cases message with
      | run first => simp [front, ih h]
      | stop => rfl

/-- A job that is sent after a message to stop is behind it. -/
theorem behind_append_run_of_hasStop (h : hasStop inbox = true) (task : Task α) :
    behind (inbox ++ [.run task]) = behind inbox ++ [task.cell] := by
  induction inbox with
  | nil => cases h
  | cons message rest ih =>
      cases message with
      | run first => exact ih h
      | stop => exact jobs_append_run rest task

/-- A first message to stop is behind all jobs. -/
theorem front_append_stop_of_not_hasStop (h : hasStop inbox = false) :
    front (inbox ++ [.stop]) = front inbox ∧ behind (inbox ++ [.stop]) = [] := by
  induction inbox with
  | nil => exact ⟨rfl, rfl⟩
  | cons message rest ih =>
      cases message with
      | run first => exact ⟨congrArg (first.cell :: ·) (ih h).1, (ih h).2⟩
      | stop => cases h

end

end Message

/-! ## Workers -/

namespace Post

/-- The cells of the jobs that a worker is going to take. -/
def waiting (post : Post α) : List Nat :=
  match post.stance with
  | .serving => Message.front post.inbox
  | _ => []

/-- The cells of the jobs that were sent to a worker. -/
def placed (post : Post α) : List Nat :=
  post.taken ++ post.waiting ++ post.late

/-- Whether the inbox of a worker goes with what the worker was told and what came late. -/
def InOrder (post : Post α) : Prop :=
  match post.stance, post.told with
  | .serving, false => Message.hasStop post.inbox = false ∧ post.late = []
  | .serving, true => Message.hasStop post.inbox = true ∧ Message.behind post.inbox = post.late
  | .leaving, false => False
  | .leaving, true => post.engaged = false ∧ Message.jobs post.inbox = post.late
  | .gone, _ => post.inbox = [] ∧ post.engaged = false
  | .lost, _ => post.inbox = [] ∧ post.engaged = true

/-- What holds of a worker whose slot `posting` threads have claimed without having sent their
job. -/
structure Orderly (posting : Nat) (post : Post α) : Prop where
  /-- One job at most has claimed the slot. -/
  load : posting + (Message.jobs post.inbox).length + post.engaged.toNat ≤ post.claimed.toNat
  /-- The worker has completed all the jobs that it took but the one that it is at. -/
  done : post.taken.length = post.completed + post.engaged.toNat
  inOrder : post.InOrder

theorem orderly_idle : (idle : Post α).Orderly 0 :=
  ⟨Nat.le_refl 0, rfl, rfl, rfl⟩

variable {post next : Post α} {posting : Nat}

theorem isOver_iff : post.isOver = true ↔ post.stance = .gone ∨ post.stance = .lost := by
  simp [isOver]

/-- A worker that is gone has completed all the jobs that it took. -/
theorem Orderly.completed_of_gone (h : post.Orderly posting) (hgone : post.stance = .gone) :
    post.completed = post.taken.length := by
  rcases post with ⟨claimed, engaged, stance, inbox, completed, told, taken, late⟩
  obtain rfl : stance = .gone := hgone
  obtain rfl : engaged = false := h.inOrder.2
  exact h.done.symm

/-- A claim can be given up without the slot becoming free. -/
theorem Orderly.mono (h : post.Orderly posting) {fewer : Nat} (hle : fewer ≤ posting) :
    post.Orderly fewer :=
  ⟨by have hload := h.load; omega, h.done, h.inOrder⟩

/-- A free slot can be claimed for a job. -/
theorem Orderly.claim (h : post.Orderly posting) (hfree : post.claimed = false) :
    ({ post with claimed := true } : Post α).Orderly (posting + 1) := by
  have hload := h.load
  rw [hfree] at hload
  refine ⟨?_, h.done, h.inOrder⟩
  simp only [Bool.toNat_true, Bool.toNat_false] at hload ⊢
  omega

/-- A job that claimed a slot can be sent, unless the worker is gone. -/
theorem Orderly.send (h : post.Orderly (posting + 1)) (hover : post.isOver = false)
    (task : Task α) : (post.send task).Orderly posting := by
  rcases h with ⟨hload, hdone, hin⟩
  refine ⟨?_, hdone, ?_⟩
  · simp only [Post.send, Message.jobs_append_run, List.length_append, List.length_singleton]
    omega
  · rcases post with ⟨claimed, engaged, _ | _ | _ | _, inbox, completed, _ | _, taken, late⟩
    case serving.false => exact ⟨(Message.hasStop_append_run inbox task).trans hin.1, hin.2⟩
    case serving.true =>
      refine ⟨(Message.hasStop_append_run inbox task).trans hin.1, ?_⟩
      exact (Message.behind_append_run_of_hasStop hin.1 task).trans (congrArg (· ++ _) hin.2)
    case leaving.false => cases hin
    case leaving.true =>
      exact ⟨hin.1, (Message.jobs_append_run inbox task).trans (congrArg (· ++ _) hin.2)⟩
    all_goals cases hover

/-- A job that is sent is placed. -/
theorem placed_send (h : post.InOrder) (hover : post.isOver = false) (task : Task α) :
    (post.send task).placed.Perm (task.cell :: post.placed) := by
  rcases post with ⟨claimed, engaged, _ | _ | _ | _, inbox, completed, _ | _, taken, late⟩
  case serving.false =>
    obtain rfl : late = [] := h.2
    have hfront := Message.front_append_run_of_not_hasStop h.1 task
    simp only [placed, waiting, Post.send, hfront, List.append_nil, Bool.false_eq_true, if_false,
      ← List.append_assoc]
    exact List.perm_append_singleton _ _
  case serving.true =>
    have hfront := Message.front_append_of_hasStop h.1 [.run task]
    simp only [placed, waiting, Post.send, hfront, if_true, ← List.append_assoc]
    exact List.perm_append_singleton _ _
  case leaving.false => cases h
  case leaving.true =>
    simp only [placed, waiting, Post.send, if_true, ← List.append_assoc]
    exact List.perm_append_singleton _ _
  all_goals cases hover

/-- A worker can be told to stop. -/
theorem Orderly.tell (h : post.Orderly posting) (htold : post.told = false) :
    post.tell.Orderly posting := by
  rcases h with ⟨hload, hdone, hin⟩
  refine ⟨?_, hdone, ?_⟩
  · simp only [Post.tell]
    split
    · exact hload
    · rwa [Message.jobs_append_stop]
  · rcases post with ⟨claimed, engaged, _ | _ | _ | _, inbox, completed, told, taken, late⟩ <;>
      obtain rfl : told = false := htold
    case serving =>
      exact ⟨Message.hasStop_append_stop inbox,
        (Message.front_append_stop_of_not_hasStop hin.1).2.trans hin.2.symm⟩
    case leaving => cases hin
    case gone => exact hin
    case lost => exact hin

/-- Telling a worker to stop changes nothing of the jobs that were sent to it. -/
theorem placed_tell (h : post.InOrder) (htold : post.told = false) :
    post.tell.placed = post.placed := by
  rcases post with ⟨claimed, engaged, _ | _ | _ | _, inbox, completed, told, taken, late⟩ <;>
    obtain rfl : told = false := htold
  case serving =>
    have hfront := (Message.front_append_stop_of_not_hasStop h.1).1
    exact congrArg (taken ++ · ++ late) hfront
  all_goals rfl

/-- What a worker with nothing in hand can do. -/
inductive Turns : Post α → Strand α → Post α → List Nat → Prop
  /-- It frees its slot. -/
  | free (claimed : Bool) (inbox : List (Message α)) (completed : Nat) (told : Bool)
      (taken late : List Nat) :
      Turns ⟨claimed, true, .serving, inbox, completed, told, taken, late⟩ .idle
        ⟨false, false, .serving, inbox, completed + 1, told, taken, late⟩ []
  /-- It takes a job. -/
  | take (claimed : Bool) (task : Task α) (inbox : List (Message α)) (completed : Nat)
      (told : Bool) (taken late : List Nat) :
      Turns ⟨claimed, false, .serving, .run task :: inbox, completed, told, taken, late⟩
        ⟨some (.running task), []⟩
        ⟨claimed, true, .serving, inbox, completed, told, taken ++ [task.cell], late⟩ []
  /-- It learns that it is to stop. -/
  | hear (claimed : Bool) (inbox : List (Message α)) (completed : Nat) (told : Bool)
      (taken late : List Nat) :
      Turns ⟨claimed, false, .serving, .stop :: inbox, completed, told, taken, late⟩ .idle
        ⟨claimed, false, .leaving, inbox, completed, told, taken, late⟩ []
  /-- It goes, and its inbox with it. -/
  | leave (claimed engaged : Bool) (inbox : List (Message α)) (completed : Nat) (told : Bool)
      (taken late : List Nat) :
      Turns ⟨claimed, engaged, .leaving, inbox, completed, told, taken, late⟩ .idle
        ⟨claimed, engaged, .gone, [], completed, told, taken, late⟩ (Message.jobs inbox)

variable {strand : Strand α} {dropped : List Nat}

/-- A worker that takes a step does what it can do. -/
theorem turns_of_turn (hturn : post.turn = some (strand, next, dropped)) :
    Turns post strand next dropped := by
  rcases post with ⟨claimed, engaged, _ | _ | _ | _, inbox, completed, told, taken, late⟩
  case serving =>
    cases engaged with
    | true =>
        obtain ⟨rfl, rfl, rfl⟩ := hturn
        exact .free claimed inbox completed told taken late
    | false =>
        rcases inbox with _ | ⟨task | _, inbox⟩
        · cases hturn
        · obtain ⟨rfl, rfl, rfl⟩ := hturn
          exact .take claimed task inbox completed told taken late
        · obtain ⟨rfl, rfl, rfl⟩ := hturn
          exact .hear claimed inbox completed told taken late
  case leaving =>
    obtain ⟨rfl, rfl, rfl⟩ := hturn
    exact .leave claimed engaged inbox completed told taken late
  all_goals cases hturn

/-- A worker is at nothing then, or at the job that it has taken. -/
theorem Turns.busy (hturns : Turns post strand next dropped) :
    strand = .idle ∨ next.engaged = true ∧ next.stance = .serving ∧
      ∃ task, strand = ⟨some (.running task), []⟩ := by
  cases hturns with
  | take claimed task inbox completed told taken late => exact .inr ⟨rfl, rfl, task, rfl⟩
  | _ => exact .inl rfl

/-- What came late stays so, and no worker is aborted by what it does with nothing in hand. -/
theorem Turns.late_eq (hturns : Turns post strand next dropped) :
    next.late = post.late ∧ next.stance ≠ .lost ∧ post.isOver = false := by
  cases hturns <;> exact ⟨rfl, nofun, rfl⟩

/-- A worker leaves its inbox in order. -/
theorem Turns.orderly (hturns : Turns post strand next dropped) (h : post.Orderly posting) :
    next.Orderly posting := by
  rcases h with ⟨hload, hdone, hin⟩
  cases hturns with
  | free claimed inbox completed told taken late =>
      have hclaimed := claimed.toNat_le
      simp only [Bool.toNat_true] at hload hdone
      refine ⟨?_, hdone, ?_⟩
      · simp only [Bool.toNat_false]
        omega
      · cases told <;> exact hin
  | take claimed task inbox completed told taken late =>
      simp only [Message.jobs, List.length_cons, Bool.toNat_false] at hload hdone
      refine ⟨?_, ?_, ?_⟩
      · simp only [Bool.toNat_true]
        omega
      · simp only [List.length_append, List.length_singleton, Bool.toNat_true]
        omega
      · cases told <;> exact hin
  | hear claimed inbox completed told taken late =>
      refine ⟨hload, hdone, ?_⟩
      cases told with
      | false => cases hin.1
      | true => exact ⟨rfl, hin.2⟩
  | leave claimed engaged inbox completed told taken late =>
      cases told with
      | false => cases hin
      | true =>
          obtain rfl : engaged = false := hin.1
          refine ⟨?_, hdone, rfl, rfl⟩
          simp only [Message.jobs, List.length_nil, Bool.toNat_false] at hload ⊢
          omega

/-- A worker keeps the jobs that were sent to it, waiting or taken. -/
theorem Turns.placed (hturns : Turns post strand next dropped) (h : post.InOrder) :
    next.placed.Perm post.placed := by
  cases hturns with
  | free claimed inbox completed told taken late => exact List.Perm.refl _
  | take claimed task inbox completed told taken late =>
      refine List.Perm.of_eq (congrArg (· ++ late) ?_)
      exact List.append_assoc taken [task.cell] (Message.front inbox)
  | hear claimed inbox completed told taken late => exact List.Perm.refl _
  | leave claimed engaged inbox completed told taken late => exact List.Perm.refl _

/-- A worker that goes drops only jobs that came late. -/
theorem Turns.mem_late (hturns : Turns post strand next dropped) (h : post.InOrder) :
    ∀ cell ∈ dropped, cell ∈ post.late := by
  cases hturns with
  | leave claimed engaged inbox completed told taken late =>
      cases told with
      | false => cases h
      | true =>
          intro cell hcell
          exact h.2 ▸ hcell
  | _ =>
      intro cell hcell
      cases hcell

/-- A worker that a job aborts has no other job in its inbox. -/
theorem Orderly.abort (h : post.Orderly posting) (hengaged : post.engaged = true)
    (hserving : post.stance = .serving) :
    (post.quit .lost).Orderly posting ∧ (post.quit .lost).placed = post.placed ∧
      Message.jobs post.inbox = [] := by
  rcases h with ⟨hload, hdone, hin⟩
  have hclaimed := post.claimed.toNat_le
  rw [hengaged, Bool.toNat_true] at hload
  have hjobs : Message.jobs post.inbox = [] := List.length_eq_zero_iff.mp (by omega)
  refine ⟨⟨?_, hdone, rfl, hengaged⟩, ?_, hjobs⟩
  · simp only [quit, hengaged, Message.jobs, List.length_nil, Bool.toNat_true]
    omega
  · have hfront := Message.front_eq_nil_of_jobs_eq_nil hjobs
    simp only [placed, waiting, quit, hserving, hfront]

end Post

end PhraseLedger
