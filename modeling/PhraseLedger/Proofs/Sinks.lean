import PhraseLedger.Sink

/-!
# Bytes in a sink

A sink takes the first bytes of what is offered to it, up to its limit, however the bytes
are cut into writes.  A write or a flush that succeeds leaves nothing behind.

Main results:

- Theorem {lit}`Sink.write_append`: two writes are one write of both texts.
- Theorem {lit}`Sink.Holds.send`: what a sink with limits holds after a text was sent to it.
- Theorem {lit}`Sink.taken_of_send_eq_ok`: a text that was sent is taken as a whole.
-/

namespace PhraseLedger

namespace Sink

/-- Writes a text and passes it on. -/
def send (sink : Sink) (text : Text) : Except String Unit × Sink :=
  match sink.write text with
  | (.ok (), written) => written.flush
  | (.error source, written) => (.error source, written)

/-- Nothing is written by an empty text. -/
@[simp] theorem write_nil (sink : Sink) : sink.write [] = (.ok (), sink) := by
  rcases sink with ⟨_ | room, flushesLeft, taken⟩ <;> simp [write]

/-- Writing two texts one after the other is writing both at once. -/
theorem write_append (sink : Sink) (front back : Text) :
    sink.write (front ++ back) =
      match sink.write front with
      | (.ok (), written) => written.write back
      | (.error source, written) => (.error source, written) := by
  rcases sink with ⟨_ | room, flushesLeft, taken⟩
  · simp [write]
  · by_cases hfront : front.length ≤ room
    · have hboth : front.length + back.length ≤ room ↔
          back.length ≤ room - front.length := by
        omega
      simp [write, hfront, hboth, List.take_append, List.take_of_length_le hfront, Nat.sub_sub]
    · have hboth : ¬(front.length + back.length ≤ room) := by omega
      have hroom : room - front.length = 0 := by omega
      have hleft : room - (front.length + back.length) = 0 := by omega
      simp [write, hfront, hboth, hroom, hleft, List.take_append]

/-- A flush takes no bytes. -/
@[simp] theorem taken_flush (sink : Sink) : sink.flush.2.taken = sink.taken := by
  rcases sink with ⟨room, _ | _ | left, taken⟩ <;> rfl

@[simp] theorem room_flush (sink : Sink) : sink.flush.2.room = sink.room := by
  rcases sink with ⟨room, _ | _ | left, taken⟩ <;> rfl

/-- A write that succeeds takes the whole text. -/
theorem taken_of_write_eq_ok {sink written : Sink} {text : Text}
    (hwrite : sink.write text = (.ok (), written)) : written.taken = sink.taken ++ text := by
  rcases sink with ⟨_ | room, flushesLeft, taken⟩
  · rw [← (Prod.mk.inj hwrite).2]
  · by_cases hfits : text.length ≤ room
    · rw [← (Prod.mk.inj hwrite).2, List.take_of_length_le hfits]
    · simp [write, hfits] at hwrite

/-- A text is sent by a write that succeeds and a flush behind it that succeeds too. -/
theorem exists_of_send_eq_ok {sink after : Sink} {text : Text}
    (hsend : sink.send text = (.ok (), after)) :
    ∃ written, sink.write text = (.ok (), written) ∧ written.flush = (.ok (), after) := by
  rw [send] at hsend
  rcases hwrite : sink.write text with ⟨_ | _, written⟩
  · rw [hwrite] at hsend
    cases (Prod.mk.inj hsend).1
  · rw [hwrite] at hsend
    exact ⟨written, rfl, hsend⟩

/-- A text that was sent is taken as a whole. -/
theorem taken_of_send_eq_ok {sink after : Sink} {text : Text}
    (hsend : sink.send text = (.ok (), after)) : after.taken = sink.taken ++ text := by
  rcases exists_of_send_eq_ok hsend with ⟨written, hwrite, hflush⟩
  have htaken := taken_flush written
  rw [hflush] at htaken
  rw [← taken_of_write_eq_ok hwrite, ← htaken]

/-- A sink without limits takes every text. -/
theorem send_unlimited (taken text : Text) :
    send { unlimited with taken := taken } text =
      (.ok (), { unlimited with taken := taken ++ text }) := rfl

theorem send_of_eq_unlimited {sink : Sink}
    (hperfect : sink = { unlimited with taken := sink.taken }) (text : Text) :
    sink.send text = (.ok (), { unlimited with taken := sink.taken ++ text }) := by
  rw [hperfect]
  rfl

/-! ## Limits -/

/-- Whether a sink that had room for `limit` bytes holds what it can of the bytes that were
offered to it. -/
structure Holds (limit : Nat) (offered : Text) (sink : Sink) : Prop where
  room : sink.room = some (limit - offered.length)
  taken : sink.taken = offered.take limit

theorem holds_limited (limit : Nat) (flushes : Option Nat) :
    Holds limit [] (limited (some limit) flushes) :=
  ⟨rfl, by simp [limited]⟩

namespace Holds

variable {limit : Nat} {offered : Text} {sink : Sink}

/-- A write offers its text, whether it succeeds or not. -/
theorem write (h : Holds limit offered sink) (text : Text) :
    Holds limit (offered ++ text) (sink.write text).2 := by
  have hroom := h.room
  rw [Sink.write, hroom]
  constructor
  · rw [List.length_append, Nat.sub_add_eq]
  · rw [h.taken, List.take_append]

theorem flush (h : Holds limit offered sink) : Holds limit offered sink.flush.2 :=
  ⟨(room_flush sink).trans h.room, (taken_flush sink).trans h.taken⟩

/-- Sending a text offers it, whether that succeeds or not. -/
theorem send (h : Holds limit offered sink) (text : Text) :
    Holds limit (offered ++ text) (sink.send text).2 := by
  have hwritten := h.write text
  rw [Sink.send]
  rcases hwrite : sink.write text with ⟨_ | _, written⟩
  · rw [hwrite] at hwritten
    exact hwritten
  · rw [hwrite] at hwritten
    exact hwritten.flush

end Holds

end Sink

end PhraseLedger
