import LicodeClient.Lib.Run
import LicodeClient.Websocket

/-!
The write side of a session: `OnSend` queues a message and starts a write when it
is the only one, `OnWrite` takes a written message off the queue and starts the
next. Nothing says beforehand that only one write is under way, so the writes in
flight are a list and any of them may complete. `WebsocketSession` keeps of this
its queue and whether a write is under way (`follows_step`).
-/
namespace LicodeClient
open LicodeClient.Run

/-- `queue_`, with the messages that were given to `OnSend`, those for which a
    write was started, those being written and whether a write has failed. -/
structure Writer (α : Type*) where
  queue : List α := []
  given : List α := []
  begun : List α := []
  inFlight : List α := []
  failed : Bool := false

namespace Writer
variable {α : Type*}

/-- What can happen to the queue; `wrote i` is the completion of the write in
    flight with that number. -/
inductive Event (α : Type*) where
  | send (msg : α)
  | wrote (i : Nat) (succeeded : Bool)

/-- `ws_.async_write` of the message at the front. -/
def asyncWrite (w : Writer α) : Writer α :=
  { w with begun := w.begun ++ w.queue.head?.toList, inFlight := w.inFlight ++ w.queue.head?.toList }

/-- `WebsocketSession::OnSend`. -/
def onSend (w : Writer α) (msg : α) : Writer α :=
  let w := { w with queue := w.queue ++ [msg] }
  if w.queue.length > 1 then w else w.asyncWrite

/-- `WebsocketSession::OnWrite`. -/
def onWrite (w : Writer α) (succeeded : Bool) : Writer α :=
  if !succeeded then { w with failed := true }
  else
    let w := { w with queue := w.queue.tail }
    if !w.queue.isEmpty then w.asyncWrite else w

/-- One step; a message that is sent has been given, and a write completes once. -/
def step (w : Writer α) : Event α → Option (Writer α)
  | .send msg => some ({ w with given := w.given ++ [msg] }.onSend msg)
  | .wrote i succeeded =>
    if i < w.inFlight.length then some ({ w with inFlight := w.inFlight.eraseIdx i }.onWrite succeeded) else none

/-- The queue is a FIFO with one write in flight. -/
structure Fifo (w : Writer α) : Prop where
  single : w.inFlight.length ≤ 1
  order : w.begun <+: w.given
  kept : w.inFlight <+: w.queue
  awake : w.failed = false → (w.inFlight ≠ [] ↔ w.queue ≠ [])

/-- The messages that are written and gone, followed by the queue, are those
    that were given; only the front of the queue is being written. -/
structure Kept (w : Writer α) : Prop where
  front : w.inFlight = [] ∨ w.inFlight = w.queue.head?.toList
  accounts : ∃ done, w.given = done ++ w.queue ∧
    (w.begun = done ++ w.inFlight ∨ w.failed = true ∧ w.begun = done ++ w.queue.head?.toList)
  awake : w.failed = false → w.inFlight = w.queue.head?.toList
  stuck : w.failed = true → w.inFlight = [] ∧ w.queue ≠ []

theorem Kept.fifo {w : Writer α} (kept : w.Kept) : w.Fifo := by
  have first : w.queue.head?.toList <+: w.queue := by
    cases w.queue with
    | nil => exact List.prefix_refl _
    | cons msg rest => exact ⟨rest,rfl⟩
  have small : w.queue.head?.toList.length ≤ 1 := by cases w.queue <;> simp
  obtain ⟨done,given,begun⟩ := kept.accounts
  have flying : w.inFlight <+: w.queue := by
    rcases kept.front with none | one
    · rw [none]; exact List.nil_prefix
    · rw [one]; exact first
  refine ⟨?_,?_,flying,fun fine => ?_⟩
  · rcases kept.front with none | one
    · simp [none]
    · rw [one]; exact small
  · rw [given]
    rcases begun with all | ⟨-,all⟩
    · rw [all]; exact (List.prefix_append_right_inj done).mpr flying
    · rw [all]; exact (List.prefix_append_right_inj done).mpr first
  · rw [kept.awake fine]
    cases w.queue <;> simp

theorem kept_send {w : Writer α} (kept : w.Kept) (msg : α) :
    ({ w with given := w.given ++ [msg] }.onSend msg).Kept := by
  obtain ⟨front,⟨done,given,begun⟩,awake,stuck⟩ := kept
  cases queue : w.queue with
  | nil =>
    -- An empty queue has no failed write behind it, so the message is written at once.
    have fine : w.failed = false := by
      cases failed : w.failed with
      | false => rfl
      | true => exact absurd queue (stuck failed).2
    have idle : w.inFlight = [] := by simpa [queue] using awake fine
    have sends : { w with given := w.given ++ [msg], queue := [] }.onSend msg = { w with
        given := w.given ++ [msg], queue := [msg], begun := w.begun ++ [msg], inFlight := [msg] } := by
      simp [onSend,asyncWrite,idle]
    rw [sends]
    refine ⟨.inr rfl,⟨done,by simp [given,queue],.inl ?_⟩,fun _ => rfl,fun failed => ?_⟩
    · simpa [fine,idle] using begun
    · rw [fine] at failed; cases failed
  | cons first rest =>
    have sends : { w with given := w.given ++ [msg], queue := first :: rest }.onSend msg =
        { w with given := w.given ++ [msg], queue := first :: rest ++ [msg] } := by
      simp [onSend]
    rw [queue] at front awake begun
    rw [sends]
    exact ⟨front,⟨done,by simp [given,queue],begun⟩,awake,fun failed => ⟨(stuck failed).1,by simp⟩⟩

theorem kept_wrote {w : Writer α} (kept : w.Kept) {i : Nat} (flies : i < w.inFlight.length) (succeeded : Bool) :
    ({ w with inFlight := w.inFlight.eraseIdx i }.onWrite succeeded).Kept := by
  obtain ⟨front,⟨done,given,begun⟩,awake,stuck⟩ := kept
  have fine : w.failed = false := by
    cases failed : w.failed with
    | false => rfl
    | true => simp [(stuck failed).1] at flies
  obtain ⟨first,rest,queue⟩ : ∃ first rest, w.queue = first :: rest := by
    refine List.exists_cons_of_ne_nil (fun empty => ?_)
    simp [awake fine,empty] at flies
  have one : w.inFlight = [first] := by simpa [queue] using awake fine
  have landed : w.inFlight.eraseIdx i = [] := by
    have zero : i = 0 := by simpa [one] using flies
    simp [zero,one]
  have started : w.begun = done ++ [first] := by simpa [fine,one] using begun
  rw [landed]
  cases succeeded with
  | false =>
    refine ⟨.inl rfl,⟨done,given,.inr ⟨rfl,?_⟩⟩,fun failed => ?_,fun _ => ⟨rfl,?_⟩⟩
    · simpa [onWrite,queue] using started
    · cases failed
    · simp [onWrite,queue]
  | true =>
    have given' : w.given = (done ++ [first]) ++ rest := by simp [given,queue]
    cases rest with
    | nil =>
      have writes : ({ w with inFlight := [] } : Writer α).onWrite true = { w with inFlight := [], queue := [] } := by
        simp [onWrite,queue]
      rw [writes]
      exact ⟨.inl rfl,⟨done ++ [first],given',.inl (by simpa using started)⟩,fun _ => rfl,
        fun failed => by simp [fine] at failed⟩
    | cons next rest =>
      have writes : ({ w with inFlight := [] } : Writer α).onWrite true =
          { w with inFlight := [next], queue := next :: rest, begun := w.begun ++ [next] } := by
        simp [onWrite,asyncWrite,queue]
      rw [writes]
      exact ⟨.inr rfl,⟨done ++ [first],given',.inl (by simp [started])⟩,fun _ => rfl,
        fun failed => by simp [fine] at failed⟩

theorem kept_step {w w' : Writer α} {e : Event α} (kept : w.Kept) (taken : w.step e = some w') : w'.Kept := by
  cases e with
  | send msg => cases taken; exact kept_send kept msg
  | wrote i succeeded =>
    simp only [step] at taken
    split at taken
    · next flies => cases taken; exact kept_wrote kept flies succeeded
    · cases taken

/-- In every state of every interleaving the queue is a FIFO with at most one
    write in flight. -/
theorem fifo_always (es : List (Event α)) : Always step Fifo ({} : Writer α) es := by
  have start : ({} : Writer α).Kept :=
    ⟨.inl rfl,⟨[],rfl,.inl rfl⟩,fun _ => rfl,fun failed => by cases failed⟩
  exact (always_of_invariant (fun _ _ _ => kept_step) start es).mono (fun _ => Kept.fifo)

/-! ### The session's own queue -/

/-- The queue of a session and whether it writes are those of a writer. -/
def Follows (s : WebsocketSession) (w : Writer Packet) :
    Prop := s.queue = w.queue ∧ (s.writing = true ↔ w.inFlight ≠ [])

/-- What an event of the writer calls on the session. -/
def Event.handle (s : WebsocketSession) : Event Packet → WebsocketSession
  | .send msg => s.onSend msg
  | .wrote _ succeeded => s.onWrite succeeded

theorem follows_onSend {s : WebsocketSession} {w : Writer Packet} (follows : Follows s w) (msg : Packet) :
    Follows (s.onSend msg) (w.onSend msg) := by
  obtain ⟨queue,writing⟩ := follows
  unfold WebsocketSession.onSend onSend
  simp only [queue]
  split
  · exact ⟨rfl,writing⟩
  · simp [Follows,asyncWrite]

theorem follows_onWrite {s : WebsocketSession} {w : Writer Packet} (kept : w.Kept) (follows : Follows s w) {i : Nat}
    (flies : i < w.inFlight.length) (succeeded : Bool) :
    Follows (s.onWrite succeeded) ({ w with inFlight := w.inFlight.eraseIdx i }.onWrite succeeded) := by
  obtain ⟨queue,writing⟩ := follows
  have landed : w.inFlight.eraseIdx i = [] := by
    have few := kept.fifo.single
    exact List.eq_nil_of_length_eq_zero (by rw [List.length_eraseIdx_of_lt flies]; omega)
  rw [landed]
  cases succeeded with
  | false => simp [Follows,WebsocketSession.onWrite,onWrite,queue]
  | true => cases rest : w.queue.tail <;> simp [Follows,WebsocketSession.onWrite,onWrite,asyncWrite,queue,rest]

/-- The session goes along with every step of the writer. -/
theorem follows_step {s : WebsocketSession} {w w' : Writer Packet} {e : Event Packet} (kept : w.Kept)
    (follows : Follows s w) (taken : w.step e = some w') : Follows (e.handle s) w' := by
  cases e with
  | send msg =>
    cases taken
    have given : Follows s { w with given := w.given ++ [msg] } := follows
    exact follows_onSend given msg
  | wrote i succeeded =>
    simp only [step] at taken
    split at taken
    · next flies => cases taken; exact follows_onWrite kept follows flies succeeded
    · cases taken

end Writer
end LicodeClient
