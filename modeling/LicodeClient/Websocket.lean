import LicodeClient.Packets

/-!
`WebsocketSession`: one connection, from the resolution of its host to its end.
The session runs its handlers on a thread of its own; what it has asked the
network for and what has been posted to it is part of its state, and each
completion is an event. The callbacks belong to whoever owns the session, so the
handlers that call them are put together in `LicodeClient.Signaling`.
-/
namespace LicodeClient

/-- The operations of the connect and read chain, each ending in the handler of
    its name. -/
inductive Operation where
  | resolve
  | connect
  | handshake
  | read
  deriving DecidableEq, Repr

/-- Handlers posted to the thread of a session. -/
inductive Posted where
  | onSend (msg : Packet)
  | doClose
  deriving DecidableEq

/-- The frame of a posted handler. -/
def Posted.frame : Posted → Option Packet
  | .onSend msg => some msg
  | .doClose => none

/-- `WebsocketSession`. `outstanding` holds the operations under way, `posted` the
    handlers that wait for the session's thread, `writing` whether a write is
    under way and `written` the frames whose write has completed. -/
structure WebsocketSession where
  url : Text
  doDisconnect : Bool := false
  connected : Bool := false
  readyCallback : Bool := false
  receiveMsgCallback : Bool := false
  abnormalDisconnectCallback : Bool := false
  isOpen : Bool := false
  buffer : Text := []
  queue : List Packet := []
  outstanding : List Operation := []
  posted : List Posted := []
  writing : Bool := false
  written : List Packet := []
  deriving DecidableEq

namespace WebsocketSession

/-- An operation is started. -/
def start (s : WebsocketSession) (op : Operation) : WebsocketSession :=
  { s with outstanding := s.outstanding ++ [op] }

/-- An operation completes. -/
def finish (s : WebsocketSession) (op : Operation) : WebsocketSession :=
  { s with outstanding := s.outstanding.erase op }

/-- The setters are told whether they are given a callback or `nullptr`. -/
def setOnReadyCallback (s : WebsocketSession) (callback : Bool) : WebsocketSession :=
  { s with connected := true, readyCallback := callback }

def setOnReceiveMsgCallback (s : WebsocketSession) (callback : Bool) : WebsocketSession :=
  { s with receiveMsgCallback := callback }

def setOnAbnormalDisconnectCallback (s : WebsocketSession) (callback : Bool) : WebsocketSession :=
  { s with connected := false, abnormalDisconnectCallback := callback }

def connect (s : WebsocketSession) : WebsocketSession :=
  if s.connected then s else { s with doDisconnect := false, connected := false }.start .resolve

def disconnect (s : WebsocketSession) : WebsocketSession :=
  { s with doDisconnect := true, posted := s.posted ++ [.doClose] }

def sendMsg (s : WebsocketSession) (msg : Packet) : WebsocketSession :=
  if !s.connected then s else { s with posted := s.posted ++ [.onSend msg] }

/-- Queues a frame, and starts to write it when no other waits. -/
def onSend (s : WebsocketSession) (msg : Packet) : WebsocketSession :=
  let queue := s.queue ++ [msg]
  if queue.length > 1 then { s with queue } else { s with queue, writing := true }

/-- The end of a write: the frame leaves the queue and the next one is written.
    A failed write is only logged. -/
def onWrite (s : WebsocketSession) (succeeded : Bool) : WebsocketSession :=
  if !succeeded then { s with writing := false }
  else { s with queue := s.queue.tail, written := s.written ++ s.queue.take 1, writing := !s.queue.tail.isEmpty }

/-- Whether `ProcessDisconnect` calls the abnormal-disconnect callback. -/
def reports (s : WebsocketSession) : Bool := !s.doDisconnect && s.abnormalDisconnectCallback

/-- Every frame given to the session and accepted, in order: those written,
    those queued and those still to be queued. -/
def accepted (s : WebsocketSession) : List Packet := s.written ++ s.queue ++ s.posted.filterMap Posted.frame

theorem accepted_sendMsg (s : WebsocketSession) (msg : Packet) :
    (s.sendMsg msg).accepted = if s.connected then s.accepted ++ [msg] else s.accepted := by
  unfold sendMsg
  cases s.connected <;> simp [accepted,Posted.frame]

theorem accepted_disconnect (s : WebsocketSession) : s.disconnect.accepted = s.accepted := by
  simp [disconnect,accepted,Posted.frame]

/-- Queuing a posted frame keeps the accepted frames and their order. -/
theorem accepted_onSend (s : WebsocketSession) (msg : Packet) (rest : List Posted)
    (h : s.posted = .onSend msg :: rest) :
    ({ s with posted := rest }.onSend msg).accepted = s.accepted := by
  unfold onSend
  dsimp only
  split <;> simp [accepted,h,Posted.frame]

theorem accepted_onWrite (s : WebsocketSession) (succeeded : Bool) : (s.onWrite succeeded).accepted = s.accepted := by
  unfold onWrite
  cases succeeded with
  | false => rfl
  | true =>
    simp only [accepted,Bool.not_true,Bool.false_eq_true,if_false]
    cases s.queue <;> simp

end WebsocketSession
end LicodeClient
