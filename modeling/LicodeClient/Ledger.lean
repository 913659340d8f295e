import LicodeClient.Connection
import LicodeClient.Tasks

/-!
The books that the client keeps about its requests: the two queues of pending
requests, the requests that each session has accepted, and the acks that wait
for the worker. `step_ledger` says what every step of the client enters there:
a request is queued whether or not it is sent, and an ack takes the front of its
queue.
-/
namespace LicodeClient
open LicodeClient.Table LicodeClient.Program

/-- The kinds of requests, each with its queue and its acks. -/
inductive Kind where
  | publish
  | subscribe
  deriving DecidableEq

def Request.kind : Request → Kind
  | .publish _ => .publish
  | .subscribe _ => .subscribe

/-- The tasks that take in an ack. -/
def Task.ack : Task → Option Kind
  | .onPublishStream _ => some .publish
  | .onSubscribeStream _ => some .subscribe
  | _ => none

/-- The queue of each kind, as requests. -/
def LicodeRoom.pending (room : LicodeRoom) : Kind → List Request
  | .publish => room.pendingPublishLocalStreams.map .publish
  | .subscribe => room.pendingSubscribeStreams.map .subscribe

structure Ledger where
  pending : Kind → List Request
  websocket : Option Nat
  requests : List (List Request)
  acks : List Kind

def World.ledger (w : World) : Ledger :=
  ⟨w.room.pending,w.signaling.websocket,w.sessions.map WebsocketSession.requests,w.tasks.filterMap Task.ack⟩

/-- The session that accepts what is sent now, if any does: both layers may drop
    a frame. -/
def World.route (w : World) : Option Nat :=
  if w.signaling.state = .kConnected then w.signaling.websocket.filter (fun c => (w.session c).connected) else none

/-- What is entered in the books. -/
inductive Booking where
  | opened
  | asked (r : Request) (session : Option Nat)
  | answered (kind : Kind)
  | taken (kind : Kind)
  | none

/-- The kind of request that a frame acks. -/
def Frame.ack : Frame → Option Kind
  | .publishStream _ => some .publish
  | .subscribeStream _ => some .subscribe
  | _ => none

/-- The kind of request that is acked by what a session has read. -/
def World.ackRead (w : World) (k : Nat) (frame : Text) : Option Kind :=
  if (w.session k).receiveMsgCallback then (frameOf ((w.session k).buffer ++ frame)).ack else none

def Task.booking (w : World) : Task → Booking
  | .publishStream info _ => .asked (.publish info) w.route
  | .subscribeStream streamId => .asked (.subscribe streamId) w.route
  | .onPublishStream _ => .taken .publish
  | .onSubscribeStream _ => .taken .subscribe
  | _ => .none

def bookingOf (w : World) : Event → Booking
  | .join => if w.room.state = .kDisconnected ∧ w.signaling.state = .kDisconnect then .opened else .none
  | .dispatch api _ => (api.task w).booking w
  | .work _ => w.tasks.head?.elim .none (Task.booking w)
  | .read k (some frame) => (w.ackRead k frame).elim .none Booking.answered
  | _ => .none

/-- The books after an entry; an ack that the process does not survive is not
    entered. -/
def Booking.apply (survives : Bool) : Booking → Ledger → Ledger
  | .opened, l => { l with websocket := some l.requests.length, requests := l.requests ++ [[]] }
  | .asked r session, l =>
    { l with
      pending := Function.update l.pending r.kind (l.pending r.kind ++ [r])
      requests := session.elim l.requests (fun c => l.requests.modify c (· ++ [r])) }
  | .answered kind, l => if survives then { l with acks := l.acks ++ [kind] } else l
  | .taken kind, l => { l with pending := Function.update l.pending kind (l.pending kind).tail, acks := l.acks.tail }
  | .none, l => l

/-! ### Sessions -/

theorem session_of_getElem? {w : World} {c : Nat} {s : WebsocketSession} (found : w.sessions[c]? = some s) :
    w.session c = s := by
  simp [World.session,List.getD_eq_getElem?_getD,found]

/-- What is sent is accepted by the session that the route leads to, and dropped
    when there is none. -/
theorem after_signalingSendMsg (msg : Packet) (w : World) :
    after (signalingSendMsg msg) w = w.route.elim w (fun c => w.updateSession c (·.sendMsg msg)) := by
  unfold World.route
  by_cases up : w.signaling.state = .kConnected
  · cases current : w.signaling.websocket with
    | none => simp [after,signalingSendMsg,websocketSendMsg,websocket,up,current]
    | some c =>
      have runs : (signalingSendMsg msg).run w = .ok () (w.updateSession c (·.sendMsg msg)) := by
        simp [signalingSendMsg,up,run_websocketSendMsg current]
      rw [after_of_ok runs]
      cases connected : (w.session c).connected with
      | true => simp [up,connected,Option.filter]
      | false =>
        have dropped : w.sessions.modify c (·.sendMsg msg) = w.sessions.modify c id := by
          refine modify_congr ?_
          intro s found
          rw [session_of_getElem? found] at connected
          simp [WebsocketSession.sendMsg,connected]
        simp [up,connected,Option.filter,World.updateSession,dropped]
  · simp [after,signalingSendMsg,up]

theorem connected_of_route {w : World} {c : Nat} (routed : w.route = some c) :
    w.signaling.state = .kConnected ∧ w.signaling.websocket = some c ∧ (w.session c).connected = true := by
  unfold World.route at routed
  split at routed
  · next up => exact ⟨up,by simpa [Option.filter_eq_some_iff] using routed⟩
  · cases routed

end LicodeClient
