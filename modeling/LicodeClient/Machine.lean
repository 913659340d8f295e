import LicodeClient.Lib.Run
import LicodeClient.Signaling

/-!
The client as a machine: the calls of the application, the ends of the network's
operations on any session, the worker taking its next task and the pings, in any
order. A step runs one handler to its end; a fault ends the process and with it
the run.
-/
namespace LicodeClient
open LicodeClient.Table LicodeClient.Program

/-- The calls of the application that post a task. -/
inductive Api where
  | publishStream (info : StreamPtr)
  | unPublishStream (streamId : UInt64)
  | subscribeStream (streamId : UInt64)
  | unSubscriberStream (streamId : UInt64)
  | sendAnswer (streamId : UInt64) (sdp : Text)
  | sendOffer (streamId : UInt64) (sdp : Text)
  | sendIceCandidate (streamId : UInt64) (sdpMid : Text) (sdpMLineIndex : Int32) (candidate : Text)

/-- The task of a call; a publish frame is built at once, from the label that
    the stream has then. -/
def Api.task (w : World) : Api → Task
  | .publishStream info => .publishStream info (w.heap.cell info).label
  | .unPublishStream streamId => .unPublishStream streamId
  | .subscribeStream streamId => .subscribeStream streamId
  | .unSubscriberStream streamId => .unSubscriberStream streamId
  | .sendAnswer streamId sdp => .sendAnswer streamId sdp
  | .sendOffer streamId sdp => .sendOffer streamId sdp
  | .sendIceCandidate streamId sdpMid sdpMLineIndex candidate =>
    .sendIceCandidate streamId sdpMid sdpMLineIndex candidate

/-- The streams that a call may name are the ones that exist. -/
def Api.allowed (w : World) : Api → Bool
  | .publishStream info => info < w.heap.next
  | _ => true

/-- What can happen next. `call` comes from another thread than the worker's and
    posts its task; `dispatch` comes from the worker's own thread, from an
    observer that is called back there, and runs its task at once, the call of
    the observer being the last thing that any task does. -/
inductive Event where
  | join
  | leave
  | makeStream (info : LicodeStreamInfo)
  | call (api : Api)
  | dispatch (api : Api) (order : Order UInt64 StreamPtr)
  | work (order : Order UInt64 StreamPtr)
  | resolved (k : Nat) (failed : Bool)
  | connected (k : Nat) (failed : Bool)
  | handshaken (k : Nat) (failed : Bool)
  | read (k : Nat) (frame : Option Text)
  | posted (k : Nat) (closes : Bool)
  | wrote (k : Nat) (succeeded : Bool)
  | ping (i : Nat)

/-- Whether an event can happen: its operation is under way, its handler is
    posted, its task is queued. -/
def enabled (w : World) : Event → Bool
  | .join | .leave | .makeStream _ => true
  | .call api | .dispatch api _ => api.allowed w
  | .work _ => !w.tasks.isEmpty
  | .resolved k _ => k < w.sessions.length && (w.session k).outstanding.contains .resolve
  | .connected k _ => k < w.sessions.length && (w.session k).outstanding.contains .connect
  | .handshaken k _ => k < w.sessions.length && (w.session k).outstanding.contains .handshake
  | .read k _ => k < w.sessions.length && (w.session k).outstanding.contains .read
  | .posted k _ => k < w.sessions.length && !(w.session k).posted.isEmpty
  | .wrote k _ => k < w.sessions.length && (w.session k).writing
  | .ping i => i < w.pings.length

/-- The worker takes its next task. -/
def work (nl : Nlohmann) (order : Order UInt64 StreamPtr) : Exec Unit := do
  match (← get).tasks with
  | [] => pure ()
  | task :: rest =>
    modify fun w => { w with tasks := rest }
    task.run nl order

/-- A scheduled ping comes up; the chain ends when it is not sent. -/
def firePing (i : Nat) : Exec Unit := do
  let goesOn ← socketIoPing
  if !goesOn then
    modify fun w => { w with pings := w.pings.eraseIdx i }

/-- The handler of an event. -/
def handler (nl : Nlohmann) : Event → Exec Unit
  | .join => join
  | .leave => leave
  | .makeStream info => do let _ ← makeShared info
  | .call api => do postTask (api.task (← get))
  | .dispatch api order => do (api.task (← get)).run nl order
  | .work order => work nl order
  | .resolved k failed => onResolve k failed
  | .connected k failed => onConnect k failed
  | .handshaken k failed => onHandshake k failed
  | .read k frame => onRead nl k frame
  | .posted k closes => runPosted k closes
  | .wrote k succeeded => modify (·.updateSession k (·.onWrite succeeded))
  | .ping i => firePing i

/-- The client after a program, ended by its fault when it has one. -/
def settle (x : Exec Unit) (w : World) : World := { after x w with crashed := faultOf x w }

/-- One step of the client. -/
def step (nl : Nlohmann) (w : World) (e : Event) : Option World :=
  if w.crashed = none ∧ enabled w e then some (settle (handler nl e) w) else none

/-- Knows the texts of a few values and how one of them is printed, for runs that
    receive no others. -/
def knownJson (known : List (Text × Json)) (printed : Text) : Nlohmann :=
  ⟨fun text => (known.find? (·.1 = text)).map Prod.snd,fun _ => printed⟩

def noJson : Nlohmann := knownJson [] []

/-- A connection is made and opened on both sides. -/
def opening : List Event := [.join,.resolved 0 false,.connected 0 false,.handshaken 0 false,.read 0 (some (lit "40"))]

theorem step_eq_some {nl : Nlohmann} {w w' : World} {e : Event} (taken : step nl w e = some w') :
    w.crashed = none ∧ enabled w e = true ∧ w' = settle (handler nl e) w := by
  unfold step at taken
  split at taken
  · next can => exact ⟨can.1,can.2,(Option.some.inj taken).symm⟩
  · cases taken

end LicodeClient
