import LicodeClient.Lib.Program
import LicodeClient.Lib.Table
import LicodeClient.Websocket

/-!
The state of the client: a room, its signaling, the websocket sessions it has
opened, the worker that runs its tasks, and what it has told its observer.
Handlers are programs on this state (`Exec`); a fault leaves them where it
happens, with the state reached so far. The descriptions of streams are shared
objects, so they live in a heap and the tables hold pointers to them.
-/
namespace LicodeClient
open LicodeClient.Table

/-- `LicodeRoom::State`. -/
inductive RoomState where
  | kDisconnected
  | kConnecting
  | kConnected
  deriving DecidableEq, Repr

/-- `LicodeSignaling::State`. -/
inductive SignalingState where
  | kDisconnect
  | kConnecting
  | kConnected
  deriving DecidableEq, Repr

abbrev StreamTable := PtrTable UInt64 StreamPtr

/-- `LicodeRoom`. -/
structure LicodeRoom where
  token : LicodeToken
  id : Text := []
  clientId : Text := []
  erizoId : Text := []
  state : RoomState := .kDisconnected
  p2p : Bool := false
  singlePc : Bool := false
  defaultVideoBw : Int32 := 0
  maxVideoBw : Int32 := 0
  iceServerList : List IceServer := []
  localStreamInfos : StreamTable := ∅
  remoteStreamInfos : StreamTable := ∅
  pendingSubscribeStreams : List UInt64 := []
  pendingPublishLocalStreams : List StreamPtr := []

/-- `LicodeSignaling`, whose callbacks the room installs before anything else.
    `websocket` is the number of the session that `websocket_` points to. -/
structure LicodeSignaling where
  state : SignalingState := .kDisconnect
  token : LicodeToken := ⟨[],[],false,[]⟩
  signalingUrl : Text := []
  sid : Text := []
  pingIntervalMs : Int32 := 25000
  pingTimeoutMs : Int32 := 60000
  websocket : Option Nat := none

/-- The closures that the room posts to its worker, under the names of the
    functions that post them. A stream description decoded from a message is
    reachable only through its closure until that runs, so it is allocated then. -/
inductive Task where
  | onJoinRoom
  | joinedStream (info : LicodeStreamInfo)
  | onAddStream (info : LicodeStreamInfo)
  | onRemoveStream (streamId : UInt64)
  | onSubscribeStream (json : Json)
  | onPublishStream (msg : Text)
  | onPeerConnectionConnectErizoReady (connId : Text)
  | receiveOffer (connId sdp : Text)
  | publishStream (info : StreamPtr) (label : Text)
  | unPublishStream (streamId : UInt64)
  | subscribeStream (streamId : UInt64)
  | unSubscriberStream (streamId : UInt64)
  | sendAnswer (streamId : UInt64) (sdp : Text)
  | sendOffer (streamId : UInt64) (sdp : Text)
  | sendIceCandidate (streamId : UInt64) (sdpMid : Text) (sdpMLineIndex : Int32) (candidate : Text)

/-- Calls of the room's observer; `none` is a null stream. -/
inductive Call where
  | onJoinRoom (roomId : Text)
  | onAddRemoteStream (info : StreamPtr)
  | onSubscribeStreamAllocateConnId (info : Option StreamPtr)
  | onStreamConnectReady (info : Option StreamPtr)
  | onReceiveOffer (info : Option StreamPtr) (sdp : Text)
  deriving DecidableEq

/-- Stream descriptions by pointer; those from `next` on are not allocated. -/
structure Heap where
  cell : StreamPtr → LicodeStreamInfo
  next : StreamPtr

/-- The client. `tasks` is the worker's queue, `pings` holds the period of every
    ping invocation that is scheduled, and `crashed` the fault that ended the
    process, when one did. -/
structure World where
  room : LicodeRoom
  signaling : LicodeSignaling := {}
  sessions : List WebsocketSession := []
  heap : Heap := ⟨fun _ => ⟨0,false,false,false,[],false,[],[],false⟩,0⟩
  tasks : List Task := []
  pings : List Int32 := []
  calls : List Call := []
  crashed : Option Fault := none

/-- Handlers and tasks. -/
abbrev Exec := EStateM Fault World

namespace World

/-- A room that was constructed with a token. -/
def init (token : LicodeToken) : World := { room := { token } }

/-- The session with a number. -/
def session (w : World) (k : Nat) : WebsocketSession := w.sessions.getD k { url := [] }

def updateSession (w : World) (k : Nat) (f : WebsocketSession → WebsocketSession) : World :=
  { w with sessions := w.sessions.modify k f }

def setInfo (w : World) (p : StreamPtr) (f : LicodeStreamInfo → LicodeStreamInfo) : World :=
  { w with heap := { w.heap with cell := Function.update w.heap.cell p (f (w.heap.cell p)) } }

end World

/-! ### Statements -/

/-- `std::make_shared<LicodeStreamInfo>`. -/
def makeShared (info : LicodeStreamInfo) : Exec StreamPtr := do
  let p := (← get).heap.next
  modify fun w => { w with heap := ⟨Function.update w.heap.cell p info,p + 1⟩ }
  return p

/-- A pointer that is about to be dereferenced. -/
def nonNull : Option StreamPtr → Exec StreamPtr
  | some p => pure p
  | none => throw .undefined

/-- `std::queue::front`. -/
def front {α : Type} : List α → Exec α
  | a :: _ => pure a
  | [] => throw .undefined

def setConnectionId (p : StreamPtr) (connId : Text) : Exec Unit :=
  modify (·.setInfo p (fun info => { info with connectionId := connId }))

/-- `local_stream_infos_[streamId]`. -/
def localIndex (streamId : UInt64) : Exec (Option StreamPtr) := do
  let table := (← get).room.localStreamInfos
  modify fun w => { w with room.localStreamInfos := index table streamId }
  return entry table streamId

/-- `remote_stream_infos_[streamId]`. -/
def remoteIndex (streamId : UInt64) : Exec (Option StreamPtr) := do
  let table := (← get).room.remoteStreamInfos
  modify fun w => { w with room.remoteStreamInfos := index table streamId }
  return entry table streamId

/-- `Worker::PostTask` from another thread than the worker's. -/
def postTask (task : Task) : Exec Unit := modify fun w => { w with tasks := w.tasks ++ [task] }

/-- A call of the observer. -/
def observe (call : Call) : Exec Unit := modify fun w => { w with calls := w.calls ++ [call] }

/-- `LicodeRoom::Update`. -/
def update (state : RoomState) : Exec Unit := modify fun w => { w with room.state := state }

/-- `LicodeSignaling::UpdateState`. -/
def updateState (state : SignalingState) : Exec Unit := modify fun w => { w with signaling.state := state }

/-! ### Signaling towards the websocket -/

/-- The session behind `websocket_`, about to be dereferenced. -/
def websocket : Exec Nat := do
  match (← get).signaling.websocket with
  | some k => pure k
  | none => throw .undefined

/-- `websocket_->SendMsg`. -/
def websocketSendMsg (msg : Packet) : Exec Unit := do
  let k ← websocket
  modify (·.updateSession k (·.sendMsg msg))

/-- `LicodeSignaling::SendMsg`. -/
def signalingSendMsg (msg : Packet) : Exec Unit := do
  if (← get).signaling.state = .kConnected then
    websocketSendMsg msg

/-- `LicodeSignaling::Dispose`. -/
def dispose : Exec Unit := do
  let k ← websocket
  if ((← get).session k).connected then
    modify (·.updateSession k (·.disconnect))

/-- A session as `LicodeSignaling::Init` makes it and connects it. -/
def newSession (url : Text) : WebsocketSession :=
  ((({ url } : WebsocketSession).setOnReadyCallback true).setOnReceiveMsgCallback true
    |>.setOnAbnormalDisconnectCallback true).connect

/-- `LicodeSignaling::Init`. -/
def signalingInit (token : LicodeToken) : Exec Bool := do
  if (← get).signaling.state ≠ .kDisconnect then
    return false
  let url := lit "ws://" ++ token.host ++ lit "/socket.io/?EIO=3&transport=websocket"
  modify fun w => { w with
    signaling := { w.signaling with
      token
      signalingUrl := url
      websocket := some w.sessions.length
      state := .kConnecting }
    sessions := w.sessions ++ [newSession url] }
  return true

end LicodeClient
