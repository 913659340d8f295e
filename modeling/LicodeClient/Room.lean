import LicodeClient.World

/-!
`LicodeRoom`: joining and leaving, the handlers of the server's messages, which
run on the websocket's thread, and the tasks that they and the application's
calls post to the worker. A task runs alone; a loop over a table meets its
entries in an order that is given to the task.
-/
namespace LicodeClient
open LicodeClient.Table
open MonadExcept (ofExcept)

/-- `try { x } catch (const std::exception&) { handler }`. -/
def catchException (x handler : Exec Unit) : Exec Unit :=
  tryCatch x (fun fault =>
    match fault with
    | .exception => handler
    | .undefined => throw .undefined)

/-! ### Joining and leaving -/

/-- `LicodeRoom::Join`. -/
def join : Exec Unit := do
  if (← get).room.state ≠ .kDisconnected then
    return
  update .kConnecting
  let _ ← signalingInit (← get).room.token

/-- `LicodeRoom::Leave`. -/
def leave : Exec Unit := do
  if (← get).room.state = .kDisconnected then
    return
  dispose

/-- `LicodeRoom::OnLeaveRoom`. -/
def onLeaveRoom : Exec Unit := update .kDisconnected

/-- The arguments of a `LicodeStreamInfo` made from a message. All seven members
    are looked up before the first conversion. The language leaves the order of the
    lookups and that of the conversions open; a lookup of each kind fails in one
    way and a conversion only throws, so the outcome is the same in any order. -/
def streamInfo (nl : Nlohmann) (lookup : Json → String → Except Fault Json) (stream : Json) :
    Except Fault LicodeStreamInfo := do
  let id ← lookup stream "id"
  let video ← lookup stream "video"
  let audio ← lookup stream "audio"
  let data ← lookup stream "data"
  let label ← lookup stream "label"
  let screen ← lookup stream "screen"
  let attributes ← lookup stream "attributes"
  return {
    id := ← id.toUInt64
    hasVideo := ← video.toBool
    hasAudio := ← audio.toBool
    hasData := ← data.toBool
    label := ← label.toText
    screen := ← screen.toBool
    attributes := nl.dump attributes }

/-- One element of `iceServers`. -/
def iceServer (ice : Json) : Except Fault IceServer := do
  return {
    url := ← ice.value Json.toText "url" []
    username := ← ice.value Json.toText "username" []
    credential := ← ice.value Json.toText "credential" [] }

/-- The optional member `p2p`. -/
def readP2p (body : Json) : Exec Unit := do
  if body.contains "p2p" then
    let p2p ← ofExcept (body.member "p2p" >>= Json.toBool)
    modify fun w => { w with room.p2p := p2p }

/-- The loop over `iceServers`. -/
def readIceServers : List Json → Exec Unit
  | [] => pure ()
  | ice :: rest => do
    let server ← ofExcept (iceServer ice)
    modify fun w => { w with room.iceServerList := w.room.iceServerList ++ [server] }
    readIceServers rest

/-- The loop that posts a task for every stream of the response. -/
def postJoinedStreams : List LicodeStreamInfo → Exec Unit
  | [] => pure ()
  | info :: rest => do
    postTask (.joinedStream info)
    postJoinedStreams rest

/-- The body of a success response, member by member as `OnJoinRoom` reads it;
    the fields are assigned on the way, so a failure keeps those before it. -/
def joinBody (nl : Nlohmann) (body : Json) : Exec Unit := do
  let id ← ofExcept (body.member "id" >>= Json.toText)
  modify fun w => { w with room.id := id }
  let clientId ← ofExcept (body.member "clientId" >>= Json.toText)
  modify fun w => { w with room.clientId := clientId, room.remoteStreamInfos := ∅ }
  let streams ← ofExcept (body.member "streams")
  let existStreams ← ofExcept (streams.elements.mapM (streamInfo nl Json.memberConst))
  readP2p body
  let defaultVideoBw ← ofExcept (body.member "defaultVideoBW" >>= Json.toInt32)
  modify fun w => { w with room.defaultVideoBw := defaultVideoBw }
  let maxVideoBw ← ofExcept (body.member "maxVideoBW" >>= Json.toInt32)
  modify fun w => { w with room.maxVideoBw := maxVideoBw }
  let singlePc ← ofExcept (body.member "singlePC" >>= Json.toBool)
  modify fun w => { w with room.singlePc := singlePc }
  let iceServers ← ofExcept (body.member "iceServers")
  modify fun w => { w with room.iceServerList := [] }
  readIceServers iceServers.elements
  update .kConnected
  postTask .onJoinRoom
  postJoinedStreams existStreams

/-- `LicodeRoom::OnJoinRoom`. -/
def onJoinRoom (nl : Nlohmann) (msg : Text) : Exec Unit :=
  catchException
    (do
      let json ← ofExcept (nl.parseOrThrow msg)
      let status ← ofExcept (json.index 0)
      if status.isText "success" then
        let body ← ofExcept (json.index 1)
        joinBody nl body
      else
        update .kDisconnected
        let _ ← ofExcept (json.index 1))
    (update .kDisconnected)

/-! ### Messages -/

/-- `LicodeRoom::OnAddStream`. -/
def onAddStream (nl : Nlohmann) (msg : Text) : Exec Unit :=
  catchException
    (do
      let stream ← ofExcept (nl.parseOrThrow msg)
      let info ← ofExcept (streamInfo nl Json.member stream)
      postTask (.onAddStream info))
    (pure ())

/-- `LicodeRoom::OnRemoveStream`. -/
def onRemoveStream (nl : Nlohmann) (msg : Text) : Exec Unit :=
  catchException
    (do
      let body ← ofExcept (nl.parseOrThrow msg)
      let removeStreamId ← ofExcept (body.member "id" >>= Json.toUInt64)
      postTask (.onRemoveStream removeStreamId))
    (pure ())

/-- `LicodeRoom::OnSubscribeStream`, which parses outside any `try`. -/
def onSubscribeStream (nl : Nlohmann) (msg : Text) : Exec Unit := do
  let json ← ofExcept (nl.parseOrThrow msg)
  postTask (.onSubscribeStream json)

/-- `LicodeRoom::OnPublishStream`, whose task parses. -/
def onPublishStream (msg : Text) : Exec Unit := postTask (.onPublishStream msg)

/-- `LicodeRoom::OnErizoConnectionEvent`; an answer is converted and dropped. -/
def onErizoConnectionEvent (nl : Nlohmann) (msg : Text) : Exec Unit := do
  let event ← ofExcept (nl.parseOrThrow msg)
  let connectionId ← ofExcept (event.member "connectionId" >>= Json.toText)
  let info ← ofExcept (event.member "info" >>= Json.toInt32)
  let evt ← ofExcept (event.member "evt")
  if info = 202 then
    let type ← ofExcept (evt.member "type")
    if type.isText "offer" then
      let sdp ← ofExcept (evt.member "sdp" >>= Json.toText)
      postTask (.receiveOffer connectionId sdp)
    else if type.isText "answer" then
      let _ ← ofExcept (evt.member "sdp" >>= Json.toText)
  else if info = 104 then
    postTask (.onPeerConnectionConnectErizoReady connectionId)

/-- `LicodeRoom::OnEvent`; an unknown event is only logged. -/
def onEvent (nl : Nlohmann) (event msg : Text) : Exec Unit := do
  if event = lit "connection_message_erizo" then
    onErizoConnectionEvent nl msg
  else if event = lit "onAddStream" then
    onAddStream nl msg
  else if event = lit "onRemoveStream" then
    onRemoveStream nl msg

/-! ### Tasks -/

namespace Task

/-- A stream of the join response. -/
def runJoinedStream (info : LicodeStreamInfo) : Exec Unit := do
  let p ← makeShared info
  modify fun w => { w with room.remoteStreamInfos := emplace w.room.remoteStreamInfos info.id p }
  observe (.onAddRemoteStream p)

/-- `OnAddStream`: an announcement of an own stream replaces its description and
    keeps its connection. -/
def runOnAddStream (info : LicodeStreamInfo) : Exec Unit := do
  let p ← makeShared info
  let localStreamInfo ← localIndex info.id
  match localStreamInfo with
  | some own =>
    setConnectionId p ((← get).heap.cell own).connectionId
    modify fun w => { w with room.localStreamInfos := w.room.localStreamInfos.insert info.id (some p) }
  | none =>
    modify fun w => { w with room.remoteStreamInfos := w.room.remoteStreamInfos.insert info.id (some p) }
    observe (.onAddRemoteStream p)

/-- `OnRemoveStream`. -/
def runOnRemoveStream (removeStreamId : UInt64) : Exec Unit :=
  modify fun w => { w with room.remoteStreamInfos := w.room.remoteStreamInfos.erase removeStreamId }

/-- The erizo of an ack: the first one is kept, another one is only logged. -/
def noteErizoId (field : Except Fault Json) : Exec Unit := do
  let erizo ← ofExcept field
  if (← get).room.erizoId = [] then
    let erizoId ← ofExcept erizo.toText
    modify fun w => { w with room.erizoId := erizoId }

/-- The rest of `OnSubscribeStream` once the stream is known. The connection is
    converted to a string before `SetConnectionId` is entered on the description. -/
def storeSubscribeAck (json : Json) (streamId : UInt64) : Exec Unit := do
  noteErizoId (json.indexConst 1)
  let info ← remoteIndex streamId
  let connId ← ofExcept (json.indexConst 2 >>= Json.toText)
  let p ← nonNull info
  setConnectionId p connId
  observe (.onSubscribeStreamAllocateConnId (← remoteIndex streamId))

/-- `OnSubscribeStream`: the task's copy of the message is constant. -/
def runOnSubscribeStream (json : Json) : Exec Unit := do
  let streamId ← front (← get).room.pendingSubscribeStreams
  modify fun w => { w with room.pendingSubscribeStreams := w.room.pendingSubscribeStreams.tail }
  storeSubscribeAck json streamId

/-- The rest of `OnPublishStream` once the stream is known. -/
def storePublishAck (nl : Nlohmann) (msg : Text) (p : StreamPtr) : Exec Unit := do
  let json ← ofExcept (nl.parseOrThrow msg)
  noteErizoId (json.index 1)
  let streamId ← ofExcept (json.index 0 >>= Json.toUInt64)
  modify (·.setInfo p (fun info => { info with id := streamId }))
  let connId ← ofExcept (json.index 2 >>= Json.toText)
  setConnectionId p connId
  modify fun w => { w with room.localStreamInfos := w.room.localStreamInfos.insert streamId (some p) }

/-- `OnPublishStream`. -/
def runOnPublishStream (nl : Nlohmann) (msg : Text) : Exec Unit := do
  let p ← front (← get).room.pendingPublishLocalStreams
  modify fun w => { w with room.pendingPublishLocalStreams := w.room.pendingPublishLocalStreams.tail }
  storePublishAck nl msg p

/-- The loops that look for a connection: every entry met before the first one
    with the connection is dereferenced. -/
def findConnection (connId : Text) : List (Sigma fun _ : UInt64 => Option StreamPtr) → Exec (Option StreamPtr)
  | [] => return none
  | info :: rest => do
    let p ← nonNull info.2
    if ((← get).heap.cell p).connectionId = connId then
      return some p
    else
      findConnection connId rest

/-- Finds a connection in a table and marks its stream as connected. -/
def markConnected (connId : Text) (entries : List (Sigma fun _ : UInt64 => Option StreamPtr)) :
    Exec (Option StreamPtr) := do
  let found ← findConnection connId entries
  match found with
  | some p =>
    modify (·.setInfo p (fun info => { info with connected := true }))
    return some p
  | none => return none

/-- `OnPeerConnectionConnectErizoReady`. -/
def runOnPeerConnectionConnectErizoReady (order : Order UInt64 StreamPtr) (connId : Text) : Exec Unit := do
  let remote ← markConnected connId (order.arrange (← get).room.remoteStreamInfos.entries)
  match remote with
  | some p => observe (.onStreamConnectReady (some p))
  | none =>
    let own ← markConnected connId (order.arrange (← get).room.localStreamInfos.entries)
    observe (.onStreamConnectReady own)

/-- `receiveOffer`, which looks among the remote streams only. -/
def runReceiveOffer (order : Order UInt64 StreamPtr) (connId sdp : Text) : Exec Unit := do
  let streamInfo ← findConnection connId (order.arrange (← get).room.remoteStreamInfos.entries)
  observe (.onReceiveOffer streamInfo sdp)

/-- `PublishStream`: the stream is queued, then the frame is sent. -/
def runPublishStream (info : StreamPtr) (label : Text) : Exec Unit := do
  modify fun w => { w with room.pendingPublishLocalStreams := w.room.pendingPublishLocalStreams ++ [info] }
  signalingSendMsg (.publish info label)

/-- `SubscribeStream`: the stream is queued, then the frame is sent. -/
def runSubscribeStream (streamId : UInt64) : Exec Unit := do
  modify fun w => { w with room.pendingSubscribeStreams := w.room.pendingSubscribeStreams ++ [streamId] }
  signalingSendMsg (.subscribe streamId)

/-- `UnPublishStream` and `UnSubscriberStream` send the same frame. -/
def runUnsubscribe (streamId : UInt64) : Exec Unit := signalingSendMsg (.unsubscribe streamId)

/-- `SendAnswer` and `SendOffer`, which look among the remote streams only. -/
def runOfferOrAnswer (type : String) (streamId : UInt64) (sdp : Text) : Exec Unit := do
  let p ← nonNull (← remoteIndex streamId)
  let w ← get
  signalingSendMsg (.offerOrAnswer (lit type) (w.heap.cell p).connectionId w.room.erizoId sdp)

/-- `SendIceCandidate`, which falls back to the local streams. -/
def runSendIceCandidate (streamId : UInt64) (sdpMid : Text) (sdpMLineIndex : Int32) (candidate : Text) : Exec Unit := do
  let remote ← remoteIndex streamId
  let info ← match remote with
    | some p => pure (some p)
    | none => localIndex streamId
  let p ← nonNull info
  let w ← get
  signalingSendMsg (.iceCandidate w.room.erizoId (w.heap.cell p).connectionId sdpMid sdpMLineIndex candidate)

/-- What a task does when the worker runs it. -/
def run (nl : Nlohmann) (order : Order UInt64 StreamPtr) : Task → Exec Unit
  | .onJoinRoom => do observe (.onJoinRoom (← get).room.id)
  | .joinedStream info => runJoinedStream info
  | .onAddStream info => runOnAddStream info
  | .onRemoveStream streamId => runOnRemoveStream streamId
  | .onSubscribeStream json => runOnSubscribeStream json
  | .onPublishStream msg => runOnPublishStream nl msg
  | .onPeerConnectionConnectErizoReady connId => runOnPeerConnectionConnectErizoReady order connId
  | .receiveOffer connId sdp => runReceiveOffer order connId sdp
  | .publishStream info label => runPublishStream info label
  | .unPublishStream streamId => runUnsubscribe streamId
  | .subscribeStream streamId => runSubscribeStream streamId
  | .unSubscriberStream streamId => runUnsubscribe streamId
  | .sendAnswer streamId sdp => runOfferOrAnswer "answer" streamId sdp
  | .sendOffer streamId sdp => runOfferOrAnswer "offer" streamId sdp
  | .sendIceCandidate streamId sdpMid sdpMLineIndex candidate =>
    runSendIceCandidate streamId sdpMid sdpMLineIndex candidate

end Task
end LicodeClient
